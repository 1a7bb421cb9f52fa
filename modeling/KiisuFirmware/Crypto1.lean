import KiisuFirmware.BitLib
import KiisuFirmware.MfClassicListener
import KiisuFirmware.StreamCipher

/-!
# Crypto1

`crypto1.c`: the stream cipher of MIFARE Classic cards and the successors of their nonces. A
`uint32_t` is a `BitVec 32` here, and the parity bits of what is encrypted are left out, as a
`BitBuffer` has none.
-/

namespace KiisuFirmware

/-- The two halves of the register. -/
structure Crypto1State where
  odd : BitVec 32
  even : BitVec 32
  deriving DecidableEq

def LF_POLY_ODD : BitVec 32 := 0x29CE5C

def LF_POLY_EVEN : BitVec 32 := 0x870804

def bitNum (bit : Bool) : BitVec 32 := (BitVec.ofBool bit).setWidth 32

def nfcUtilEvenParity32 (data : BitVec 32) : Bool := builtinParity (UInt32.ofBitVec data)

def crypto1Filter (input : BitVec 32) : Bool :=
  let out := (0xf22c0 : BitVec 32) >>> (input &&& 0xf) &&& 16
  let out := out ||| (0x6c9c0 : BitVec 32) >>> (input >>> 4 &&& 0xf) &&& 8
  let out := out ||| (0x3c8b0 : BitVec 32) >>> (input >>> 8 &&& 0xf) &&& 4
  let out := out ||| (0x1e458 : BitVec 32) >>> (input >>> 12 &&& 0xf) &&& 2
  let out := out ||| (0x0d938 : BitVec 32) >>> (input >>> 16 &&& 0xf) &&& 1
  (0xEC57E80A : BitVec 32).getLsbD out.toNat

/-- The places of the bits of a word in the order they are taken, the highest byte first. -/
def bePlaces : List ℕ := (List.range 32).map (24 ^^^ ·)

namespace Crypto1State

def reset : Crypto1State := ⟨0, 0⟩

/-- The bits of the key, two in each round, from `i = 47` down. -/
def init (key : UInt64) : Crypto1State :=
  (List.range 24).foldl (fun crypto1 round =>
    let i := 47 - 2 * round
    ⟨crypto1.odd <<< 1 ||| bitNum (key.toNat.testBit ((i - 1) ^^^ 7)),
      crypto1.even <<< 1 ||| bitNum (key.toNat.testBit (i ^^^ 7))⟩) reset

/-- A bit of the key stream; what is fed in is encrypted or not. -/
def bit (isEncrypted input : Bool) (crypto1 : Crypto1State) : Bool × Crypto1State :=
  let out := crypto1Filter crypto1.odd
  let feed := bitNum (out && isEncrypted)
  let feed := feed ^^^ bitNum input
  let feed := feed ^^^ (LF_POLY_ODD &&& crypto1.odd)
  let feed := feed ^^^ (LF_POLY_EVEN &&& crypto1.even)
  let even := crypto1.even <<< 1 ||| bitNum (nfcUtilEvenParity32 feed)
  (out, ⟨even, crypto1.odd⟩)

def byte (crypto1 : Crypto1State) (input : BitVec 8) (isEncrypted : Bool) :
    BitVec 8 × Crypto1State :=
  words (bit isEncrypted) input (List.range 8) crypto1

def word (crypto1 : Crypto1State) (input : BitVec 32) (isEncrypted : Bool) :
    BitVec 32 × Crypto1State :=
  words (bit isEncrypted) input bePlaces crypto1

/-- One bit back. -/
def lfsrRollbackBit (fb input : Bool) (crypto1 : Crypto1State) : Bool × Crypto1State :=
  let t := crypto1.odd &&& 0xffffff
  let odd := crypto1.even
  let even := t
  let out := even &&& 1
  let even := even >>> 1
  let out := out ^^^ (LF_POLY_EVEN &&& even)
  let out := out ^^^ (LF_POLY_ODD &&& odd)
  let out := out ^^^ bitNum input
  let ret := crypto1Filter odd
  let out := out ^^^ bitNum (ret && fb)
  let even := even ||| bitNum (nfcUtilEvenParity32 out) <<< 23
  (ret, ⟨odd, even⟩)

def lfsrRollbackWord (crypto1 : Crypto1State) (input : BitVec 32) (fb : Bool) :
    BitVec 32 × Crypto1State :=
  words (lfsrRollbackBit fb) input bePlaces.reverse crypto1

end Crypto1State

/-! ## Nonces -/

def swapEndian (x : BitVec 32) : BitVec 32 :=
  let x := x >>> 8 &&& (0xff00ff : BitVec 32) ||| (x &&& 0xff00ff) <<< 8
  x >>> 16 ||| x <<< 16

def prngStep (x : BitVec 32) : BitVec 32 :=
  x >>> 1 ||| (x >>> 16 ^^^ x >>> 18 ^^^ x >>> 19 ^^^ x >>> 21) <<< 31

def crypto1PrngSuccessor (x : BitVec 32) (n : ℕ) : BitVec 32 :=
  swapEndian (prngStep^[n] (swapEndian x))

/-- The two bytes of a `uint16_t` the other way round. -/
def swapBytes (x : BitVec 16) : BitVec 16 := (x &&& 0xff) <<< 8 ||| x >>> 8

def weakStep (x : BitVec 16) : BitVec 16 :=
  x >>> 1 ||| (x ^^^ x >>> 2 ^^^ x >>> 3 ^^^ x >>> 5) <<< 15

def crypto1IsWeakPrngNonce (nonce : BitVec 32) : Bool :=
  if nonce = 0 then false
  else
    let x := swapBytes ((nonce >>> 16).setWidth 16)
    let x := weakStep^[16] x
    swapBytes x == nonce.setWidth 16

/-- What is the nonce, encrypted by a cipher with a key that is known? -/
def crypto1DecryptNtEnc (cuid ntEnc : BitVec 32) (knownKey : List UInt8) : BitVec 32 :=
  let knownKeyInt := bitLibBytesToNumBe knownKey
  let cryptoTemp := Crypto1State.init knownKeyInt
  let cryptoTemp := (cryptoTemp.word (ntEnc ^^^ cuid) true).2
  ntEnc ^^^ (cryptoTemp.lfsrRollbackWord (ntEnc ^^^ cuid) true).1

/-! ## Buffers -/

namespace Crypto1State

variable (crypto : Crypto1State)

/-- Some bits of a byte, one after the other. -/
def cryptBits (byte : UInt8) (count : ℕ) : UInt8 × Crypto1State :=
  let (out, crypto) := (List.range count).foldl (fun ((out, crypto) : BitVec 8 × Crypto1State) i =>
    let (bit, crypto) := crypto.bit false false
    (out ||| placeBit 8 (bit ^^ byte.toBitVec.getLsbD i) i, crypto)) (0, crypto)
  (UInt8.ofBitVec out, crypto)

/-- A byte, encrypted or decrypted. -/
def cryptByte (input byte : UInt8) : UInt8 × Crypto1State :=
  let (out, crypto) := crypto.byte input.toBitVec false
  (UInt8.ofBitVec out ^^^ byte, crypto)

def decrypt (buff out : BitBuffer) : Option (BitBuffer × Crypto1State) := do
  let out ← out.setSize buff.sizeBits
  if buff.sizeBits < 8 then
    let encryptedByte ← buff.getByte 0
    let (decryptedByte, crypto) := crypto.cryptBits encryptedByte 4
    let out ← out.setByte 0 decryptedByte
    return (out, crypto)
  else
    (List.range (buff.sizeBits / 8)).foldlM (fun (out, crypto) i => do
      let encryptedByte ← buff.getByte i
      let (decryptedByte, crypto) := cryptByte crypto 0 encryptedByte
      let out ← out.setByte i decryptedByte
      return (out, crypto)) (out, crypto)

/-- What is fed in is zero if there is nothing else. -/
def encrypt (keystream : Option (List UInt8)) (buff out : BitBuffer) :
    Option (BitBuffer × Crypto1State) := do
  let out ← out.setSize buff.sizeBits
  if buff.sizeBits < 8 then
    let plainByte ← buff.getByte 0
    let (encryptedByte, crypto) := crypto.cryptBits plainByte buff.sizeBits
    let out ← out.setByte 0 encryptedByte
    return (out, crypto)
  else
    (List.range (buff.sizeBits / 8)).foldlM (fun (out, crypto) i => do
      let input ← keystream.elim (some 0) (·[i]?)
      let plainByte ← buff.getByte i
      let (encryptedByte, crypto) := cryptByte crypto input plainByte
      let out ← out.setByte i encryptedByte
      return (out, crypto)) (out, crypto)

end Crypto1State

/-- The cipher of the emulation. -/
def crypto1Cipher : Crypto1 Crypto1State where
  reset _ := Crypto1State.reset
  init _ key := Crypto1State.init key
  word crypto1 input isEncrypted :=
    let (out, crypto1) := crypto1.word input.toBitVec isEncrypted
    (UInt32.ofBitVec out, crypto1)
  prngSuccessor x n := UInt32.ofBitVec (crypto1PrngSuccessor x.toBitVec n)
  encrypt := Crypto1State.encrypt
  decrypt := Crypto1State.decrypt

end KiisuFirmware
