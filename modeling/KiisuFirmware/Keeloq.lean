import KiisuFirmware.SubGhzBlocks

/-!
# KeeLoq

The cipher of `keeloq_common.c`, and of `keeloq.c` how the message of a remote is made and how it is
told whose remote has sent a message.
-/

namespace KiisuFirmware

/-! ## The cipher -/

def KEELOQ_NLF : BitVec 32 := 0x3A5C742E

/-- The bit of a word at some place, as a word. -/
def keeloqBit {w : ℕ} (x : BitVec w) (n : ℕ) : BitVec 32 := (x >>> n &&& 1).setWidth 32

def g5 (x : BitVec 32) (a b c d e : ℕ) : BitVec 32 :=
  keeloqBit x a + keeloqBit x b * 2 + keeloqBit x c * 4 + keeloqBit x d * 8 + keeloqBit x e * 16

def keeloqEncryptRound (key : BitVec 64) (x : BitVec 32) (r : ℕ) : BitVec 32 :=
  x >>> 1 ^^^ (keeloqBit x 0 ^^^ keeloqBit x 16 ^^^ keeloqBit key (r % 64) ^^^
    keeloqBit KEELOQ_NLF (g5 x 1 9 20 26 31).toNat) <<< 31

def subghzProtocolKeeloqCommonEncrypt (data : BitVec 32) (key : BitVec 64) : BitVec 32 :=
  (List.range 528).foldl (keeloqEncryptRound key) data

/-- The key's bit is that at `15 - r`, of which the last six bits are taken. -/
def keeloqDecryptRound (key : BitVec 64) (x : BitVec 32) (r : ℕ) : BitVec 32 :=
  x <<< 1 ^^^ keeloqBit x 31 ^^^ keeloqBit x 15 ^^^
    keeloqBit key ((15 - r : ℤ) % 64).toNat ^^^ keeloqBit KEELOQ_NLF (g5 x 0 8 19 25 30).toNat

def subghzProtocolKeeloqCommonDecrypt (data : BitVec 32) (key : BitVec 64) : BitVec 32 :=
  (List.range 528).foldl (keeloqDecryptRound key) data

def subghzProtocolKeeloqCommonNormalLearning (data : BitVec 32) (key : BitVec 64) : BitVec 64 :=
  let k1 := subghzProtocolKeeloqCommonDecrypt (data &&& 0x0FFFFFFF ||| 0x20000000) key
  let k2 := subghzProtocolKeeloqCommonDecrypt (data &&& 0x0FFFFFFF ||| 0x60000000) key
  joinWords k2 k1

def subghzProtocolKeeloqCommonSecureLearning (data seed : BitVec 32) (key : BitVec 64) :
    BitVec 64 :=
  let k1 := subghzProtocolKeeloqCommonDecrypt (data &&& 0x0FFFFFFF) key
  let k2 := subghzProtocolKeeloqCommonDecrypt seed key
  joinWords k1 k2

def subghzProtocolKeeloqCommonMagicXorType1Learning (data : BitVec 32) (xor : BitVec 64) :
    BitVec 64 :=
  joinWords (data &&& 0x0FFFFFFF) (data &&& 0x0FFFFFFF) ^^^ xor

def subghzProtocolKeeloqCommonMagicSerialType1Learning (data : BitVec 32) (man : BitVec 64) :
    BitVec 64 :=
  man &&& 0xFFFFFFFF#64 ||| data.setWidth 64 <<< 40 |||
    ((data &&& 0xff#32) + (data >>> 8 &&& 0xFF#32) &&& 0xFF#32).setWidth 64 <<< 32

/-- A byte of a word in memory, the lowest one first. -/
def keeloqByte (data : BitVec 32) (i : ℕ) : BitVec 64 := (data >>> (8 * i) &&& 0xFF).setWidth 64

def subghzProtocolKeeloqCommonMagicSerialType2Learning (data : BitVec 32) (man : BitVec 64) :
    BitVec 64 :=
  man &&& 0xFFFFFFFF#64 ||| keeloqByte data 0 <<< 56 ||| keeloqByte data 1 <<< 48 |||
    keeloqByte data 2 <<< 40 ||| keeloqByte data 3 <<< 32

def subghzProtocolKeeloqCommonMagicSerialType3Learning (data : BitVec 32) (man : BitVec 64) :
    BitVec 64 :=
  man &&& 0xFFFFFFFFFF000000#64 ||| (data &&& 0xFFFFFF#32).setWidth 64

/-! ## The keystore -/

/-- How the key of a remote is learnt; a file may also have numbers that stand for none of this. -/
inductive KeeloqLearning
  | unknown
  | simple
  | normal
  | secure
  | magicXorType1
  | magicSerialType1
  | magicSerialType2
  | magicSerialType3
  | other (type : ℕ)
  deriving DecidableEq, Repr

structure SubGhzKey where
  name : String
  key : BitVec 64
  type : KeeloqLearning
  deriving DecidableEq

/-! ## Making a message -/

structure SubGhzProtocolEncoderKeeloq where
  generic : SubGhzBlockGeneric
  keystore : List SubGhzKey
  manufactureName : String
  deriving DecidableEq

/-- The hopping code that a manufacturer's remote makes of this. -/
def keeloqHop (manufactureCode : SubGhzKey) (serial fix decrypt : BitVec 32) : BitVec 32 :=
  match manufactureCode.type with
  | .simple => subghzProtocolKeeloqCommonEncrypt decrypt manufactureCode.key
  | .normal =>
    let man := subghzProtocolKeeloqCommonNormalLearning fix manufactureCode.key
    subghzProtocolKeeloqCommonEncrypt decrypt man
  | .magicXorType1 =>
    let man := subghzProtocolKeeloqCommonMagicXorType1Learning serial manufactureCode.key
    subghzProtocolKeeloqCommonEncrypt decrypt man
  | _ => 0

namespace SubGhzProtocolEncoderKeeloq

variable (encoder : SubGhzProtocolEncoderKeeloq)

def genData (btn : BitVec 8) : Bool × SubGhzProtocolEncoderKeeloq :=
  let encoder := { encoder with generic := { encoder.generic with cnt := encoder.generic.cnt + 1 } }
  let generic := encoder.generic
  let fix : BitVec 32 := btn.setWidth 32 <<< 28 ||| generic.serial
  let decrypt : BitVec 32 :=
    btn.setWidth 32 <<< 28 ||| (generic.serial &&& 0x3FF#32) <<< 16 ||| generic.cnt
  let hop :=
    match encoder.keystore.find? fun code => code.name == encoder.manufactureName with
    | some manufactureCode => keeloqHop manufactureCode generic.serial fix decrypt
    | none => 0
  if hop ≠ 0 then
    let data := subghzProtocolBlocksReverseKey (joinWords fix hop) generic.dataCountBit
    (true, { encoder with generic := { generic with data := data } })
  else (false, { encoder with manufactureName := "Unknown" })

end SubGhzProtocolEncoderKeeloq

/-! ## Telling whose message it is -/

namespace Keeloq

variable (generic : SubGhzBlockGeneric)

/-- The message with the counter, if this is what it decrypts to. -/
def checkDecrypt (decrypt : BitVec 32) (btn : BitVec 8) (endSerial : BitVec 32) :
    Option SubGhzBlockGeneric :=
  if decrypt >>> 28 = btn.setWidth 32 ∧
      (decrypt >>> 16 &&& 0xFF = endSerial ∨ decrypt >>> 16 &&& 0xFF = 0) then
    some { generic with cnt := decrypt &&& 0x0000FFFF }
  else none

def checkDecryptCenturion (decrypt : BitVec 32) (btn : BitVec 8) : Option SubGhzBlockGeneric :=
  if decrypt >>> 28 = btn.setWidth 32 ∧ decrypt >>> 16 &&& 0x3FF = 0x1CE then
    some { generic with cnt := decrypt &&& 0x0000FFFF }
  else none

/-- A key with its bytes the other way around. -/
def manRev (key : BitVec 64) : BitVec 64 :=
  (List.range 8).foldl (fun manRev i =>
    manRev ||| (key >>> (8 * i) &&& 0xFF) <<< (56 - 8 * i)) 0

/-- What a manufacturer's key makes of a message. -/
def checkManufactureCode (fix hop : BitVec 32) (manufactureCode : SubGhzKey) :
    Option SubGhzBlockGeneric :=
  let endSerial := fix &&& 0xFF
  let btn := (fix >>> 28).setWidth 8
  let seed : BitVec 32 := 0
  let key := manufactureCode.key
  let check (man : BitVec 64) : Option SubGhzBlockGeneric :=
    checkDecrypt generic (subghzProtocolKeeloqCommonDecrypt hop man) btn endSerial
  match manufactureCode.type with
  | .simple => check key
  | .normal =>
    let man := subghzProtocolKeeloqCommonNormalLearning fix key
    if manufactureCode.name = "Centurion" then
      checkDecryptCenturion generic (subghzProtocolKeeloqCommonDecrypt hop man) btn
    else check man
  | .secure => check (subghzProtocolKeeloqCommonSecureLearning fix seed key)
  | .magicXorType1 => check (subghzProtocolKeeloqCommonMagicXorType1Learning fix key)
  | .magicSerialType1 => check (subghzProtocolKeeloqCommonMagicSerialType1Learning fix key)
  | .magicSerialType2 => check (subghzProtocolKeeloqCommonMagicSerialType2Learning fix key)
  | .magicSerialType3 => check (subghzProtocolKeeloqCommonMagicSerialType3Learning fix key)
  | .unknown =>
    check key <|> check (manRev key) <|>
      check (subghzProtocolKeeloqCommonNormalLearning fix key) <|>
      check (subghzProtocolKeeloqCommonNormalLearning fix (manRev key)) <|>
      check (subghzProtocolKeeloqCommonSecureLearning fix seed key) <|>
      check (subghzProtocolKeeloqCommonSecureLearning fix seed (manRev key)) <|>
      check (subghzProtocolKeeloqCommonMagicXorType1Learning fix key) <|>
      check (subghzProtocolKeeloqCommonMagicXorType1Learning fix (manRev key))
  | .other _ => none

/-- The message and the name of the manufacturer. -/
def checkRemoteControllerSelector (fix hop : BitVec 32) : List SubGhzKey →
    SubGhzBlockGeneric × String
  | [] => ({ generic with cnt := 0 }, "Unknown")
  | manufactureCode :: keystore =>
    match checkManufactureCode generic fix hop manufactureCode with
    | some generic => (generic, manufactureCode.name)
    | none => checkRemoteControllerSelector fix hop keystore

def isAnMotors (keyFix keyHop : BitVec 32) : Bool :=
  keyHop >>> 24 == keyHop >>> 16 &&& 0x00ff && keyFix >>> 28 == keyHop >>> 12 &&& 0x0f &&
    keyHop &&& 0xFFF == 0x404

def isHcs101 (keyFix keyHop : BitVec 32) : Bool :=
  keyHop &&& 0xFFF == 0x000 && keyFix >>> 28 == keyHop >>> 12 &&& 0x0f

/-- The two words of a message. -/
def keyFix : BitVec 32 :=
  (subghzProtocolBlocksReverseKey generic.data generic.dataCountBit >>> 32).setWidth 32

def keyHop : BitVec 32 :=
  (subghzProtocolBlocksReverseKey generic.data generic.dataCountBit &&& 0x00000000ffffffff).setWidth
    32

def checkRemoteController (keystore : List SubGhzKey) : SubGhzBlockGeneric × String :=
  let keyFix := keyFix generic
  let keyHop := keyHop generic
  let checked :=
    if isAnMotors keyFix keyHop then ({ generic with cnt := keyHop >>> 16 }, "AN-Motors")
    else if isHcs101 keyFix keyHop then ({ generic with cnt := keyHop >>> 16 }, "HCS101")
    else checkRemoteControllerSelector generic keyFix keyHop keystore
  ({ checked.1 with
    serial := keyFix &&& 0x0FFFFFFF
    btn := (keyFix >>> 28).setWidth 8 }, checked.2)

end Keeloq

end KiisuFirmware
