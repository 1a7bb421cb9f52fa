import KiisuFirmware.BitLib

/-!
# The U2F token

`u2f.c`, and the counter file of `u2f_data.c`: registration and authentication with keys that are
derived from the application and a nonce, a confirmation by the user that is used up, and a counter
that is kept in memory and in a file. The functions of the crypto library are parameters. What files
and random numbers have to say is part of each request.
-/

namespace KiisuFirmware

abbrev Bytes32 := Vector UInt8 32

/-- The functions of the crypto library. A signature has two numbers. -/
structure U2fCrypto where
  hmac : Bytes32 → List UInt8 → Bytes32
  sha256 : List UInt8 → Bytes32
  computePublicKey : Bytes32 → Vector UInt8 65
  eccSign : Bytes32 → Bytes32 → ℕ → Bytes32 × Bytes32

structure U2fData where
  deviceKey : Bytes32
  certKey : Bytes32
  counter : UInt32
  ready : Bool
  userPresent : Bool
  deriving DecidableEq

namespace U2f

def U2F_CMD_REGISTER : UInt8 := 0x01
def U2F_CMD_AUTHENTICATE : UInt8 := 0x02
def U2F_CMD_VERSION : UInt8 := 0x03
def U2fCheckOnly : UInt8 := 0x07
def U2fEnforce : UInt8 := 0x03
def verStr : List UInt8 := [0x55, 0x32, 0x46, 0x5F, 0x56, 0x32]
def stateNoError : List UInt8 := [0x90, 0x00]
def stateNotSupported : List UInt8 := [0x6D, 0x00]
def stateUserMissing : List UInt8 := [0x69, 0x85]
def stateWrongData : List UInt8 := [0x6A, 0x80]

/-- What is in the counter file, if that can be made out: the counter, as this version or as the one
before it has written it, with its bytes in the other order. -/
inductive CounterFile
  | damaged
  | current (counter : UInt32)
  | old (counter : UInt32)
  deriving DecidableEq

/-- How a write of the counter file ends: it may fail before the file has been opened, or later. -/
inductive Store
  | done
  | untouched
  | damaged
  deriving DecidableEq

def rev (value : UInt32) : UInt32 :=
  (bitLibBytesToNumLe (bitLibNumToBytesLe value.toNat 4).reverse).toUInt32

def dataCntWrite (store : Store) (value : UInt32) (file : CounterFile) : Bool × CounterFile :=
  match store with
  | .done => (true, .current value)
  | .untouched => (false, file)
  | .damaged => (false, .damaged)

/-- The counter, if the file can be read, and the file, which is written again if it is old. -/
def dataCntRead (readable : Bool) (store : Store) (file : CounterFile) :
    Option UInt32 × CounterFile :=
  match readable, file with
  | true, .current counter => (some counter, file)
  | true, .old counter =>
    let (stored, file) := dataCntWrite store (rev counter) file
    (if stored then some (rev counter) else none, file)
  | _, _ => (none, file)

/-- What starting the token finds: the certificate and its key, the device key that is loaded or
made, and how the counter file can be read and written. -/
structure InitEnv where
  certificate : Bool
  certKey : Option Bytes32
  deviceKey : Option Bytes32
  readable : Bool
  rewrite : Store
  reset : Store

def alloc : U2fData := ⟨Vector.replicate 32 0, Vector.replicate 32 0, 0, false, false⟩

/-- The state of the token, which is not ready if something is missing. -/
def init (env : InitEnv) (file : CounterFile) (u2f : U2fData) : U2fData × CounterFile :=
  if !env.certificate then (u2f, file)
  else
    match env.certKey with
    | none => (u2f, file)
    | some certKey =>
      let u2f := { u2f with certKey }
      match env.deviceKey with
      | none => (u2f, file)
      | some deviceKey =>
        let u2f := { u2f with deviceKey }
        match dataCntRead env.readable env.rewrite file with
        | (some counter, file) => ({ u2f with counter, ready := true }, file)
        | (none, file) =>
          let u2f := { u2f with counter := 0 }
          let (stored, file) := dataCntWrite env.reset 0 file
          if stored then ({ u2f with ready := true }, file) else (u2f, file)

def confirmUserPresent (u2f : U2fData) : U2fData := { u2f with userPresent := true }

def setState (u2f : U2fData) : U2fData := { u2f with userPresent := false }

/-- A number without its leading zeros, and with one if it would be negative. The numbers of a
signature are not zero. -/
def derEncodeInt (val : List UInt8) : List UInt8 :=
  let val := val.dropWhile (· == 0)
  let val := if val.headD 0 > 0x7F then 0 :: val else val
  0x02 :: val.length.toUInt8 :: val

def derEncodeSignature (sig : Bytes32 × Bytes32) : List UInt8 :=
  let ints := derEncodeInt sig.1.toList ++ derEncodeInt sig.2.toList
  0x30 :: ints.length.toUInt8 :: ints

/-- What a message finds: whether the files are there, the certificate, the random numbers, and how
the counter can be stored. -/
structure MsgEnv where
  dataCheck : Bool
  cert : List UInt8
  nonce : Bytes32
  random : ℕ
  store : Store

/-- What the token has signed. -/
inductive Signature
  | registration (appId : List UInt8)
  | authentication (p1 : UInt8) (appId handle nonce : List UInt8) (counter : UInt32)
  deriving DecidableEq

/-- An answer, what has been signed for it, and what it leaves. -/
structure Reply where
  bytes : List UInt8
  signed : Option Signature
  u2f : U2fData
  file : CounterFile

def field (buf : List UInt8) (offset length : ℕ) : List UInt8 := (buf.drop offset).take length

def reqP1 (buf : List UInt8) : UInt8 := buf.getD 2 0
def reqChallenge (buf : List UInt8) : List UInt8 := field buf 7 32
def reqAppId (buf : List UInt8) : List UInt8 := field buf 39 32
def reqHandleHash (buf : List UInt8) : List UInt8 := field buf 72 32
def reqHandleNonce (buf : List UInt8) : List UInt8 := field buf 104 32

variable (crypto : U2fCrypto)

/-- The private key that belongs to an application and a nonce. -/
def privateKey (u2f : U2fData) (appId nonce : List UInt8) : Bytes32 :=
  crypto.hmac u2f.deviceKey (appId ++ nonce)

/-- The hash of a key handle. -/
def keyHandle (u2f : U2fData) (priv : Bytes32) (appId : List UInt8) : Bytes32 :=
  crypto.hmac u2f.deviceKey (priv.toList ++ appId)

def register (env : MsgEnv) (u2f : U2fData) (file : CounterFile) (buf : List UInt8) : Reply :=
  if !env.dataCheck then ⟨stateNotSupported, none, { u2f with ready := false }, file⟩
  else if !u2f.userPresent then ⟨stateUserMissing, none, u2f, file⟩
  else
    let u2f := { u2f with userPresent := false }
    let appId := reqAppId buf
    let priv := privateKey crypto u2f appId env.nonce.toList
    let handle := (keyHandle crypto u2f priv appId).toList ++ env.nonce.toList
    let pubKey := (crypto.computePublicKey priv).toList
    let hash := crypto.sha256 ([0] ++ appId ++ reqChallenge buf ++ handle ++ pubKey)
    let signature := derEncodeSignature (crypto.eccSign u2f.certKey hash env.random)
    ⟨[0x05] ++ pubKey ++ [64] ++ handle ++ env.cert ++ signature ++ stateNoError,
      some (.registration appId), u2f, file⟩

/-- The bytes of the counter, the highest one first. -/
def counterBytes (counter : UInt32) : List UInt8 := (bitLibNumToBytesLe counter.toNat 4).reverse

def authenticate (env : MsgEnv) (u2f : U2fData) (file : CounterFile) (buf : List UInt8) : Reply :=
  if !env.dataCheck then ⟨stateNotSupported, none, { u2f with ready := false }, file⟩
  else if !u2f.userPresent && reqP1 buf == U2fEnforce then ⟨stateUserMissing, none, u2f, file⟩
  else
    let flags : UInt8 := if u2f.userPresent then 1 else 0
    let u2f := { u2f with userPresent := false }
    let appId := reqAppId buf
    let counter := u2f.counter + 1
    let hash := crypto.sha256 (appId ++ [flags] ++ counterBytes counter ++ reqChallenge buf)
    let priv := privateKey crypto u2f appId (reqHandleNonce buf)
    if reqHandleHash buf ≠ (keyHandle crypto u2f priv appId).toList then
      ⟨stateWrongData, none, u2f, file⟩
    else if reqP1 buf = U2fCheckOnly then ⟨stateUserMissing, none, u2f, file⟩
    else
      let signature := derEncodeSignature (crypto.eccSign priv hash env.random)
      let (_, file) := dataCntWrite env.store counter file
      ⟨[flags] ++ counterBytes counter ++ signature ++ stateNoError,
        some (.authentication (reqP1 buf) appId (reqHandleHash buf) (reqHandleNonce buf) counter),
        { u2f with counter }, file⟩

/-- The message is in the first bytes of the buffer, as many as `len`. -/
def msgParse (env : MsgEnv) (u2f : U2fData) (file : CounterFile) (buf : List UInt8) (len : ℕ) :
    Reply :=
  if !u2f.ready then ⟨[], none, u2f, file⟩
  else if buf.getD 0 0 ≠ 0x00 ∧ len < 5 then ⟨[], none, u2f, file⟩
  else if buf.getD 1 0 = U2F_CMD_REGISTER then register crypto env u2f file buf
  else if buf.getD 1 0 = U2F_CMD_AUTHENTICATE then authenticate crypto env u2f file buf
  else if buf.getD 1 0 = U2F_CMD_VERSION then ⟨verStr ++ stateNoError, none, u2f, file⟩
  else ⟨stateNotSupported, none, u2f, file⟩

end U2f

end KiisuFirmware
