import KiisuFirmware.BitLib
import KiisuFirmware.Fsk

/-!
# AWID cards

`protocol_awid.c`, but for how a card is sent, what is shown of it and what is written to one.
-/

namespace KiisuFirmware

def AWID_ENCODED_BIT_SIZE : ℕ := 96

structure ProtocolAwid where
  fskDemod : FskDemod
  encodedData : Vector UInt8 13
  data : Vector UInt8 9
  deriving DecidableEq

namespace ProtocolAwid

def alloc : ProtocolAwid where
  fskDemod := .alloc MIN_TIME 6 MAX_TIME 5
  encodedData := Vector.replicate 13 0
  data := Vector.replicate 9 0

/-- Whether there is a card, and the array afterwards. -/
def canBeDecoded (data : Vector UInt8 13) : Bool × Vector UInt8 13 :=
  if data.getD 0 0 != 0b00000001 || data.getD 12 0 != 0b00000001 then (false, data)
  else
    let parityError := bitLibTestParity data 8 88 .odd 4
    if parityError then (false, data)
    else
      let data := (bitLibRemoveBitEveryNth data 8 88 4).1
      let len := bitLibGetBits data 8 8
      if len != 26 && len != 50 && len != 37 && len != 34 && len != 36 then (false, data)
      else (true, data)

def awidDecode (encodedData : Vector UInt8 13) (decodedData : Vector UInt8 9) : Vector UInt8 9 :=
  bitLibCopyBits decodedData 0 66 encodedData 8

variable (protocol : ProtocolAwid)

def decoderStart : ProtocolAwid := { protocol with encodedData := Vector.replicate 13 0 }

/-- The loop over the bits that have ended, up to the first one that ends a card. -/
def storeLoop (value : Bool) : ℕ → ProtocolAwid → Bool × ProtocolAwid
  | 0, protocol => (false, protocol)
  | left + 1, protocol =>
    let (decoded, encodedData) := canBeDecoded (bitLibPushBit protocol.encodedData value)
    let protocol := { protocol with encodedData := encodedData }
    if decoded then (true, { protocol with data := awidDecode encodedData protocol.data })
    else storeLoop value left protocol

def decoderFeed (pulse : LevelDuration) : Bool × ProtocolAwid :=
  let ((value, count), fskDemod) := protocol.fskDemod.feed pulse.level pulse.duration
  storeLoop value count { protocol with fskDemod := fskDemod }

/-- Three bits each and a fourth one, so that an odd number of them is set. -/
def awidEncode (decodedData : Vector UInt8 9) : Vector UInt8 13 :=
  (List.range (88 / 4)).foldl (fun encodedData i =>
    let value := bitLibGetBits decodedData (i * 3) 3 <<< 1
    let value := value ||| (bitLibTestParity32 value.toUInt32 .odd).toUInt8
    bitLibSetBits encodedData (8 + i * 4) value 4)
    (bitLibSetBits (Vector.replicate 13 0) 0 0b00000001 8)

end ProtocolAwid

end KiisuFirmware
