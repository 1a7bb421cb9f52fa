import KiisuFirmware.BitLib
import KiisuFirmware.Manchester

/-!
# Securakey cards

`protocol_securakey.c`, but for what is shown of a card and written to one.
-/

namespace KiisuFirmware

def SECURAKEY_RKKT_ENCODED_FULL_SIZE_BITS : ℕ := 96

def SECURAKEY_RKKTH_ENCODED_FULL_SIZE_BITS : ℕ := 64

def LFRFID_FREQUENCY : ℕ := 125000

def SECURAKEY_CLOCK_PER_BIT : ℕ := 40

def SECURAKEY_READ_LONG_TIME : ℕ := 1000000 / (LFRFID_FREQUENCY / SECURAKEY_CLOCK_PER_BIT)

def SECURAKEY_READ_SHORT_TIME : ℕ := SECURAKEY_READ_LONG_TIME / 2

def SECURAKEY_READ_JITTER_TIME : ℕ := SECURAKEY_READ_SHORT_TIME * 40 / 100

structure ProtocolSecurakey where
  data : Vector UInt8 6
  rkktEncodedData : Vector UInt8 12
  rkkthEncodedData : Vector UInt8 8
  encodedDataIndex : ℕ
  encodedPolarity : Bool
  decoderManchesterState : ManchesterState
  bitFormat : UInt8
  deriving DecidableEq

namespace ProtocolSecurakey

def alloc : ProtocolSecurakey where
  data := Vector.replicate 6 0
  rkktEncodedData := Vector.replicate 12 0
  rkkthEncodedData := Vector.replicate 8 0
  encodedDataIndex := 0
  encodedPolarity := false
  decoderManchesterState := .start1
  bitFormat := 0

variable (protocol : ProtocolSecurakey)

/-! ## Decoding -/

/-- The protocol with the format it has found, if it has found one. -/
def canBeDecoded : Option ProtocolSecurakey :=
  let preamble := bitLibGetBits32 protocol.rkktEncodedData 0 19
  if preamble = 0b0111111111000000000 then
    if bitLibTestParity protocol.rkktEncodedData 2 54 .always0 9 then
      some { protocol with bitFormat := 0 }
    else none
  else if preamble = 0b0111111111001011010 then
    if bitLibTestParity protocol.rkktEncodedData 2 90 .always0 9 then
      some { protocol with bitFormat := 26 }
    else none
  else if preamble = 0b0111111111001100000 then
    if bitLibTestParity protocol.rkktEncodedData 2 90 .always0 9 then
      some { protocol with bitFormat := 32 }
    else none
  else none

def decodeRkkth : ProtocolSecurakey :=
  let encoded := protocol.rkktEncodedData
  let data := Vector.replicate 6 0
  let data := bitLibCopyBits data 16 8 encoded 29
  let data := bitLibCopyBits data 24 8 encoded 38
  let data := bitLibCopyBits data 32 8 encoded 47
  let data := bitLibCopyBits data 40 8 encoded 56
  { protocol with data := data, bitFormat := 0 }

/-- The facility number, which is longer in the longer format. -/
def decodeFacility : ProtocolSecurakey :=
  let encoded := protocol.rkktEncodedData
  let data := Vector.replicate 6 0
  if bitLibGetBits encoded 13 6 = 26 then
    let data := bitLibCopyBits data 8 1 encoded 36
    let data := bitLibCopyBits data 9 7 encoded 38
    { protocol with data := data, bitFormat := 26 }
  else if bitLibGetBits encoded 13 6 = 32 then
    let data := bitLibCopyBits data 2 7 encoded 30
    let data := bitLibCopyBits data 9 7 encoded 38
    { protocol with data := data, bitFormat := 32 }
  else { protocol with data := data }

def decode : ProtocolSecurakey :=
  let encoded := protocol.rkktEncodedData
  if bitLibGetBits encoded 13 6 = 0 then protocol.decodeRkkth
  else
    let protocol := protocol.decodeFacility
    let data := bitLibCopyBits protocol.data 16 1 encoded 45
    let data := bitLibCopyBits data 17 8 encoded 47
    let data := bitLibCopyBits data 25 7 encoded 56
    let data := bitLibCopyBits data 32 8 encoded 65
    let data := bitLibCopyBits data 40 8 encoded 74
    { protocol with data := data }

def decoderStart : ProtocolSecurakey :=
  { protocol with
    rkktEncodedData := Vector.replicate 12 0
    decoderManchesterState := (manchesterAdvance protocol.decoderManchesterState .reset).1 }

def readTimes : ReadTimes where
  shortTimeLow := SECURAKEY_READ_SHORT_TIME - SECURAKEY_READ_JITTER_TIME
  shortTimeHigh := SECURAKEY_READ_SHORT_TIME + SECURAKEY_READ_JITTER_TIME
  longTimeLow := SECURAKEY_READ_LONG_TIME - SECURAKEY_READ_JITTER_TIME
  longTimeHigh := SECURAKEY_READ_LONG_TIME + SECURAKEY_READ_JITTER_TIME

def store (data : Bool) : Bool × ProtocolSecurakey :=
  let protocol :=
    { protocol with rkktEncodedData := bitLibPushBit protocol.rkktEncodedData data }
  match protocol.canBeDecoded with
  | some protocol => (true, protocol.decode)
  | none => (false, protocol)

def decoder : ManchesterProtocol ProtocolSecurakey where
  times _ := readTimes
  state := decoderManchesterState
  setState protocol state := { protocol with decoderManchesterState := state }
  store := store

def decoderFeed : LevelDuration → Bool × ProtocolSecurakey := decoder.decoderFeed protocol

/-! ## Encoding -/

def isRkkth : Bool := bitLibGetBits16 protocol.data 0 16 == 0

def encodeRkkth : Vector UInt8 8 :=
  let encoded := Vector.replicate 8 0
  let encoded := bitLibSetBits encoded 0 0b01111111 8
  let encoded := bitLibSetBits encoded 8 0b110 3
  let encoded := bitLibCopyBits encoded 29 8 protocol.data 16
  let encoded := bitLibCopyBits encoded 38 8 protocol.data 24
  let encoded := bitLibCopyBits encoded 47 8 protocol.data 32
  bitLibCopyBits encoded 56 8 protocol.data 40

def setBitIf (condition : Bool) (encoded : Vector UInt8 12) (position : ℕ) : Vector UInt8 12 :=
  if condition then bitLibSetBit encoded position true else encoded

/-- The number of the format, the parity bits and the facility number. -/
def encodeFacility (encoded : Vector UInt8 12) : UInt8 × Vector UInt8 12 :=
  let data := protocol.data
  if bitLibGetBits data 0 8 = 0 then
    let encoded := bitLibSetBits encoded 13 26 6
    let encoded := setBitIf (!bitLibTestParity data 8 12 .odd 12) encoded 35
    let encoded := setBitIf (bitLibTestParity data 20 12 .odd 12) encoded 63
    let encoded := bitLibCopyBits encoded 36 1 data 8
    (26, bitLibCopyBits encoded 38 7 data 9)
  else
    let encoded := bitLibSetBits encoded 13 32 6
    let encoded := setBitIf (!bitLibTestParity data 2 15 .odd 15) encoded 29
    let encoded := setBitIf (bitLibTestParity data 17 15 .odd 15) encoded 63
    let encoded := bitLibCopyBits encoded 30 7 data 2
    (32, bitLibCopyBits encoded 38 7 data 3)

def encodeRkkt : UInt8 × Vector UInt8 12 :=
  let data := protocol.data
  let encoded := Vector.replicate 12 0
  let encoded := bitLibSetBits encoded 0 0b01111111 8
  let encoded := bitLibSetBits encoded 8 0b11001 5
  let facility := protocol.encodeFacility encoded
  let encoded := bitLibCopyBits facility.2 45 1 data 16
  let encoded := bitLibCopyBits encoded 47 8 data 17
  let encoded := bitLibCopyBits encoded 56 7 data 25
  let encoded := bitLibCopyBits encoded 65 8 data 32
  (facility.1, bitLibCopyBits encoded 74 8 data 40)

def encoderStart : ProtocolSecurakey :=
  let protocol := { protocol with encodedDataIndex := 0, encodedPolarity := true }
  if protocol.isRkkth then
    { protocol with
      rkkthEncodedData := protocol.encodeRkkth
      rkktEncodedData := Vector.replicate 12 0 }
  else
    { protocol with
      rkkthEncodedData := Vector.replicate 8 0
      rkktEncodedData := protocol.encodeRkkt.2
      bitFormat := protocol.encodeRkkt.1 }

def encoder : ManchesterEncoder ProtocolSecurakey where
  bit protocol := if protocol.isRkkth then bitLibGetBit protocol.rkkthEncodedData
    else bitLibGetBit protocol.rkktEncodedData
  duration _ := SECURAKEY_CLOCK_PER_BIT / 2
  bitSize protocol := if protocol.isRkkth then SECURAKEY_RKKTH_ENCODED_FULL_SIZE_BITS
    else SECURAKEY_RKKT_ENCODED_FULL_SIZE_BITS
  index := encodedDataIndex
  polarity := encodedPolarity
  setIndex protocol index polarity :=
    { protocol with encodedDataIndex := index, encodedPolarity := polarity }

def encoderYield : LevelDuration × ProtocolSecurakey := encoder.encoderYield protocol

end ProtocolSecurakey

end KiisuFirmware
