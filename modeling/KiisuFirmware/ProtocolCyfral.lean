import KiisuFirmware.Protocol

/-!
# Cyfral keys

`protocol_cyfral.c`, but for what is shown of a key. A key sends a start nibble and eight nibbles, each
of which is two bits of its data.
-/

namespace KiisuFirmware

def CYFRAL_PERIOD : ℕ := 125 * CORTEX_INSTRUCTIONS_PER_MICROSECOND
def CYFRAL_0_LOW : ℕ := CYFRAL_PERIOD * 66 / 100
def CYFRAL_0_HI : ℕ := CYFRAL_PERIOD * 33 / 100
def CYFRAL_1_LOW : ℕ := CYFRAL_PERIOD * 33 / 100
def CYFRAL_1_HI : ℕ := CYFRAL_PERIOD * 66 / 100
def CYFRAL_MAX_PERIOD_US : ℕ := 230

inductive CyfralBitState
  | waitFrontHigh
  | waitFrontLow
  deriving DecidableEq

inductive CyfralState
  | waitStartNibble
  | readNibble
  | readStopNibble
  deriving DecidableEq

structure CyfralDecoder where
  state : CyfralState
  bitState : CyfralBitState
  periodTime : ℕ
  nibble : ℕ
  dataValid : Bool
  index : ℕ
  bitIndex : ℕ
  maxPeriod : ℕ
  deriving DecidableEq

structure CyfralEncoder where
  data : ℕ
  index : ℕ
  deriving DecidableEq

structure ProtocolCyfral where
  data : UInt16
  decoder : CyfralDecoder
  encoder : CyfralEncoder
  deriving DecidableEq

namespace CyfralDecoder

/-- A decoder that has just been started. -/
def start : CyfralDecoder where
  state := .waitStartNibble
  bitState := .waitFrontLow
  periodTime := 0
  bitIndex := 0
  index := 0
  nibble := 0
  dataValid := true
  maxPeriod := CYFRAL_MAX_PERIOD_US * CORTEX_INSTRUCTIONS_PER_MICROSECOND

/-- Nothing if the level is not one that can follow, and else the bit that is over with it, if one
is. -/
def processBit (cyfral : CyfralDecoder) (polarity : Bool) (length : ℕ) :
    Option (Option Bool) × CyfralDecoder :=
  match cyfral.bitState with
  | .waitFrontLow =>
    if polarity then
      let periodTime := (cyfral.periodTime + length) % 2 ^ 32
      let cyfral := { cyfral with periodTime, bitState := .waitFrontHigh }
      if periodTime ≤ cyfral.maxPeriod then
        (some (some (if periodTime / 2 > length then false else true)), cyfral)
      else (none, cyfral)
    else (none, cyfral)
  | .waitFrontHigh =>
    if polarity then (none, cyfral)
    else (some none, { cyfral with periodTime := length, bitState := .waitFrontLow })

end CyfralDecoder

namespace ProtocolCyfral

def alloc : ProtocolCyfral where
  data := 0
  decoder := ⟨.waitStartNibble, .waitFrontHigh, 0, 0, false, 0, 0, 0⟩
  encoder := ⟨0, 0⟩

variable (proto : ProtocolCyfral)

def decoderStart : ProtocolCyfral := { proto with decoder := .start, data := 0 }

/-- The two bits that a nibble stands for. -/
def nibbleBits : ℕ → Option UInt16
  | 0b1110 => some 0b11
  | 0b1101 => some 0b10
  | 0b1011 => some 0b01
  | 0b0111 => some 0b00
  | _ => none

/-- What is done with a bit in each state. -/
def takeBit (bitValue : Bool) : Bool × ProtocolCyfral :=
  let cyfral := proto.decoder
  match cyfral.state with
  | .waitStartNibble =>
    let nibble := (2 * cyfral.nibble + bitValue.toNat) % 16
    if nibble = 0b0001 then
      (false, { proto with decoder := { cyfral with nibble := 0, state := .readNibble } })
    else (false, { proto with decoder := { cyfral with nibble } })
  | .readNibble =>
    let nibble := (2 * cyfral.nibble + bitValue.toNat) % 2 ^ 8
    let bitIndex := cyfral.bitIndex + 1
    if bitIndex = 4 then
      let index := cyfral.index + 1
      let state := if index = 8 then .readStopNibble else cyfral.state
      match nibbleBits nibble with
      | some bits =>
        (false, { proto with
          data := (proto.data <<< 2) ||| bits
          decoder := { cyfral with nibble := 0, bitIndex := 0, index, state } })
      | none =>
        (false, { proto with
          decoder := { cyfral with dataValid := false, nibble := 0, bitIndex := 0, index, state } })
    else
      let state := if cyfral.index = 8 then .readStopNibble else cyfral.state
      (false, { proto with decoder := { cyfral with nibble, bitIndex, state } })
  | .readStopNibble =>
    let nibble := (2 * cyfral.nibble + bitValue.toNat) % 16
    let bitIndex := (cyfral.bitIndex + 1) % 2 ^ 8
    let next := { proto with decoder := { cyfral with nibble, bitIndex } }
    if bitIndex < 4 then (false, next)
    else if bitIndex = 4 ∧ nibble = 0b0001 ∧ cyfral.dataValid = true then (true, next)
    else (false, next.decoderStart)

def decoderFeed (pulse : LevelDuration) : Bool × ProtocolCyfral :=
  let (bit, decoder) := proto.decoder.processBit pulse.level pulse.duration
  let proto := { proto with decoder }
  match bit with
  | none => (false, proto.decoderStart)
  | some none => (false, proto)
  | some (some bitValue) => proto.takeBit bitValue

/-- The nibble that two bits are sent as. -/
def encodeBits : ℕ → ℕ
  | 0b11 => 0b0111
  | 0b10 => 0b1011
  | 0b01 => 0b1101
  | _ => 0b1110

def encoderEncode (data : UInt16) : ℕ :=
  (List.range 8).foldl (fun value i => 16 * value + encodeBits (data.toNat / 2 ^ (i * 2) % 4)) 0

def encoderStart : ProtocolCyfral :=
  { proto with encoder := ⟨encoderEncode proto.data, 0⟩ }

/-- Half a bit: it is low first. -/
def halfBit (bitValue clockPolarity : Bool) : LevelDuration :=
  if !clockPolarity then
    if bitValue then ⟨false, CYFRAL_1_LOW⟩ else ⟨false, CYFRAL_0_LOW⟩
  else
    if bitValue then ⟨true, CYFRAL_1_HI⟩ else ⟨true, CYFRAL_0_HI⟩

def encoderYield : LevelDuration × ProtocolCyfral :=
  let index := proto.encoder.index
  let result :=
    if index < 8 then halfBit (decide (6 ≤ index)) (index % 2 = 1)
    else
      let dataStartIndex := (index - 8) % 2 ^ 8
      halfBit (proto.encoder.data.testBit (dataStartIndex / 2)) (dataStartIndex % 2 = 1)
  let index := if index + 1 ≥ 9 * 4 * 2 then 0 else index + 1
  (result, { proto with encoder := { proto.encoder with index } })

def base : ProtocolBase ProtocolCyfral UInt16 where
  alloc := alloc
  getData := data
  setData proto data := { proto with data }
  decoderStart := decoderStart
  decoderFeed := decoderFeed
  encoderStart := encoderStart
  encoderYield := encoderYield

end ProtocolCyfral

end KiisuFirmware
