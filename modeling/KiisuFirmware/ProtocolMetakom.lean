import KiisuFirmware.Protocol

/-!
# Metakom keys

`protocol_metakom.c`, but for what is shown of a key. A key sends a long low level, a start word and
the bits of its data, each of which is high first.
-/

namespace KiisuFirmware

def METAKOM_PERIOD : ℕ := 125 * CORTEX_INSTRUCTIONS_PER_MICROSECOND
def METAKOM_0_LOW : ℕ := METAKOM_PERIOD * 33 / 100
def METAKOM_0_HI : ℕ := METAKOM_PERIOD * 66 / 100
def METAKOM_1_LOW : ℕ := METAKOM_PERIOD * 66 / 100
def METAKOM_1_HI : ℕ := METAKOM_PERIOD * 33 / 100
def METAKOM_PERIOD_SAMPLE_COUNT : ℕ := 10

inductive MetakomState
  | waitPeriodSync
  | waitStartBit
  | waitStartWord
  | readWord
  | readStopWord
  deriving DecidableEq

inductive MetakomBitState
  | waitFrontHigh
  | waitFrontLow
  deriving DecidableEq

structure MetakomDecoder where
  periodTime : ℕ
  lowTimeStorage : ℕ
  periodSampleIndex : ℕ
  periodSampleData : Vector ℕ 10
  tmpData : UInt8
  tmpCounter : UInt8
  keyDataIndex : ℕ
  bitState : MetakomBitState
  state : MetakomState
  deriving DecidableEq

structure ProtocolMetakom where
  data : UInt32
  decoder : MetakomDecoder
  encoderIndex : ℕ
  deriving DecidableEq

namespace MetakomDecoder

/-- A decoder that has just been started. -/
def start : MetakomDecoder where
  periodSampleIndex := 0
  periodTime := 0
  tmpCounter := 0
  tmpData := 0
  periodSampleData := Vector.replicate 10 0
  state := .waitPeriodSync
  bitState := .waitFrontLow
  keyDataIndex := 0
  lowTimeStorage := 0

/-- The times of the low and the high level of a bit, as they are called, if it is over. -/
def processBit (metakom : MetakomDecoder) (polarity : Bool) (time : ℕ) :
    Option (ℕ × ℕ) × MetakomDecoder :=
  match metakom.bitState with
  | .waitFrontLow =>
    if polarity then (none, metakom)
    else (some (time, metakom.lowTimeStorage), { metakom with bitState := .waitFrontHigh })
  | .waitFrontHigh =>
    if polarity then (none, { metakom with lowTimeStorage := time, bitState := .waitFrontLow })
    else (none, metakom)

/-- Another bit, which is told by the level it begins with. -/
def pushBit (metakom : MetakomDecoder) (lowTime : ℕ) : MetakomDecoder :=
  { metakom with
    tmpData := (metakom.tmpData <<< 1) ||| (if lowTime < metakom.periodTime / 2 then 0 else 1)
    tmpCounter := metakom.tmpCounter + 1 }

end MetakomDecoder

namespace ProtocolMetakom

def alloc : ProtocolMetakom where
  data := 0
  decoder := ⟨0, 0, 0, Vector.replicate 10 0, 0, 0, 0, .waitFrontHigh, .waitPeriodSync⟩
  encoderIndex := 0

variable (proto : ProtocolMetakom)

def decoderStart : ProtocolMetakom := { proto with decoder := .start, data := 0 }

def parityCheck (data : UInt8) : Bool :=
  ((List.range 8).filter fun i => data.toNat.testBit i).length % 2 == 0

/-- What is done with a bit in each state. -/
def takeBit (highTime lowTime : ℕ) : Bool × ProtocolMetakom :=
  let metakom := proto.decoder
  match metakom.state with
  | .waitPeriodSync =>
    let periodSampleData := metakom.periodSampleData.setIfInBounds metakom.periodSampleIndex
      ((highTime + lowTime) % 2 ^ 32)
    let periodSampleIndex := metakom.periodSampleIndex + 1
    let metakom := { metakom with periodSampleData, periodSampleIndex }
    if periodSampleIndex = METAKOM_PERIOD_SAMPLE_COUNT then
      let periodTime := periodSampleData.toList.foldl (fun sum sample => (sum + sample) % 2 ^ 32)
        metakom.periodTime / METAKOM_PERIOD_SAMPLE_COUNT
      (false, { proto with decoder := { metakom with periodTime, state := .waitStartBit } })
    else (false, { proto with decoder := metakom })
  | .waitStartBit =>
    let metakom := { metakom with tmpCounter := metakom.tmpCounter + 1 }
    let metakom := if highTime > metakom.periodTime then
      { metakom with tmpCounter := 0, state := .waitStartWord } else metakom
    let next := { proto with decoder := metakom }
    (false, if metakom.tmpCounter > 40 then next.decoderStart else next)
  | .waitStartWord =>
    let metakom := metakom.pushBit lowTime
    let next := { proto with decoder := metakom }
    if metakom.tmpCounter = 3 then
      if metakom.tmpData = 0b010 then
        (false, { proto with decoder :=
          { metakom with tmpCounter := 0, tmpData := 0, state := .readWord } })
      else (false, next.decoderStart)
    else (false, next)
  | .readWord =>
    let metakom := metakom.pushBit lowTime
    let next := { proto with decoder := metakom }
    if metakom.tmpCounter = 8 then
      if parityCheck metakom.tmpData then
        let next := { proto with
          data := (proto.data <<< 8) ||| metakom.tmpData.toUInt32
          decoder := { metakom with
            keyDataIndex := metakom.keyDataIndex + 1, tmpData := 0, tmpCounter := 0 } }
        if next.decoder.keyDataIndex = 4 then
          if highTime > metakom.periodTime then
            (false, { next with decoder := { next.decoder with state := .readStopWord } })
          else (false, next.decoderStart)
        else (false, next)
      else (false, next.decoderStart)
    else (false, next)
  | .readStopWord =>
    let metakom := metakom.pushBit lowTime
    let next := { proto with decoder := metakom }
    if metakom.tmpCounter = 3 then
      if metakom.tmpData = 0b010 then (true, next) else (false, next.decoderStart)
    else (false, next)

def decoderFeed (pulse : LevelDuration) : Bool × ProtocolMetakom :=
  let (bit, decoder) := proto.decoder.processBit pulse.level pulse.duration
  let proto := { proto with decoder }
  match bit with
  | none => (false, proto)
  | some (highTime, lowTime) => proto.takeBit highTime lowTime

def encoderStart : ProtocolMetakom := { proto with encoderIndex := 0 }

/-- Half a bit: it is high first. -/
def halfBit (bitValue clockPolarity : Bool) : LevelDuration :=
  if !clockPolarity then
    if bitValue then ⟨true, METAKOM_1_LOW⟩ else ⟨true, METAKOM_0_LOW⟩
  else
    if bitValue then ⟨false, METAKOM_1_HI⟩ else ⟨false, METAKOM_0_HI⟩

def encoderYield : LevelDuration × ProtocolMetakom :=
  let index := proto.encoderIndex
  let result :=
    if index = 0 then ⟨false, METAKOM_PERIOD⟩
    else if index ≤ 6 then halfBit (index = 3 || index = 4) (index % 2 = 0)
    else
      let dataStartIndex := (index - 7) % 2 ^ 8
      halfBit (proto.data.toNat.testBit (32 - 1 - dataStartIndex / 2)) (dataStartIndex % 2 = 1)
  let encoderIndex := if index + 1 ≥ 1 + 3 * 2 + 32 * 2 then 0 else index + 1
  (result, { proto with encoderIndex })

def base : ProtocolBase ProtocolMetakom UInt32 where
  alloc := alloc
  getData := data
  setData proto data := { proto with data }
  decoderStart := decoderStart
  decoderFeed := decoderFeed
  encoderStart := encoderStart
  encoderYield := encoderYield

end ProtocolMetakom

end KiisuFirmware
