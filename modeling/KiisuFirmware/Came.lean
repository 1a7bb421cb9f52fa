import KiisuFirmware.SubGhzBlocks

/-!
# CAME

The protocol `came.c`.
-/

namespace KiisuFirmware

def CAME_12_COUNT_BIT : ℕ := 12
def CAME_24_COUNT_BIT : ℕ := 24
def PRASTEL_25_COUNT_BIT : ℕ := 25
def PRASTEL_42_COUNT_BIT : ℕ := 42
def AIRFORCE_COUNT_BIT : ℕ := 18

def CAME_TE_SHORT : ℕ := 320
def CAME_TE_LONG : ℕ := 640
def CAME_TE_DELTA : ℕ := 150
def CAME_MIN_COUNT_BIT_FOR_FOUND : ℕ := 12

/-! ## The encoder -/

structure SubGhzProtocolEncoderCame where
  encoder : SubGhzProtocolBlockEncoder
  generic : SubGhzBlockGeneric
  deriving DecidableEq

namespace SubGhzProtocolEncoderCame

def alloc : SubGhzProtocolEncoderCame where
  encoder := { isRunning := false, repeats := 10, front := 0, sizeUpload := 128, upload := [] }
  generic := { data := 0, serial := 0, dataCountBit := 0, btn := 0, cnt := 0 }

def headerTe (dataCountBit : ℕ) : ℕ :=
  if dataCountBit = CAME_24_COUNT_BIT ∨ dataCountBit = PRASTEL_42_COUNT_BIT then 76
  else if dataCountBit = CAME_12_COUNT_BIT ∨ dataCountBit = AIRFORCE_COUNT_BIT then 47
  else if dataCountBit = PRASTEL_25_COUNT_BIT then 36
  else 16

def bitUpload (bit : Bool) : List LevelDuration :=
  if bit then [⟨false, CAME_TE_LONG⟩, ⟨true, CAME_TE_SHORT⟩]
  else [⟨false, CAME_TE_SHORT⟩, ⟨true, CAME_TE_LONG⟩]

variable (inst : SubGhzProtocolEncoderCame)

def getUpload : Option SubGhzProtocolEncoderCame :=
  let sizeUpload := inst.generic.dataCountBit * 2 + 2
  if inst.encoder.sizeUpload < sizeUpload then none
  else
    let upload := ⟨false, CAME_TE_SHORT * headerTe inst.generic.dataCountBit⟩ ::
      ⟨true, CAME_TE_SHORT⟩ ::
      (keyBits inst.generic.data inst.generic.dataCountBit).flatMap bitUpload
    some { inst with encoder := { inst.encoder with sizeUpload := sizeUpload, upload := upload } }

def deserialize (file : SubGhzKeyFile) :
    Except SubGhzProtocolStatus SubGhzProtocolEncoderCame := do
  let generic ← inst.generic.deserialize file
  if PRASTEL_42_COUNT_BIT < generic.dataCountBit then .error .errorValueBitCount
  else
    let repeats := (file.repeats.map BitVec.toNat).getD inst.encoder.repeats
    let inst := { inst with
      generic := generic
      encoder := { inst.encoder with repeats := repeats } }
    match inst.getUpload with
    | none => .error .errorEncoderGetUpload
    | some inst => .ok { inst with encoder := { inst.encoder with isRunning := true } }

end SubGhzProtocolEncoderCame

/-! ## The decoder -/

inductive CameDecoderStep
  | reset
  | foundStartBit
  | saveDuration
  | checkDuration
  deriving DecidableEq, Repr

structure SubGhzProtocolDecoderCame where
  decoder : SubGhzBlockDecoder CameDecoderStep
  generic : SubGhzBlockGeneric
  deriving DecidableEq

namespace SubGhzProtocolDecoderCame

/-- A level of this duration, within a delta. -/
def Near (duration te : ℕ) : Prop := durationDiff duration te < CAME_TE_DELTA

instance (duration te : ℕ) : Decidable (Near duration te) :=
  inferInstanceAs (Decidable (_ < _))

/-- The bit counts that keys are found with. -/
def countBits : List ℕ :=
  [CAME_MIN_COUNT_BIT_FOR_FOUND, AIRFORCE_COUNT_BIT, PRASTEL_25_COUNT_BIT, PRASTEL_42_COUNT_BIT,
    CAME_24_COUNT_BIT]

variable (inst : SubGhzProtocolDecoderCame)

def setStep (step : CameDecoderStep) : SubGhzProtocolDecoderCame :=
  { inst with decoder := { inst.decoder with parserStep := step } }

def reset : SubGhzProtocolDecoderCame := inst.setStep .reset

def addBit (bit : Bool) : SubGhzProtocolDecoderCame :=
  { inst with decoder := inst.decoder.addBit bit }

/-- Whether a key has been read, and the decoder afterwards. -/
def feed (pulse : LevelDuration) : Bool × SubGhzProtocolDecoderCame :=
  match inst.decoder.parserStep with
  | .reset =>
    if pulse.level = false ∧
        durationDiff pulse.duration (CAME_TE_SHORT * 56) < CAME_TE_DELTA * 63 then
      (false, inst.setStep .foundStartBit)
    else (false, inst)
  | .foundStartBit =>
    if pulse.level = false then (false, inst)
    else if Near pulse.duration CAME_TE_SHORT then
      (false, { inst with decoder := { inst.decoder with
        parserStep := .saveDuration
        decodeData := 0
        decodeCountBit := 0 } })
    else (false, inst.setStep .reset)
  | .saveDuration =>
    if pulse.level = false then
      if CAME_TE_SHORT * 4 ≤ pulse.duration then
        let inst := inst.setStep .foundStartBit
        if inst.decoder.decodeCountBit.toNat ∈ countBits then
          (true, { inst with generic := { inst.generic with
            serial := 0
            btn := 0
            data := inst.decoder.decodeData
            dataCountBit := inst.decoder.decodeCountBit.toNat } })
        else (false, inst)
      else
        (false, { inst with decoder := { inst.decoder with
          teLast := pulse.duration
          parserStep := .checkDuration } })
    else (false, inst.setStep .reset)
  | .checkDuration =>
    if pulse.level then
      if Near inst.decoder.teLast CAME_TE_SHORT ∧ Near pulse.duration CAME_TE_LONG then
        (false, (inst.addBit false).setStep .saveDuration)
      else if Near inst.decoder.teLast CAME_TE_LONG ∧ Near pulse.duration CAME_TE_SHORT then
        (false, (inst.addBit true).setStep .saveDuration)
      else (false, inst.setStep .reset)
    else (false, inst.setStep .reset)

end SubGhzProtocolDecoderCame

def subghzProtocolCame : SubGhzProtocol SubGhzProtocolDecoderCame SubGhzKeyFile where
  reset := SubGhzProtocolDecoderCame.reset
  feed := SubGhzProtocolDecoderCame.feed
  generic := SubGhzProtocolDecoderCame.generic
  serialize inst := inst.generic.serialize
  load file :=
    (SubGhzProtocolEncoderCame.alloc.deserialize file).toOption.map
      SubGhzProtocolEncoderCame.encoder

end KiisuFirmware
