import Mathlib.Algebra.Order.Floor.Ring
import Mathlib.Data.Int.Log
import KiisuFirmware.BinRaw

/-!
# Princeton

The protocol `princeton.c`. Floats are the rationals that they stand for.
-/

namespace KiisuFirmware

def PRINCETON_GUARD_TIME_DEFALUT : BitVec 32 := 30

def PRINCETON_TE_SHORT : ℕ := 390
def PRINCETON_TE_LONG : ℕ := 1170
def PRINCETON_TE_DELTA : ℕ := 300
def PRINCETON_MIN_COUNT_BIT_FOR_FOUND : ℕ := 24

/-! ## Floats -/

def roundHalfEven (q : ℚ) : ℤ :=
  if q - ⌊q⌋ < 1 / 2 then ⌊q⌋
  else if 1 / 2 < q - ⌊q⌋ then ⌊q⌋ + 1
  else if ⌊q⌋ % 2 = 0 then ⌊q⌋ else ⌊q⌋ + 1

/-- The float next to a number that is neither too large nor too small for one. -/
def toFloat (q : ℚ) : ℚ :=
  let ulp : ℚ := 2 ^ (Int.log 2 q - 23)
  roundHalfEven (q / ulp) * ulp

/-- A number of at least zero, rounded half away from it. -/
def roundf (q : ℚ) : ℕ := ⌊q + 1 / 2⌋.toNat

/-- By default the guard time is the one that is taken if it is out of its bounds. -/
def princetonGuardTime (guardTime : BitVec 32) : BitVec 32 :=
  if guardTime.toNat < 15 ∨ 72 < guardTime.toNat then PRINCETON_GUARD_TIME_DEFALUT else guardTime

/-- The guard time of a gap of this duration: how many times another one it is long. -/
def guardTimeOf (duration : ℕ) (te : BitVec 32) : BitVec 32 :=
  princetonGuardTime (BitVec.ofNat 32 (roundf (toFloat (toFloat duration / toFloat te.toNat))))

/-- The words of a file under `TE` and `Guard_time` as well. -/
structure PrincetonFile extends SubGhzKeyFile where
  te : Option (BitVec 32)
  guardTime : Option (BitVec 32)
  deriving DecidableEq

/-! ## The encoder -/

structure SubGhzProtocolEncoderPrinceton where
  encoder : SubGhzProtocolBlockEncoder
  generic : SubGhzBlockGeneric
  te : BitVec 32
  guardTime : BitVec 32
  deriving DecidableEq

namespace SubGhzProtocolEncoderPrinceton

def alloc : SubGhzProtocolEncoderPrinceton where
  encoder := { isRunning := false, repeats := 10, front := 0, sizeUpload := 52, upload := [] }
  generic := { data := 0, serial := 0, dataCountBit := 0, btn := 0, cnt := 0 }
  te := 0
  guardTime := 0

variable (inst : SubGhzProtocolEncoderPrinceton)

def bitUpload (bit : Bool) : List LevelDuration :=
  if bit then
    [levelDurationMake true (inst.te * 3).toNat, levelDurationMake false inst.te.toNat]
  else [levelDurationMake true inst.te.toNat, levelDurationMake false (inst.te * 3).toNat]

def getUpload : Option SubGhzProtocolEncoderPrinceton :=
  let sizeUpload := inst.generic.dataCountBit * 2 + 2
  if inst.encoder.sizeUpload < sizeUpload then none
  else
    let upload := (keyBits inst.generic.data inst.generic.dataCountBit).flatMap inst.bitUpload ++
      [levelDurationMake true inst.te.toNat,
        levelDurationMake false (inst.te * inst.guardTime).toNat]
    some { inst with encoder := { inst.encoder with sizeUpload := sizeUpload, upload := upload } }

def deserialize (file : PrincetonFile) :
    Except SubGhzProtocolStatus SubGhzProtocolEncoderPrinceton := do
  let generic ← inst.generic.deserializeCheckCountBit file.toSubGhzKeyFile
    PRINCETON_MIN_COUNT_BIT_FOR_FOUND
  match file.te with
  | none => .error .errorParserTe
  | some te =>
    let guardTime := match file.guardTime with
      | none => PRINCETON_GUARD_TIME_DEFALUT
      | some guardTime => princetonGuardTime guardTime
    let repeats := (file.repeats.map BitVec.toNat).getD inst.encoder.repeats
    let inst := { inst with
      generic := generic
      te := te
      guardTime := guardTime
      encoder := { inst.encoder with repeats := repeats } }
    match inst.getUpload with
    | none => .error .errorEncoderGetUpload
    | some inst => .ok { inst with encoder := { inst.encoder with isRunning := true } }

end SubGhzProtocolEncoderPrinceton

/-! ## The decoder -/

inductive PrincetonDecoderStep
  | reset
  | saveDuration
  | checkDuration
  deriving DecidableEq, Repr

structure SubGhzProtocolDecoderPrinceton where
  decoder : SubGhzBlockDecoder PrincetonDecoderStep
  generic : SubGhzBlockGeneric
  te : BitVec 32
  lastData : BitVec 32
  guardTime : BitVec 32
  deriving DecidableEq

namespace SubGhzProtocolDecoderPrinceton

/-- A level of this duration, within so many deltas. -/
def Near (duration te deltas : ℕ) : Prop := durationDiff duration te < PRINCETON_TE_DELTA * deltas

instance (duration te deltas : ℕ) : Decidable (Near duration te deltas) :=
  inferInstanceAs (Decidable (_ < _))

variable (inst : SubGhzProtocolDecoderPrinceton)

def setStep (step : PrincetonDecoderStep) : SubGhzProtocolDecoderPrinceton :=
  { inst with decoder := { inst.decoder with parserStep := step } }

def reset : SubGhzProtocolDecoderPrinceton := { inst.setStep .reset with lastData := 0 }

def addBit (bit : Bool) : SubGhzProtocolDecoderPrinceton :=
  { inst with decoder := inst.decoder.addBit bit }

/-- The decoder as the callback is given it, if it is called at the end of a frame. -/
def found (duration : ℕ) : Option SubGhzProtocolDecoderPrinceton :=
  if inst.decoder.decodeCountBit.toNat = PRINCETON_MIN_COUNT_BIT_FOR_FOUND ∧
      inst.lastData.setWidth 64 = inst.decoder.decodeData ∧ inst.lastData ≠ 0 then
    let te := inst.te / BitVec.ofNat 32 (inst.decoder.decodeCountBit.toNat * 4 + 1)
    some { inst with
      te := te
      generic := { inst.generic with
        data := inst.decoder.decodeData
        dataCountBit := inst.decoder.decodeCountBit.toNat }
      guardTime := guardTimeOf duration te }
  else none

/-- The decoder at the start of the next frame. -/
def nextFrame : SubGhzProtocolDecoderPrinceton :=
  let inst :=
    if inst.decoder.decodeCountBit.toNat = PRINCETON_MIN_COUNT_BIT_FOR_FOUND then
      { inst with lastData := inst.decoder.decodeData.setWidth 32 }
    else inst
  { inst with
    te := 0
    decoder := { inst.decoder with decodeData := 0, decodeCountBit := 0 } }

/-- Whether a key has been read, and the decoder afterwards. -/
def feed (pulse : LevelDuration) : Bool × SubGhzProtocolDecoderPrinceton :=
  match inst.decoder.parserStep with
  | .reset =>
    if pulse.level = false ∧ Near pulse.duration (PRINCETON_TE_SHORT * 36) 36 then
      (false, { inst with
        te := 0
        guardTime := PRINCETON_GUARD_TIME_DEFALUT
        decoder := { inst.decoder with
          parserStep := .saveDuration
          decodeData := 0
          decodeCountBit := 0 } })
    else (false, inst)
  | .saveDuration =>
    if pulse.level then
      (false, { inst with
        te := inst.te + BitVec.ofNat 32 pulse.duration
        decoder := { inst.decoder with
          teLast := pulse.duration
          parserStep := .checkDuration } })
    else (false, inst)
  | .checkDuration =>
    if pulse.level = false then
      if PRINCETON_TE_LONG * 2 ≤ pulse.duration then
        let inst := inst.setStep .saveDuration
        ((inst.found pulse.duration).isSome, ((inst.found pulse.duration).getD inst).nextFrame)
      else
        let inst := { inst with te := inst.te + BitVec.ofNat 32 pulse.duration }
        if Near inst.decoder.teLast PRINCETON_TE_SHORT 1 ∧
            Near pulse.duration PRINCETON_TE_LONG 3 then
          (false, (inst.addBit false).setStep .saveDuration)
        else if Near inst.decoder.teLast PRINCETON_TE_LONG 3 ∧
            Near pulse.duration PRINCETON_TE_SHORT 1 then
          (false, (inst.addBit true).setStep .saveDuration)
        else (false, inst.setStep .reset)
    else (false, inst.setStep .reset)

/-- The decoder as the callback is given it, if this level makes it call it. -/
def report (pulse : LevelDuration) : Option SubGhzProtocolDecoderPrinceton :=
  if inst.decoder.parserStep = .checkDuration ∧ pulse.level = false ∧
      PRINCETON_TE_LONG * 2 ≤ pulse.duration then
    (inst.setStep .saveDuration).found pulse.duration
  else none

def serialize : PrincetonFile :=
  { inst.generic.serialize with te := some inst.te, guardTime := some inst.guardTime }

end SubGhzProtocolDecoderPrinceton

def subghzProtocolPrinceton : SubGhzProtocol SubGhzProtocolDecoderPrinceton PrincetonFile where
  reset := SubGhzProtocolDecoderPrinceton.reset
  feed := SubGhzProtocolDecoderPrinceton.feed
  generic := SubGhzProtocolDecoderPrinceton.generic
  serialize := SubGhzProtocolDecoderPrinceton.serialize
  load file :=
    (SubGhzProtocolEncoderPrinceton.alloc.deserialize file).toOption.map
      SubGhzProtocolEncoderPrinceton.encoder

end KiisuFirmware
