import KiisuFirmware.Protocol

/-!
# Manchester code on a line

The decoder is `manchester_decoder.c` and the encoder `manchester_encoder.c`. The protocols that use it send two halves for each bit, of
which the line joins those of the same level.
-/

namespace KiisuFirmware

/-! ## The decoder -/

inductive ManchesterEvent
  | shortLow
  | shortHigh
  | longLow
  | longHigh
  | reset
  deriving DecidableEq, Repr

inductive ManchesterState
  | start1
  | mid1
  | mid0
  | start0
  deriving DecidableEq, Repr

def ManchesterEvent.toShift : ManchesterEvent → UInt8
  | .shortLow => 0
  | .shortHigh => 2
  | .longLow => 4
  | .longHigh => 6
  | .reset => 8

def ManchesterState.ofBits (bits : UInt8) : ManchesterState :=
  if bits = 0 then .start1 else if bits = 1 then .mid1 else if bits = 2 then .mid0 else .start0

def transitions : ManchesterState → UInt8
  | .start1 => 0b00000001
  | .mid1 => 0b10010001
  | .mid0 => 0b10011011
  | .start0 => 0b11111011

def manchesterResetState : ManchesterState := .mid1

/-- The next state, and a bit if one has ended. -/
def manchesterAdvance (state : ManchesterState) (event : ManchesterEvent) :
    ManchesterState × Option Bool :=
  if event = .reset then (manchesterResetState, none)
  else
    let newState := ManchesterState.ofBits (transitions state >>> event.toShift &&& 0x3)
    if newState = state then (manchesterResetState, none)
    else (newState, match newState with
      | .mid0 => some false
      | .mid1 => some true
      | _ => none)

/-! ## The encoder -/

inductive ManchesterEncoderResult
  | shortLow
  | longLow
  | longHigh
  | shortHigh
  deriving DecidableEq, Repr

/-- The result of two bits. -/
def ManchesterEncoderResult.ofBits : Bool → Bool → ManchesterEncoderResult
  | false, false => .shortLow
  | false, true => .longLow
  | true, false => .longHigh
  | true, true => .shortHigh

structure ManchesterEncoderState where
  prevBit : Bool
  step : Fin 3
  deriving DecidableEq

/-- A state that nothing has been sent from. -/
def ManchesterEncoderState.unset : ManchesterEncoderState := ⟨false, 0⟩

def manchesterEncoderReset (state : ManchesterEncoderState) : ManchesterEncoderState :=
  { state with step := 0 }

/-- Whether the next bit may come, the next state and the result. -/
def manchesterEncoderAdvance (state : ManchesterEncoderState) (currBit : Bool) :
    Bool × ManchesterEncoderState × ManchesterEncoderResult :=
  match state.step with
  | 0 => (true, ⟨currBit, 1⟩, if currBit then .shortLow else .shortHigh)
  | 1 =>
    if currBit = state.prevBit then
      (false, { state with step := 2 }, .ofBits state.prevBit currBit)
    else (true, { state with prevBit := currBit }, .ofBits state.prevBit currBit)
  | 2 => (true, ⟨currBit, 1⟩, if currBit then .shortLow else .shortHigh)

def manchesterEncoderFinish (state : ManchesterEncoderState) : ManchesterEncoderResult :=
  .ofBits state.prevBit state.prevBit

/-! ## From the one to the other -/

def ManchesterEncoderResult.toEvent : ManchesterEncoderResult → ManchesterEvent
  | .shortLow => .shortLow
  | .longLow => .longLow
  | .longHigh => .longHigh
  | .shortHigh => .shortHigh

/-- What the encoder gives for these bits. A bit that it does not advance past is given to it
again. -/
def manchesterEncoded : ManchesterEncoderState → List Bool → List ManchesterEncoderResult
  | state, [] => [manchesterEncoderFinish state]
  | state, bit :: bits =>
    match manchesterEncoderAdvance state bit with
    | (true, state, result) => result :: manchesterEncoded state bits
    | (false, state, result) =>
      let (_, state, result') := manchesterEncoderAdvance state bit
      result :: result' :: manchesterEncoded state bits

/-- The events of these bits, from an encoder that was just reset. -/
def manchesterEvents (state : ManchesterEncoderState) (bits : List Bool) : List ManchesterEvent :=
  (manchesterEncoded (manchesterEncoderReset state) bits).map ManchesterEncoderResult.toEvent

/-! ## Protocols -/

/-- Between which times a level is a short one, and between which a long one. -/
structure ReadTimes where
  shortTimeLow : ℕ
  shortTimeHigh : ℕ
  longTimeLow : ℕ
  longTimeHigh : ℕ

def ReadTimes.event (times : ReadTimes) (pulse : LevelDuration) : ManchesterEvent :=
  if times.shortTimeLow < pulse.duration ∧ pulse.duration < times.shortTimeHigh then
    if !pulse.level then .shortHigh else .shortLow
  else if times.longTimeLow < pulse.duration ∧ pulse.duration < times.longTimeHigh then
    if !pulse.level then .longHigh else .longLow
  else .reset

/-- What a protocol has a Manchester decoder for: the state of the decoder, and what it does with
the next bit. -/
structure ManchesterProtocol (π : Type) where
  times : π → ReadTimes
  state : π → ManchesterState
  setState : π → ManchesterState → π
  store : π → Bool → Bool × π

def ManchesterProtocol.decoderFeed {π : Type} (protocol : ManchesterProtocol π) (p : π)
    (pulse : LevelDuration) : Bool × π :=
  let event := (protocol.times p).event pulse
  if event ≠ .reset then
    let advanced := manchesterAdvance (protocol.state p) event
    let p := protocol.setState p advanced.1
    match advanced.2 with
    | none => (false, p)
    | some data => protocol.store p data
  else (false, p)

/-- What a protocol sends in Manchester code, and how far it has come. -/
structure ManchesterEncoder (π : Type) where
  bit : π → ℕ → Bool
  duration : π → ℕ
  bitSize : π → ℕ
  index : π → ℕ
  polarity : π → Bool
  setIndex : π → ℕ → Bool → π

def ManchesterEncoder.encoderYield {π : Type} (encoder : ManchesterEncoder π) (p : π) :
    LevelDuration × π :=
  let level := encoder.bit p (encoder.index p)
  if encoder.polarity p then
    (⟨level, encoder.duration p⟩, encoder.setIndex p (encoder.index p) false)
  else (⟨!level, encoder.duration p⟩,
    encoder.setIndex p ((encoder.index p + 1) % encoder.bitSize p) true)

end KiisuFirmware
