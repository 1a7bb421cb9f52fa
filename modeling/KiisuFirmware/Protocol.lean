import Mathlib.Tactic

/-!
# Protocols of cards

`protocol.h`: what a protocol of a card that is read from and played to a reader has. The line joins
the levels that are sent, and a decoder is fed with each level and how long it lasts.
-/

namespace KiisuFirmware

/-! ## Levels -/

structure LevelDuration where
  level : Bool
  duration : ℕ
  deriving DecidableEq, Repr

/-- How many microseconds a clock of the carrier lasts. -/
def CLOCK_TIME : ℕ := 8

/-- A level on the line, and those that follow. -/
def joinTo (pulse : LevelDuration) : List LevelDuration → List LevelDuration
  | [] => [pulse]
  | next :: pulses =>
    if next.level = pulse.level then joinTo ⟨pulse.level, pulse.duration + next.duration⟩ pulses
    else pulse :: joinTo next pulses

/-- What there is on a line when these levels are sent, in microseconds. -/
def onLine : List LevelDuration → List LevelDuration
  | [] => []
  | pulse :: pulses =>
    (joinTo pulse pulses).map fun pulse => ⟨pulse.level, pulse.duration * CLOCK_TIME⟩

/-- What an encoder sends. -/
def yields {π : Type} (encoderYield : π → LevelDuration × π) : ℕ → π → List LevelDuration
  | 0, _ => []
  | count + 1, protocol =>
    (encoderYield protocol).1 :: yields encoderYield count (encoderYield protocol).2

/-- What a decoder has read at the end, each time it says so. -/
def reads {π ι δ : Type} (decoderFeed : π → ι → Bool × π) (getData : π → δ) : π → List ι → List δ
  | _, [] => []
  | protocol, i :: is =>
    if (decoderFeed protocol i).1 then
      getData (decoderFeed protocol i).2 :: reads decoderFeed getData (decoderFeed protocol i).2 is
    else reads decoderFeed getData (decoderFeed protocol i).2 is

/-! ## Protocols -/

structure ProtocolBase (π δ : Type) where
  alloc : π
  getData : π → δ
  setData : π → δ → π
  decoderStart : π → π
  decoderFeed : π → LevelDuration → Bool × π
  encoderStart : π → π
  encoderYield : π → LevelDuration × π

variable {π δ : Type} (base : ProtocolBase π δ)

end KiisuFirmware

/-!
## Keys that only have a number

What the protocols of the `misc` group of iButton keys (`protocol_cyfral.c`, `protocol_metakom.c`)
share. Times are in clocks of the processor, and a decoder is fed with a level when it is over.
-/

namespace KiisuFirmware

/-- `furi_hal_cortex_instructions_per_microsecond` -/
def CORTEX_INSTRUCTIONS_PER_MICROSECOND : ℕ := 64

/-- The levels on the line that are over when these are sent; the last one may go on. -/
def levelsOver : List LevelDuration → List LevelDuration
  | [] => []
  | pulse :: pulses => (joinTo pulse pulses).dropLast

/-- What a decoder answers to each level, with the data it has then. -/
def decoderAnswers {π ι δ : Type} (decoderFeed : π → ι → Bool × π) (getData : π → δ) :
    π → List ι → List (Bool × δ)
  | _, [] => []
  | protocol, i :: is =>
    ((decoderFeed protocol i).1, getData (decoderFeed protocol i).2) ::
      decoderAnswers decoderFeed getData (decoderFeed protocol i).2 is

namespace ProtocolBase

variable {π δ : Type} (base : ProtocolBase π δ)

/-- What is read of a key with this data, once so many of its levels were sent. -/
def received (decoding encoding : π) (data : δ) (count : ℕ) : List δ :=
  reads base.decoderFeed base.getData (base.decoderStart decoding)
    (levelsOver (yields base.encoderYield count (base.encoderStart (base.setData encoding data))))

/-- A key is read once so many of its levels were sent, and never as another one. -/
def RoundTrips (decoding encoding : π) (data : δ) (bound : ℕ) : Prop :=
  (∀ count, ∀ reading ∈ base.received decoding encoding data count, reading = data) ∧
    base.received decoding encoding data bound ≠ []

end ProtocolBase

end KiisuFirmware
