import Mathlib.Tactic

/-!
# The joiner of pulses

`pulse_joiner.c`: pulses of either polarity go in, and what comes out are periods that begin with a
high pulse. A `furi_check` that fails ends everything.
-/

namespace KiisuFirmware

def PULSE_MAX_COUNT : ℕ := 6

structure Pulse where
  polarity : Bool
  time : UInt16
  deriving DecidableEq

structure PulseJoiner where
  pulseIndex : ℕ
  pulses : List Pulse
  length_pulses : pulses.length = PULSE_MAX_COUNT

namespace PulseJoiner

def alloc : PulseJoiner where
  pulseIndex := 0
  pulses := List.replicate PULSE_MAX_COUNT ⟨false, 0⟩
  length_pulses := List.length_replicate

variable (joiner : PulseJoiner)

/-- Store a pulse behind the others. -/
def store (pulse : Pulse) : PulseJoiner where
  pulseIndex := joiner.pulseIndex + 1
  pulses := joiner.pulses.set joiner.pulseIndex pulse
  length_pulses := by rw [List.length_set, joiner.length_pulses]

/-- The pulses that are stored. -/
def buffered : List Pulse := joiner.pulses.take joiner.pulseIndex

/-- The loop that counts the edges. -/
def edgesCount : List Pulse → Bool → ℕ → ℕ
  | [], _, edges => edges
  | pulse :: pulses, lastPolarity, edges =>
    if pulse.polarity ≠ lastPolarity then edgesCount pulses pulse.polarity (edges + 1)
    else edgesCount pulses lastPolarity edges

def pushPulse (polarity : Bool) (period pulse : ℕ) : Option (Bool × PulseJoiner) :=
  if joiner.pulseIndex + 1 < PULSE_MAX_COUNT then
    let joiner :=
      if polarity = false ∧ joiner.pulseIndex = 0 then joiner
      else joiner.store ⟨polarity, UInt16.ofNat pulse⟩
    let joiner :=
      if pulse < period then joiner.store ⟨!polarity, UInt16.ofNat (period - pulse)⟩ else joiner
    let result :=
      if 4 ≤ joiner.pulseIndex then
        decide (2 ≤ edgesCount (joiner.buffered.drop 1) ((joiner.pulses.headD ⟨false, 0⟩).polarity) 0)
      else false
    some (result, joiner)
  else none

/-- What the loop of a pop keeps from round to round. -/
structure PopState where
  tmpPeriod : UInt16
  tmpPulse : UInt16
  edgesCount : ℕ
  lastPolarity : Bool
  nextFirstPulse : ℕ
  pulseIndex : ℕ

namespace PopState

/-- An edge is counted. -/
def edge (s : PopState) (polarity : Bool) : PopState :=
  if polarity ≠ s.lastPolarity then
    { s with edgesCount := s.edgesCount + 1, lastPolarity := polarity }
  else s

/-- A pulse is summed up. -/
def sum (s : PopState) (pulse : Pulse) : PopState :=
  { s with
    tmpPeriod := s.tmpPeriod + pulse.time
    tmpPulse := if pulse.polarity then s.tmpPulse + pulse.time else s.tmpPulse
    pulseIndex := (s.pulseIndex + (2 ^ 32 - 1)) % 2 ^ 32 }

end PopState

/-- The loop over the slots, the stale ones too, until there have been two edges. -/
def popLoop : List Pulse → ℕ → PopState → PopState
  | [], _, s => s
  | pulse :: pulses, i, s =>
    let s := s.edge pulse.polarity
    if s.edgesCount = 2 then { s with nextFirstPulse := i }
    else popLoop pulses (i + 1) (s.sum pulse)

/-- The loop that shifts the slots down. -/
def shift (nextFirstPulse : ℕ) : ℕ → ℕ → List Pulse → List Pulse
  | 0, _, pulses => pulses
  | rounds + 1, i, pulses =>
    if nextFirstPulse + i < PULSE_MAX_COUNT then
      shift nextFirstPulse rounds (i + 1)
        (pulses.set i (pulses.getD (nextFirstPulse + i) ⟨false, 0⟩))
    else pulses

theorem length_shift (nextFirstPulse : ℕ) : ∀ (rounds i : ℕ) (pulses : List Pulse),
    (shift nextFirstPulse rounds i pulses).length = pulses.length
  | 0, _, _ => rfl
  | rounds + 1, i, pulses => by
    rw [shift]
    split_ifs
    · rw [length_shift nextFirstPulse rounds, List.length_set]
    · rfl

/-- The counted pulses are removed, and the others shifted. -/
def remove (s : PopState) : PulseJoiner where
  pulseIndex := s.pulseIndex
  pulses := shift s.nextFirstPulse PULSE_MAX_COUNT 0 joiner.pulses
  length_pulses := by rw [length_shift, joiner.length_pulses]

/-- The period and the pulse that are popped. -/
def popPulse : Option ((ℕ × ℕ) × PulseJoiner) :=
  if joiner.pulseIndex ≤ PULSE_MAX_COUNT + 1 then
    let s := popLoop joiner.pulses 0
      { tmpPeriod := 0
        tmpPulse := 0
        edgesCount := 0
        lastPolarity := (joiner.pulses.headD ⟨false, 0⟩).polarity
        nextFirstPulse := 0
        pulseIndex := joiner.pulseIndex }
    some ((s.tmpPeriod.toNat, s.tmpPulse.toNat), joiner.remove s)
  else none

/-! ## Callers -/

/-- A call of `pushPulse`. -/
structure Push where
  polarity : Bool
  period : ℕ
  pulse : ℕ

/-- A push, and a pop if there is something to pop. -/
def feed (s : List (ℕ × ℕ) × PulseJoiner) (push : Push) : Option (List (ℕ × ℕ) × PulseJoiner) := do
  let (result, joiner) ← s.2.pushPulse push.polarity push.period push.pulse
  if result then
    let (popped, joiner) ← joiner.popPulse
    return (s.1 ++ [popped], joiner)
  else return (s.1, joiner)

/-- Pushes to a new joiner, with what is popped. -/
def run (pushes : List Push) : Option (List (ℕ × ℕ) × PulseJoiner) :=
  pushes.foldlM feed ([], alloc)

end PulseJoiner

end KiisuFirmware
