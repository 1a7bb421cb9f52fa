import KiisuFirmware.Proofs.Manchester

/-!
# Where a Manchester decoder finds the bits

Between two equal bits the line does not tell a half of a bit from the other one, so a decoder may
be half a bit away from what is sent (`Astray`). The first two bits that differ are sent with one
long level, and only in the middle of a bit does the decoder expect one. If it is astray it is
reset there. A reset takes the bit that is sent for a one: after the first zero that a one comes
after the decoder is never astray again.
-/

namespace KiisuFirmware

/-! ## Reading events -/

def ManchesterEvent.isLong : ManchesterEvent → Bool
  | .longLow | .longHigh => true
  | _ => false

/-- The state of the decoder after these events. -/
def ManchesterState.after (state : ManchesterState) (events : List ManchesterEvent) :
    ManchesterState :=
  events.foldl (fun state event => (manchesterAdvance state event).1) state

/-- How often these events reset the decoder. The middle of a one is only ever come to with a bit,
or by a reset. -/
def resets : ManchesterState → List ManchesterEvent → ℕ
  | _, [] => 0
  | state, event :: events =>
    (if manchesterAdvance state event = (manchesterResetState, none) then 1 else 0) +
      resets (manchesterAdvance state event).1 events

/-- The decoder reads these bits, and is not reset. -/
def InStep (state : ManchesterState) (events : List ManchesterEvent) (bits : List Bool) : Prop :=
  bitsOf state events = bits ∧ resets state events = 0

instance (state : ManchesterState) (events : List ManchesterEvent) (bits : List Bool) :
    Decidable (InStep state events bits) :=
  inferInstanceAs (Decidable (_ ∧ _))

/-- The decoder reads these bits, and is not reset, from the first event of a kind on, or from so
many events later on. -/
def InStepFrom (kind : ManchesterEvent → Bool) (later : ℕ) (state : ManchesterState)
    (events : List ManchesterEvent) (bits : List Bool) : Prop :=
  InStep
    (state.after (events.takeWhile (!kind ·) ++ (events.dropWhile (!kind ·)).take later))
    ((events.dropWhile (!kind ·)).drop later) bits

/-- The bits after the first one that the next one differs from. -/
def fromChange : List Bool → List Bool
  | first :: second :: bits =>
    if first ≠ second then second :: bits else fromChange (second :: bits)
  | _ => []

/-- The bits after the first one that comes after a zero. -/
def afterRise : List Bool → List Bool
  | first :: second :: bits =>
    if first = false ∧ second = true then bits else afterRise (second :: bits)
  | _ => []

/-- The first event of a bit leads from here to its middle. -/
def InPhase (state : ManchesterState) : List Bool → Prop
  | [] => True
  | true :: _ => state ≠ .mid0
  | false :: _ => state = .start0

/-- The decoder is half a bit away from the middle of this one. -/
def Astray (bit : Bool) (state : ManchesterState) : Prop :=
  if bit then state = .start0 else state = .start1 ∨ state = .mid1

/-! ## What is sent from the middle of a bit on -/

/-- What is sent of these bits from the middle of this one on. -/
def sentFrom (bit : Bool) (bits : List Bool) : List ManchesterEvent :=
  (manchesterEncoded (manchesterEncoderAdvance .unset bit).2.1 bits).map
    ManchesterEncoderResult.toEvent

/-- The first half of a bit. -/
def firstHalf (bit : Bool) : ManchesterEvent := if bit then .shortLow else .shortHigh

/-- The second half of a bit and the first one of another. -/
def longHalves (bit : Bool) : ManchesterEvent := if bit then .longHigh else .longLow

theorem sentFrom_nil (bit : Bool) : sentFrom bit [] = [firstHalf !bit] := by
  cases bit <;> rfl

theorem sentFrom_same (bit : Bool) (bits : List Bool) :
    sentFrom bit (bit :: bits) = firstHalf (!bit) :: firstHalf bit :: sentFrom bit bits := by
  cases bit <;> rfl

theorem sentFrom_change (bit : Bool) (bits : List Bool) :
    sentFrom bit ((!bit) :: bits) = longHalves bit :: sentFrom (!bit) bits := by
  cases bit <;> rfl

theorem manchesterEvents_nil (state : ManchesterEncoderState) :
    manchesterEvents state [] = [firstHalf !state.prevBit] := by
  rcases state with ⟨_ | _, step⟩ <;> rfl

theorem manchesterEvents_cons (state : ManchesterEncoderState) (bit : Bool) (bits : List Bool) :
    manchesterEvents state (bit :: bits) = firstHalf bit :: sentFrom bit bits := by
  cases bit <;> rfl

@[simp] theorem firstHalf_isLong (bit : Bool) : (firstHalf bit).isLong = false := by
  cases bit <;> rfl

@[simp] theorem longHalves_isLong (bit : Bool) : (longHalves bit).isLong = true := by
  cases bit <;> rfl

theorem firstHalf_ne_longLow (bit : Bool) : firstHalf bit ≠ .longLow := by
  cases bit <;> simp [firstHalf]

/-! ## One event -/

theorem advance_firstHalf_not (bit : Bool) : ∃ state,
    manchesterAdvance (.mid bit) (firstHalf !bit) = (state, none) ∧ state ≠ manchesterResetState ∧
      manchesterAdvance state (firstHalf bit) = (.mid bit, some bit) := by
  cases bit
  · exact ⟨.start0, rfl, by decide, rfl⟩
  · exact ⟨.start1, rfl, by decide, rfl⟩

theorem advance_longHalves (bit : Bool) :
    manchesterAdvance (.mid bit) (longHalves bit) = (.mid !bit, some !bit) := by
  cases bit <;> rfl

theorem Astray.advance {bit : Bool} {state : ManchesterState} (h : Astray bit state) :
    Astray bit
      (manchesterAdvance (manchesterAdvance state (firstHalf !bit)).1 (firstHalf bit)).1 := by
  cases bit
  · rcases h with rfl | rfl
    · exact .inl rfl
    · exact .inl rfl
  · obtain rfl : state = .start0 := h
    exact rfl

theorem Astray.advance_longHalves {bit : Bool} {state : ManchesterState} (h : Astray bit state) :
    manchesterAdvance state (longHalves bit) = (manchesterResetState, none) := by
  cases bit
  · rcases h with rfl | rfl <;> rfl
  · obtain rfl : state = .start0 := h
    rfl

theorem advance_longLow (state : ManchesterState) :
    (manchesterAdvance state .longLow).1 = .mid true := by
  cases state <;> rfl

/-! ## Many events -/

theorem bitsOf_cons {state : ManchesterState} {event : ManchesterEvent}
    {events : List ManchesterEvent} (h : event ≠ .reset) : bitsOf state (event :: events) =
      (manchesterAdvance state event).2.toList ++
        bitsOf (manchesterAdvance state event).1 events := by
  rw [bitsOf, if_neg h]

theorem firstHalf_ne_reset (bit : Bool) : firstHalf bit ≠ .reset := by
  cases bit <;> simp [firstHalf]

theorem longHalves_ne_reset (bit : Bool) : longHalves bit ≠ .reset := by
  cases bit <;> simp [longHalves]

theorem inStep_mid : ∀ (bits : List Bool) (bit : Bool),
    InStep (.mid bit) (sentFrom bit bits) bits
  | [], bit => by
    obtain ⟨state, hstate, hreset, -⟩ := advance_firstHalf_not bit
    rw [sentFrom_nil]
    constructor
    · rw [bitsOf_cons (firstHalf_ne_reset _), hstate]
      rfl
    · rw [resets, hstate, if_neg (by simp [hreset])]
      rfl
  | next :: bits, bit => by
    by_cases hnext : next = bit
    · subst hnext
      obtain ⟨state, hfirst, hreset, hsecond⟩ := advance_firstHalf_not next
      obtain ⟨hbits, hresets⟩ := inStep_mid bits next
      rw [sentFrom_same]
      constructor
      · rw [bitsOf_cons (firstHalf_ne_reset _), hfirst, bitsOf_cons (firstHalf_ne_reset _), hsecond,
          hbits]
        rfl
      · rw [resets, hfirst, resets, hsecond, hresets]
        simp [hreset]
    · obtain rfl : next = !bit := Bool.eq_not.2 hnext
      obtain ⟨hbits, hresets⟩ := inStep_mid bits (!bit)
      rw [sentFrom_change]
      constructor
      · rw [bitsOf_cons (longHalves_ne_reset _), advance_longHalves, hbits]
        rfl
      · rw [resets, advance_longHalves, hresets]
        simp

theorem inPhase_iff (state : ManchesterState) (bit : Bool) (bits : List Bool) :
    InPhase state (bit :: bits) ↔ (manchesterAdvance state (firstHalf bit)).1 = .mid bit := by
  cases bit <;> cases state <;> simp [InPhase, firstHalf, ManchesterState.mid] <;> decide

theorem astray_of_not_inPhase {state : ManchesterState} {bit : Bool} {bits : List Bool}
    (h : ¬InPhase state (bit :: bits)) :
    Astray bit (manchesterAdvance state (firstHalf bit)).1 := by
  cases bit
  · cases state
    · exact .inr rfl
    · exact .inl rfl
    · exact .inr rfl
    · exact absurd rfl h
  · cases state
    · exact absurd (by simp [InPhase]) h
    · exact absurd (by simp [InPhase]) h
    · exact rfl
    · exact absurd (by simp [InPhase]) h

/-! ## From the first event of a kind on -/

section Kind

variable {kind : ManchesterEvent → Bool} {later : ℕ} {state : ManchesterState}
  {event : ManchesterEvent} {events : List ManchesterEvent} {bits : List Bool}

theorem inStepFrom_nil : InStepFrom kind later state [] bits ↔ bits = [] := by
  simp [InStepFrom, InStep, bitsOf, resets, eq_comm]

theorem inStepFrom_cons_of_neg (h : kind event = false) :
    InStepFrom kind later state (event :: events) bits ↔
      InStepFrom kind later (manchesterAdvance state event).1 events bits := by
  simp [InStepFrom, h, ManchesterState.after]

theorem inStepFrom_cons_of_pos (h : kind event = true) :
    InStepFrom kind later state (event :: events) bits ↔
      InStep (state.after ((event :: events).take later)) ((event :: events).drop later) bits := by
  simp [InStepFrom, h]

end Kind

theorem fromChange_same (bit : Bool) (bits : List Bool) :
    fromChange (bit :: bit :: bits) = fromChange (bit :: bits) := by
  simp [fromChange]

theorem fromChange_change (bit : Bool) (bits : List Bool) :
    fromChange (bit :: (!bit) :: bits) = (!bit) :: bits := by
  simp [fromChange]

theorem inStepFrom_long_mid : ∀ (bits : List Bool) (bit : Bool),
    InStepFrom ManchesterEvent.isLong 0 (.mid bit) (sentFrom bit bits) (fromChange (bit :: bits))
  | [], bit => by
    rw [sentFrom_nil, inStepFrom_cons_of_neg (firstHalf_isLong _), inStepFrom_nil]
    rfl
  | next :: bits, bit => by
    by_cases hnext : next = bit
    · subst hnext
      obtain ⟨state, hfirst, -, hsecond⟩ := advance_firstHalf_not next
      rw [sentFrom_same, fromChange_same, inStepFrom_cons_of_neg (firstHalf_isLong _), hfirst,
        inStepFrom_cons_of_neg (firstHalf_isLong _), hsecond]
      exact inStepFrom_long_mid bits next
    · obtain rfl : next = !bit := Bool.eq_not.2 hnext
      have hmid := inStep_mid ((!bit) :: bits) bit
      rw [sentFrom_change] at hmid ⊢
      rw [inStepFrom_cons_of_pos (longHalves_isLong _), fromChange_change]
      exact hmid

theorem not_inStepFrom_long_astray : ∀ (bits : List Bool) {bit : Bool} {state : ManchesterState},
    Astray bit state → ¬(bit :: bits).IsChain (· = ·) →
      ¬InStepFrom ManchesterEvent.isLong 0 state (sentFrom bit bits) (fromChange (bit :: bits))
  | [], bit, state, _, hchain => absurd (.singleton bit) hchain
  | next :: bits, bit, state, hastray, hchain => by
    by_cases hnext : next = bit
    · subst hnext
      rw [sentFrom_same, fromChange_same, inStepFrom_cons_of_neg (firstHalf_isLong _),
        inStepFrom_cons_of_neg (firstHalf_isLong _)]
      refine not_inStepFrom_long_astray bits hastray.advance fun h => hchain ?_
      exact List.isChain_cons_cons.2 ⟨rfl, h⟩
    · obtain rfl : next = !bit := Bool.eq_not.2 hnext
      rw [sentFrom_change, inStepFrom_cons_of_pos (longHalves_isLong _)]
      rintro ⟨-, hresets⟩
      rw [List.drop_zero, List.take_zero] at hresets
      change resets state _ = 0 at hresets
      rw [resets, if_pos hastray.advance_longHalves] at hresets
      omega

theorem inStepFrom_long_chain : ∀ (bits : List Bool) {bit : Bool} {state : ManchesterState},
    (bit :: bits).IsChain (· = ·) →
      InStepFrom ManchesterEvent.isLong 0 state (sentFrom bit bits) (fromChange (bit :: bits))
  | [], bit, state, _ => by
    rw [sentFrom_nil, inStepFrom_cons_of_neg (firstHalf_isLong _), inStepFrom_nil]
    rfl
  | next :: bits, bit, state, hchain => by
    obtain ⟨rfl, hrest⟩ := List.isChain_cons_cons.1 hchain
    rw [sentFrom_same, fromChange_same, inStepFrom_cons_of_neg (firstHalf_isLong _),
      inStepFrom_cons_of_neg (firstHalf_isLong _)]
    exact inStepFrom_long_chain bits hrest

/-- After the first one that comes after a zero the decoder is in the middle of a one, wherever it
was before. -/
theorem inStepFrom_longLow : ∀ (bits : List Bool) (bit : Bool) (state : ManchesterState),
    InStepFrom (· == .longLow) 1 state (sentFrom bit bits) (afterRise (bit :: bits))
  | [], bit, state => by
    have hshort := firstHalf_ne_longLow (!bit)
    rw [sentFrom_nil, inStepFrom_cons_of_neg (by simp [hshort]), inStepFrom_nil]
    rfl
  | next :: bits, bit, state => by
    by_cases hnext : next = bit
    · subst hnext
      have hfirst := firstHalf_ne_longLow (!next)
      have hsecond := firstHalf_ne_longLow next
      rw [sentFrom_same, inStepFrom_cons_of_neg (by simp [hfirst]),
        inStepFrom_cons_of_neg (by simp [hsecond])]
      have hrise : afterRise (next :: next :: bits) = afterRise (next :: bits) := by
        cases next <;> simp [afterRise]
      rw [hrise]
      exact inStepFrom_longLow bits next _
    · obtain rfl : next = !bit := Bool.eq_not.2 hnext
      rw [sentFrom_change]
      cases bit with
      | false =>
        have hstate := advance_longLow state
        rw [inStepFrom_cons_of_pos rfl]
        change InStep (manchesterAdvance state .longLow).1 (sentFrom true bits) bits
        rw [hstate]
        exact inStep_mid bits true
      | true =>
        rw [inStepFrom_cons_of_neg rfl]
        exact inStepFrom_longLow bits false _

/-! ## The first event -/

end KiisuFirmware
