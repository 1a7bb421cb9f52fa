import KiisuFirmware.Protocol

/-!
# What a decoder has read

Each reading stands at a step of the decoder, and at such a step it is all that the decoder has read.
-/

namespace KiisuFirmware

section Reads

variable {π ι δ : Type} {decoderFeed : π → ι → Bool × π} {getData : π → δ}

/-- The state some inputs lead to. -/
def stateAfter (decoderFeed : π → ι → Bool × π) (p : π) (is : List ι) : π :=
  is.foldl (fun p i => (decoderFeed p i).2) p

theorem mem_reads {d : δ} : ∀ (is : List ι) (p : π), d ∈ reads decoderFeed getData p is ↔
    ∃ before i after, is = before ++ i :: after ∧
      (decoderFeed (stateAfter decoderFeed p before) i).1 = true ∧
      getData (decoderFeed (stateAfter decoderFeed p before) i).2 = d
  | [], p => by simp [reads]
  | i :: is, p => by
    have ih := mem_reads (d := d) is (decoderFeed p i).2
    have hhead : d ∈ reads decoderFeed getData p (i :: is) ↔
        ((decoderFeed p i).1 = true ∧ getData (decoderFeed p i).2 = d) ∨
          d ∈ reads decoderFeed getData (decoderFeed p i).2 is := by
      rw [reads]
      split_ifs with h
      · rw [List.mem_cons, h]
        exact or_congr ⟨fun hd => ⟨rfl, hd.symm⟩, fun hd => hd.2.symm⟩ Iff.rfl
      · exact ⟨.inr, fun hd => hd.resolve_left fun hd => h hd.1⟩
    rw [hhead, ih]
    constructor
    · rintro (⟨hresult, hdata⟩ | ⟨before, j, after, rfl, hresult, hdata⟩)
      · exact ⟨[], i, is, rfl, hresult, hdata⟩
      · exact ⟨i :: before, j, after, rfl, hresult, hdata⟩
    · rintro ⟨before, j, after, heq, hresult, hdata⟩
      cases before with
      | nil =>
        cases heq
        exact .inl ⟨hresult, hdata⟩
      | cons first before =>
        cases heq
        exact .inr ⟨before, j, after, rfl, hresult, hdata⟩

theorem mem_reads_range {d : δ} {next : ℕ → ι} {count : ℕ} {p : π} :
    d ∈ reads decoderFeed getData p ((List.range count).map next) ↔ ∃ t < count,
      (decoderFeed (stateAfter decoderFeed p ((List.range t).map next)) (next t)).1 = true ∧
      getData (decoderFeed (stateAfter decoderFeed p ((List.range t).map next)) (next t)).2 = d := by
  have hsplit : ∀ t < count, (List.range count).map next = (List.range t).map next ++
      next t :: (List.range' (t + 1) (count - (t + 1))).map next := by
    intro t ht
    have hrange : List.range count = List.range t ++ List.range' t (count - t) := by
      have happend := List.range'_append_1 (s := 0) (m := t) (n := count - t)
      rw [Nat.zero_add, show t + (count - t) = count by omega] at happend
      rw [List.range_eq_range', List.range_eq_range', happend]
    rw [hrange, List.map_append, show count - t = (count - (t + 1)) + 1 by omega, List.range'_succ,
      List.map_cons]
  rw [mem_reads]
  constructor
  · rintro ⟨before, i, after, heq, hresult, hdata⟩
    have ht : before.length < count := by
      have hlength := congrArg List.length heq
      rw [List.length_map, List.length_range, List.length_append, List.length_cons] at hlength
      omega
    obtain ⟨hbefore, hrest⟩ := List.append_inj (heq.symm.trans (hsplit _ ht))
      (by rw [List.length_map, List.length_range])
    obtain ⟨hi, -⟩ := List.cons.inj hrest
    refine ⟨before.length, ht, ?_⟩
    rw [← hbefore, ← hi]
    exact ⟨hresult, hdata⟩
  · rintro ⟨t, ht, hresult, hdata⟩
    exact ⟨_, _, _, hsplit t ht, hresult, hdata⟩

end Reads

/-!
## Which levels are over

What an encoder sends is a sequence of levels, of which those that are the same are one. A decoder is
then fed with one level of a sequence after the other.
-/

section Levels

variable {pulse next : LevelDuration} {pulses : List LevelDuration}

theorem joinTo_ne_nil : ∀ (pulse : LevelDuration) (pulses : List LevelDuration),
    joinTo pulse pulses ≠ []
  | pulse, [] => by simp [joinTo]
  | pulse, next :: pulses => by
    rw [joinTo]
    split_ifs
    · exact joinTo_ne_nil _ pulses
    · simp

theorem dropLast_joinTo_same (h : next.level = pulse.level) :
    (joinTo pulse (next :: pulses)).dropLast =
      (joinTo ⟨pulse.level, pulse.duration + next.duration⟩ pulses).dropLast := by
  rw [joinTo, if_pos h]

theorem dropLast_joinTo_ne (h : next.level ≠ pulse.level) :
    (joinTo pulse (next :: pulses)).dropLast = pulse :: (joinTo next pulses).dropLast := by
  rw [joinTo, if_neg h, List.dropLast_cons_of_ne_nil (joinTo_ne_nil next pulses)]

theorem dropLast_joinTo_alternate {pulse : ℕ → LevelDuration}
    (h : ∀ i, (pulse (i + 1)).level ≠ (pulse i).level) : ∀ count i,
    (joinTo (pulse i) ((List.range' (i + 1) count).map pulse)).dropLast =
      (List.range' i count).map pulse
  | 0, i => rfl
  | count + 1, i => by
    rw [List.range'_succ, List.map_cons, dropLast_joinTo_ne (h i),
      dropLast_joinTo_alternate h count (i + 1), List.range'_succ, List.map_cons]

end Levels

section Runs

variable {π ι : Type}

theorem yields_eq_map {encoderYield : π → LevelDuration × π} {pulse : ℕ → LevelDuration}
    {state : ℕ → π} (h : ∀ i, encoderYield (state i) = (pulse i, state (i + 1))) : ∀ count i,
    yields encoderYield count (state i) = (List.range' i count).map pulse
  | 0, i => rfl
  | count + 1, i => by
    rw [yields, h, yields_eq_map h count (i + 1), List.range'_succ, List.map_cons]

theorem stateAfter_range_succ {decoderFeed : π → ι → Bool × π} {next : ℕ → ι} {p : π} (t : ℕ) :
    stateAfter decoderFeed p ((List.range (t + 1)).map next) =
      (decoderFeed (stateAfter decoderFeed p ((List.range t).map next)) (next t)).2 := by
  rw [List.range_succ, List.map_append, stateAfter, List.foldl_append]
  rfl

theorem answers_congr {δ : Type} {decoderFeed : π → ι → Bool × π} {getData : π → δ}
    {R : π → π → Prop} (h : ∀ p q i, R p q → (decoderFeed p i).1 = (decoderFeed q i).1 ∧
      getData (decoderFeed p i).2 = getData (decoderFeed q i).2 ∧
      R (decoderFeed p i).2 (decoderFeed q i).2) :
    ∀ (is : List ι) (p q : π), R p q →
      decoderAnswers decoderFeed getData p is = decoderAnswers decoderFeed getData q is
  | [], p, q, _ => rfl
  | i :: is, p, q, hpq => by
    obtain ⟨hresult, hdata, hnext⟩ := h p q i hpq
    rw [decoderAnswers, decoderAnswers, hresult, hdata, answers_congr h is _ _ hnext]

end Runs

/-- The number that some bits of a stream are, the highest one first. -/
def bitsValue (bit : ℕ → Bool) (position : ℕ) : ℕ → ℕ
  | 0 => 0
  | count + 1 => 2 * bitsValue bit position count + (bit (position + count)).toNat

theorem bitsValue_lt (bit : ℕ → Bool) (position : ℕ) :
    ∀ count, bitsValue bit position count < 2 ^ count
  | 0 => Nat.one_pos
  | count + 1 => by
    have hlt := bitsValue_lt bit position count
    have hbit := Bool.toNat_le (bit (position + count))
    rw [bitsValue, pow_succ]
    omega

end KiisuFirmware
