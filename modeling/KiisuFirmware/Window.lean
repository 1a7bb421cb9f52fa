import KiisuFirmware.Proofs.Protocol

/-!
# Windows that bits are shifted through

A window shows the last bits that were pushed into it, the oldest one first. A decoder that looks at
nothing else reads what it finds in the windows on its way.
-/

namespace KiisuFirmware

/-- The bits of a window when one more is pushed into it. -/
def IsWindow {σ : Type} (push : σ → Bool → σ) (bitAt : σ → ℕ → Bool) (size : ℕ) : Prop :=
  ∀ window bit i, i < size →
    bitAt (push window bit) i = if i + 1 < size then bitAt window (i + 1) else bit

section Window

variable {σ : Type} {push : σ → Bool → σ} {bitAt : σ → ℕ → Bool} {size : ℕ}
variable (h : IsWindow push bitAt size)
include h

theorem IsWindow.foldl : ∀ (bits : List Bool) (window : σ) {i : ℕ}, i < size →
    bitAt (bits.foldl push window) i = if bits.length + i < size then bitAt window (bits.length + i)
      else bits.getD (bits.length + i - size) false
  | [], window, i, hi => by
    rw [List.foldl_nil, List.length_nil, Nat.zero_add, if_pos hi]
  | bit :: bits, window, i, hi => by
    rw [List.foldl_cons, IsWindow.foldl bits _ hi, List.length_cons]
    by_cases hin : bits.length + i < size
    · rw [if_pos hin, h _ _ _ hin]
      by_cases hnext : bits.length + i + 1 < size
      · rw [if_pos hnext, if_pos (by omega), show bits.length + 1 + i = bits.length + i + 1 by omega]
      · rw [if_neg hnext, if_neg (by omega), show bits.length + 1 + i - size = 0 by omega]
        rfl
    · rw [if_neg hin, if_neg (by omega),
        show bits.length + 1 + i - size = bits.length + i - size + 1 by omega]
      rfl

/-- A window that so many bits were pushed into, and that had only zeros in it before. -/
theorem IsWindow.foldl_range {window : σ} (hzero : ∀ i < size, bitAt window i = false)
    (next : ℕ → Bool) (count : ℕ) {i : ℕ} (hi : i < size) :
    bitAt (((List.range count).map next).foldl push window) i =
      (decide (size ≤ count + i) && next (count + i - size)) := by
  rw [h.foldl _ _ hi, List.length_map, List.length_range]
  by_cases hin : count + i < size
  · rw [if_pos hin, decide_eq_false (by omega), Bool.false_and, hzero _ hin]
  · rw [if_neg hin, decide_eq_true (by omega), Bool.true_and]
    have hlt : count + i - size < count := by omega
    simp [List.getD, hlt]

end Window

section Decoders

variable {π σ δ : Type} {store : π → Bool → Bool × π} {getData : π → δ} {push : σ → Bool → σ}
  {window : π → σ} {found : σ → Option δ}

theorem window_stateAfter (hwindow : ∀ p bit, window (store p bit).2 = push (window p) bit) :
    ∀ (bits : List Bool) (p : π),
      window (stateAfter store p bits) = bits.foldl push (window p)
  | [], _ => rfl
  | bit :: bits, p => by
    rw [List.foldl_cons, ← hwindow, ← window_stateAfter hwindow bits]
    rfl

end Decoders

end KiisuFirmware
