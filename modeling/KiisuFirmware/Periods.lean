import Mathlib.Algebra.BigOperators.Group.Finset.Basic
import Mathlib.Algebra.Order.BigOperators.Group.Finset
import Mathlib.Data.Nat.Notation

/-!
# Periods that follow one another

A count of units falls into one of the periods of given lengths, with so many units of it gone.
Which period this is and how much of it is gone determine the count, and are in its order.
-/

namespace KiisuFirmware

namespace Periods

variable (len : ℕ → ℕ)

/-- The units before a period. -/
def start (n : ℕ) : ℕ := ∑ i ∈ Finset.range n, len i

/-- A count falls into a period, of which so much is gone. -/
structure At (x n r : ℕ) : Prop where
  start_add : start len n + r = x
  lt_len : r < len n

variable {len}

@[simp] theorem start_zero : start len 0 = 0 := rfl

theorem start_succ (n : ℕ) : start len (n + 1) = start len n + len n := Finset.sum_range_succ len n

theorem start_mono {n m : ℕ} (h : n ≤ m) : start len n ≤ start len m :=
  Finset.sum_le_sum_of_subset (Finset.range_mono h)

theorem start_add_len_le {n m : ℕ} (h : n < m) : start len n + len n ≤ start len m := by
  rw [← start_succ]
  exact start_mono h

theorem mul_le_start {shortest : ℕ} (h : ∀ n, shortest ≤ len n) (n : ℕ) :
    n * shortest ≤ start len n := by
  have hsum := Finset.card_nsmul_le_sum (Finset.range n) len shortest fun i _ => h i
  simpa [start] using hsum

theorem start_const (size n : ℕ) : start (fun _ => size) n = n * size := by
  simp [start]

namespace At

variable {x y n m r s : ℕ}

/-- What is earlier is in an earlier period, or in the same one with less of it gone. -/
theorem lt_or (hx : At len x n r) (hy : At len y m s) (h : x < y) :
    n < m ∨ n = m ∧ r < s := by
  have hstart := hx.start_add
  have hstart' := hy.start_add
  have hlt := hy.lt_len
  rcases lt_trichotomy n m with hlt | rfl | hgt
  · exact .inl hlt
  · exact .inr ⟨rfl, by omega⟩
  · have hover := @start_add_len_le len m n hgt
    omega

theorem unique (hx : At len x n r) (hy : At len x m s) : n = m ∧ r = s := by
  have hstart := hx.start_add
  have hstart' := hy.start_add
  rcases lt_trichotomy n m with hlt | rfl | hgt
  · have hover := @start_add_len_le len n m hlt
    have hless := hx.lt_len
    omega
  · exact ⟨rfl, by omega⟩
  · have hover := @start_add_len_le len m n hgt
    have hless := hy.lt_len
    omega

theorem of_mul_add {size : ℕ} (hr : r < size) : At (fun _ => size) (n * size + r) n r where
  start_add := by rw [start_const]
  lt_len := hr

end At

end Periods

end KiisuFirmware
