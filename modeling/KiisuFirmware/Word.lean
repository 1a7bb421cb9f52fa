import Mathlib.Tactic

/-!
# The target's integers

`size_t`, `int32_t` and `uint32_t` are 32 bits wide. A value is an integer here, and the place
where the code stores it in a variable of such a type is a `sizeT`, `int32` or `uint32`.
-/

namespace KiisuFirmware

/-- A value stored in a `size_t` or a `uint32_t`. -/
def sizeT (x : ℤ) : ℕ := (x % 2 ^ 32).toNat

/-- A value stored in an `int32_t`. -/
def int32 (x : ℤ) : ℤ := (BitVec.ofInt 32 x).toInt

/-- A natural number stored in a `uint32_t`. -/
def uint32 (n : ℕ) : ℕ := n % 2 ^ 32

theorem int32_eq_bmod (x : ℤ) : int32 x = x.bmod (2 ^ 32) := BitVec.toInt_ofInt x

theorem int32_of_range {x : ℤ} (h : -2 ^ 31 ≤ x) (h' : x < 2 ^ 31) : int32 x = x := by
  rw [int32_eq_bmod]
  exact Int.bmod_eq_of_le (by omega) (by omega)

theorem int32_eq (x : ℤ) :
    int32 x = if x % 2 ^ 32 < 2 ^ 31 then x % 2 ^ 32 else x % 2 ^ 32 - 2 ^ 32 := by
  rw [int32_eq_bmod, Int.bmod_def]
  norm_num

theorem sizeT_of_range {x : ℤ} (h : 0 ≤ x) (h' : x < 2 ^ 32) : sizeT x = x.toNat := by
  unfold sizeT
  rw [Int.emod_eq_of_lt h h']

@[simp] theorem sizeT_natCast {n : ℕ} (h : n < 2 ^ 32) : sizeT n = n := by
  rw [sizeT_of_range (by omega) (by omega), Int.toNat_natCast]

theorem sizeT_lt (x : ℤ) : sizeT x < 2 ^ 32 := by
  rw [sizeT]
  omega

theorem sizeT_sizeT_add (x y : ℤ) : sizeT (sizeT x + y) = sizeT (x + y) := by
  have hmod : ((sizeT x : ℕ) : ℤ) = x % 2 ^ 32 :=
    Int.toNat_of_nonneg (Int.emod_nonneg x (by norm_num))
  rw [hmod, sizeT, sizeT, Int.emod_add_emod]

theorem int32_toInt (x : Int32) : -2 ^ 31 ≤ x.toInt ∧ x.toInt < 2 ^ 31 :=
  ⟨x.le_toInt, x.toInt_lt⟩

end KiisuFirmware
