import Mathlib.Tactic

/-!
# Parities of bits
-/

namespace KiisuFirmware

/-- Whether the number of ones is odd. -/
def parityOf (bits : List Bool) : Bool := bits.foldr xor false

theorem parityOf_append (xs ys : List Bool) :
    parityOf (xs ++ ys) = (parityOf xs ^^ parityOf ys) := by
  induction xs with
  | nil => exact (Bool.false_xor _).symm
  | cons x xs ih =>
    show (x ^^ parityOf (xs ++ ys)) = ((x ^^ parityOf xs) ^^ parityOf ys)
    rw [ih, Bool.xor_assoc]

theorem parityOf_reverse (xs : List Bool) : parityOf xs.reverse = parityOf xs := by
  induction xs with
  | nil => rfl
  | cons x xs ih =>
    rw [List.reverse_cons, parityOf_append, ih]
    show (parityOf xs ^^ (x ^^ false)) = (x ^^ parityOf xs)
    rw [Bool.xor_false, Bool.xor_comm]

theorem parityOf_cons_parityOf (xs : List Bool) : parityOf (parityOf xs :: xs) = false :=
  Bool.xor_self _

theorem foldl_xor (f : ℕ → Bool) : ∀ length : ℕ,
    (List.range length).foldl (fun parity i => parity ^^ f i) false =
      parityOf ((List.range length).map f)
  | 0 => rfl
  | length + 1 => by
    rw [List.range_succ, List.foldl_append, foldl_xor f length, List.map_append, parityOf_append]
    exact congrArg _ (Bool.xor_false _).symm

theorem parityOf_none {f : ℕ → Bool} (h : ∀ i, f i = false) (is : List ℕ) :
    parityOf (is.map f) = false := by
  induction is with
  | nil => rfl
  | cons i is ih =>
    show (f i ^^ parityOf (is.map f)) = false
    rw [ih, h, Bool.xor_false]

theorem parityOf_append_not (bits : List Bool) : parityOf (bits ++ [!parityOf bits]) = true := by
  rw [parityOf_append]
  show (parityOf bits ^^ (!parityOf bits ^^ false)) = true
  rw [Bool.xor_false, Bool.xor_not, Bool.xor_self]
  rfl

theorem parityOf_map_xor (f g : ℕ → Bool) (is : List ℕ) :
    parityOf (is.map fun i => f i ^^ g i) = (parityOf (is.map f) ^^ parityOf (is.map g)) := by
  induction is with
  | nil => rfl
  | cons i is ih =>
    show ((f i ^^ g i) ^^ parityOf (is.map fun i => f i ^^ g i)) =
      ((f i ^^ parityOf (is.map f)) ^^ (g i ^^ parityOf (is.map g)))
    rw [ih, Bool.xor_assoc, Bool.xor_assoc, Bool.xor_left_comm (g i)]

end KiisuFirmware
