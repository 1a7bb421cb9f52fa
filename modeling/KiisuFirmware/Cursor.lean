import Mathlib.Tactic

/-!
# A sequence with a read-write position

`Cursor α` is the ideal file over any alphabet: what it holds and where its pointer stands, which
is never past the end. Reading moves the pointer over what is there, writing replaces what is
there and runs over the end, truncating drops what is after the pointer.

Both directions of a cache in front of such a file come down to `overwrite`: two writes in a row
are one (`overwrite_append`), and a write inside a pending write is a change of the pending one
(`overwrite_overwrite`).
-/

namespace KiisuFirmware

variable {α : Type*}

/-- `c` with `bs` written over it from index `p` on. -/
def overwrite (c : List α) (p : ℕ) (bs : List α) : List α :=
  c.take p ++ (bs ++ c.drop (p + bs.length))

section Overwrite

variable {c : List α} {p : ℕ}

@[simp] theorem overwrite_nil (c : List α) (p : ℕ) : overwrite c p [] = c := by
  simp [overwrite]

theorem length_overwrite (hp : p ≤ c.length) (bs : List α) :
    (overwrite c p bs).length = max c.length (p + bs.length) := by
  simp only [overwrite, List.length_append, List.length_take, List.length_drop]
  omega

theorem take_overwrite (hp : p ≤ c.length) (bs : List α) :
    (overwrite c p bs).take p = c.take p := by
  rw [overwrite, List.take_left' (by simp [hp])]

theorem drop_overwrite (hp : p ≤ c.length) (bs : List α) :
    (overwrite c p bs).drop p = bs ++ c.drop (p + bs.length) := by
  rw [overwrite, List.drop_left' (by simp [hp])]

theorem drop_overwrite_length (hp : p ≤ c.length) (bs : List α) :
    (overwrite c p bs).drop (p + bs.length) = c.drop (p + bs.length) := by
  rw [← List.drop_drop, drop_overwrite hp, List.drop_left]

theorem take_overwrite_length (hp : p ≤ c.length) (bs : List α) :
    (overwrite c p bs).take (p + bs.length) = c.take p ++ bs := by
  rw [List.take_add, take_overwrite hp, drop_overwrite hp, List.take_left]

theorem overwrite_append (hp : p ≤ c.length) (as bs : List α) :
    overwrite (overwrite c p as) (p + as.length) bs = overwrite c p (as ++ bs) := by
  have hdrop : (overwrite c p as).drop (p + as.length + bs.length)
      = c.drop (p + (as ++ bs).length) := by
    rw [← List.drop_drop, drop_overwrite_length hp, List.drop_drop, List.length_append,
      Nat.add_assoc]
  rw [overwrite, take_overwrite_length hp, hdrop, overwrite]
  simp

/-- A write that starts inside a pending write, or right behind it, changes the pending one. -/
theorem overwrite_overwrite (hp : p ≤ c.length) {as : List α} {q : ℕ} (hq : q ≤ as.length)
    (bs : List α) :
    overwrite (overwrite c p as) (p + q) bs = overwrite c p (overwrite as q bs) := by
  have htake : (overwrite c p as).take (p + q) = c.take p ++ as.take q := by
    rw [List.take_add, take_overwrite hp, drop_overwrite hp, List.take_append_of_le_length hq]
  have hdrop : (overwrite c p as).drop (p + q + bs.length)
      = as.drop (q + bs.length) ++ c.drop (p + max as.length (q + bs.length)) := by
    rw [Nat.add_assoc, ← List.drop_drop, drop_overwrite hp, List.drop_append, List.drop_drop]
    congr 2
    omega
  have hlen : (overwrite as q bs).length = max as.length (q + bs.length) :=
    length_overwrite hq bs
  rw [overwrite, htake, hdrop]
  conv_rhs => rw [overwrite, hlen, overwrite]
  simp

theorem take_drop_overwrite (hp : p ≤ c.length) {as : List α} {q n : ℕ}
    (hn : q + n ≤ as.length) :
    ((overwrite c p as).drop (p + q)).take n = (as.drop q).take n := by
  rw [← List.drop_drop, drop_overwrite hp, List.drop_append_of_le_length (by omega),
    List.take_append_of_le_length (by simp; omega)]

theorem mem_overwrite {a : α} {bs : List α} (h : a ∈ overwrite c p bs) : a ∈ c ∨ a ∈ bs := by
  rw [overwrite, List.mem_append, List.mem_append] at h
  rcases h with h | h | h
  · exact .inl (List.mem_of_mem_take h)
  · exact .inr h
  · exact .inl (List.mem_of_mem_drop h)

theorem overwrite_length (c bs : List α) : overwrite c c.length bs = c ++ bs := by
  simp [overwrite]

end Overwrite

/-- A sequence and a position in it. -/
@[ext] structure Cursor (α : Type*) where
  data : List α
  pos : ℕ
  pos_le : pos ≤ data.length
  deriving DecidableEq

namespace Cursor

variable (f : Cursor α)

/-- The empty file. -/
def empty : Cursor α := ⟨[], 0, le_rfl⟩

/-- The pointer moved to `p`, or to the end if there is no such place. -/
def seek (p : ℕ) : Cursor α := ⟨f.data, min p f.data.length, min_le_right _ _⟩

/-- The next `n` elements, as far as there are. -/
def peek (n : ℕ) : List α := (f.data.drop f.pos).take n

/-- What is after the pointer. -/
def rest : List α := f.data.drop f.pos

/-- The pointer moved over the next `n` elements, as far as there are. -/
def advance (n : ℕ) : Cursor α := f.seek (f.pos + n)

/-- The elements written at the pointer, which moves behind them. -/
def write (bs : List α) : Cursor α :=
  ⟨overwrite f.data f.pos bs, f.pos + bs.length, by rw [length_overwrite f.pos_le]; omega⟩

/-- Everything after the pointer dropped. -/
def truncate : Cursor α := ⟨f.data.take f.pos, f.pos, by simp [f.pos_le]⟩

@[simp] theorem empty_data : (empty : Cursor α).data = [] := rfl
@[simp] theorem empty_pos : (empty : Cursor α).pos = 0 := rfl
@[simp] theorem seek_data (p : ℕ) : (f.seek p).data = f.data := rfl
theorem seek_pos (p : ℕ) : (f.seek p).pos = min p f.data.length := rfl
@[simp] theorem advance_data (n : ℕ) : (f.advance n).data = f.data := rfl
theorem advance_pos (n : ℕ) : (f.advance n).pos = min (f.pos + n) f.data.length := rfl
@[simp] theorem write_data (bs : List α) : (f.write bs).data = overwrite f.data f.pos bs := rfl
@[simp] theorem write_pos (bs : List α) : (f.write bs).pos = f.pos + bs.length := rfl
@[simp] theorem truncate_data : f.truncate.data = f.data.take f.pos := rfl
@[simp] theorem truncate_pos : f.truncate.pos = f.pos := rfl

variable {f}

theorem seek_pos_of_le {p : ℕ} (h : p ≤ f.data.length) : (f.seek p).pos = p := min_eq_left h

theorem peek_eq (n : ℕ) : f.peek n = f.rest.take n := rfl

@[simp] theorem rest_advance (n : ℕ) : (f.advance n).rest = f.rest.drop n := by
  rw [rest, rest, advance_data, advance_pos, List.drop_drop]
  rcases le_total (f.pos + n) f.data.length with h | h
  · rw [min_eq_left h]
  · rw [min_eq_right h, List.drop_of_length_le le_rfl, List.drop_of_length_le h]

theorem length_rest : f.rest.length = f.data.length - f.pos := by simp [rest]

theorem length_peek (n : ℕ) : (f.peek n).length = min n (f.data.length - f.pos) := by
  simp [peek]

theorem advance_pos_peek (n : ℕ) : (f.advance n).pos = f.pos + (f.peek n).length := by
  have := f.pos_le
  rw [advance_pos, length_peek]
  omega

theorem peek_add (m n : ℕ) : f.peek (m + n) = f.peek m ++ (f.advance m).peek n := by
  rw [peek_eq, peek_eq, peek_eq, rest_advance, List.take_add]

theorem length_peek_of_le {n : ℕ} (h : n ≤ f.rest.length) : (f.peek n).length = n := by
  rw [peek_eq, List.length_take, min_eq_left h]

@[simp] theorem peek_zero : f.peek 0 = [] := rfl

@[simp] theorem advance_zero : f.advance 0 = f := by
  have := f.pos_le
  ext1
  · rfl
  · rw [advance_pos]
    omega

theorem peek_of_end (h : f.data.length ≤ f.pos) (n : ℕ) : f.peek n = [] := by
  rw [peek, List.drop_of_length_le h, List.take_nil]

theorem advance_of_end (h : f.data.length ≤ f.pos) (n : ℕ) : f.advance n = f := by
  have := f.pos_le
  ext1
  · rfl
  · rw [advance_pos]
    omega

@[simp] theorem write_nil : f.write [] = f := by
  ext1 <;> simp

theorem write_write (as bs : List α) : (f.write as).write bs = f.write (as ++ bs) := by
  ext1
  · exact overwrite_append f.pos_le as bs
  · simp [Nat.add_assoc]

@[simp] theorem seek_self : f.seek f.pos = f := by
  ext1
  · rfl
  · exact seek_pos_of_le f.pos_le

theorem seek_seek (p q : ℕ) : (f.seek p).seek q = f.seek q := rfl

theorem advance_advance (m n : ℕ) : (f.advance m).advance n = f.advance (m + n) := by
  ext1
  · rfl
  · simp only [advance_pos, advance_data]
    omega

theorem empty_write_peek : empty.write ((f.seek 0).peek f.pos) = f.truncate := by
  have := f.pos_le
  ext1
  · simp [peek, seek_pos, overwrite]
  · simp [length_peek, seek_pos]
    omega

theorem seek_zero_advance : (f.seek 0).advance f.pos = f := by
  have := f.pos_le
  ext1
  · rfl
  · simp [advance_pos, seek_pos, this]

/-- A whole sequence written over another from the start, and what is left of that dropped. -/
theorem truncate_write_all (g : Cursor α) :
    ((f.seek 0).write ((g.seek 0).peek g.data.length)).truncate =
      g.seek g.data.length := by
  ext1
  · simp [peek, seek_pos, overwrite]
  · simp [peek, seek_pos]

theorem write_at_end (h : f.pos = f.data.length) (bs : List α) :
    (f.write bs).data = f.data ++ bs := by
  rw [write_data, h, overwrite_length]

theorem truncate_write (f : Cursor α) (bs : List α) :
    (f.truncate.write bs).data = f.data.take f.pos ++ bs :=
  write_at_end (by simp [f.pos_le]) bs

end Cursor

end KiisuFirmware
