import Mathlib.Data.List.GetD
import Mathlib.Tactic

/-!
# Memory behind a pointer

The bytes from a pointer on, without an end, and how far they have been accessed. A read or a write
of some bytes accesses the memory up to behind the last of them, one of none does not access it.
-/

namespace KiisuFirmware

@[ext] structure Memory where
  byte : ℕ → UInt8
  /-- The place behind the last byte that was read or written. -/
  touched : ℕ

namespace Memory

variable (memory : Memory)

/-- Memory that nothing has accessed yet. -/
def fresh (byte : ℕ → UInt8) : Memory := ⟨byte, 0⟩

def bytes (place n : ℕ) : List UInt8 := (List.range n).map fun i => memory.byte (place + i)

def touch (place n : ℕ) : Memory :=
  { memory with touched := if n = 0 then memory.touched else max memory.touched (place + n) }

def read (place n : ℕ) : List UInt8 × Memory := (memory.bytes place n, memory.touch place n)

def write (place : ℕ) (data : List UInt8) : Memory :=
  { memory.touch place data.length with
    byte := fun i =>
      if place ≤ i ∧ i < place + data.length then data.getD (i - place) 0 else memory.byte i }

variable {memory} {place n : ℕ} {data : List UInt8}

@[simp] theorem touch_byte : (memory.touch place n).byte = memory.byte := rfl

@[simp] theorem touch_bytes (p k : ℕ) : (memory.touch place n).bytes p k = memory.bytes p k := rfl

@[simp] theorem length_bytes : (memory.bytes place n).length = n := by simp [bytes]

theorem touch_le {bound : ℕ} (h : memory.touched ≤ bound) (hplace : place + n ≤ bound) :
    (memory.touch place n).touched ≤ bound := by
  unfold touch
  dsimp only
  split_ifs
  · exact h
  · exact max_le h hplace

theorem write_touched_le {bound : ℕ} (h : memory.touched ≤ bound)
    (hplace : place + data.length ≤ bound) : (memory.write place data).touched ≤ bound :=
  touch_le h hplace

theorem write_touched_ge (hdata : data ≠ []) :
    place + data.length ≤ (memory.write place data).touched := by
  have hne : data.length ≠ 0 := fun h => hdata (List.length_eq_zero_iff.1 h)
  simp only [write, touch, if_neg hne]
  exact le_max_right _ _

theorem getElem_bytes {i : ℕ} (hi : i < (memory.bytes place n).length) :
    (memory.bytes place n)[i] = memory.byte (place + i) := by simp [bytes]

theorem bytes_add (p m k : ℕ) :
    memory.bytes p (m + k) = memory.bytes p m ++ memory.bytes (p + m) k := by
  simp only [bytes, List.range_add, List.map_append, List.map_map, Function.comp_def,
    Nat.add_assoc]

theorem take_bytes {k : ℕ} (hk : k ≤ n) : (memory.bytes place n).take k = memory.bytes place k := by
  obtain ⟨m, rfl⟩ := Nat.exists_eq_add_of_le hk
  rw [bytes_add]
  exact List.take_left' length_bytes

theorem drop_bytes {k : ℕ} (hk : k ≤ n) :
    (memory.bytes place n).drop k = memory.bytes (place + k) (n - k) := by
  obtain ⟨m, rfl⟩ := Nat.exists_eq_add_of_le hk
  rw [bytes_add, Nat.add_sub_cancel_left]
  exact List.drop_left' length_bytes

theorem write_nil : memory.write place [] = memory := by
  ext i
  · simp only [write, List.length_nil, Nat.add_zero]
    rw [if_neg (by omega)]
  · rfl

theorem bytes_write : (memory.write place data).bytes place data.length = data := by
  refine List.ext_getElem length_bytes fun i hi hi' => ?_
  rw [getElem_bytes hi]
  simp only [write]
  rw [if_pos ⟨Nat.le_add_right _ _, by omega⟩, Nat.add_sub_cancel_left,
    List.getD_eq_getElem _ _ hi']

theorem bytes_write_of_disjoint {p k : ℕ} (h : p + k ≤ place ∨ place + data.length ≤ p) :
    (memory.write place data).bytes p k = memory.bytes p k := by
  refine List.ext_getElem (by simp) fun i hi hi' => ?_
  rw [length_bytes] at hi
  rw [getElem_bytes, getElem_bytes]
  simp only [write]
  rw [if_neg (by omega)]

theorem write_write (as bs : List UInt8) :
    (memory.write place as).write (place + as.length) bs = memory.write place (as ++ bs) := by
  ext i
  · simp only [write, List.length_append]
    by_cases hbs : place + as.length ≤ i ∧ i < place + as.length + bs.length
    · have hall : place ≤ i ∧ i < place + (as.length + bs.length) := by omega
      rw [if_pos hbs, if_pos hall, List.getD_append_right _ _ _ _ (by omega), Nat.sub_sub]
    · rw [if_neg hbs]
      by_cases has : place ≤ i ∧ i < place + as.length
      · rw [if_pos has, if_pos (by omega), List.getD_append _ _ _ _ (by omega)]
      · rw [if_neg has, if_neg (by omega)]
  · simp only [write, touch, List.length_append]
    split_ifs <;> omega

theorem bytes_write_append (p : ℕ) (as bs : List UInt8) (h : memory.bytes p as.length = as) :
    (memory.write (p + as.length) bs).bytes p (as ++ bs).length = as ++ bs := by
  rw [List.length_append, bytes_add, bytes_write, bytes_write_of_disjoint (.inl le_rfl), h]

end Memory

end KiisuFirmware
