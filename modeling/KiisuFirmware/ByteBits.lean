import KiisuFirmware.Cursor

/-!
# The bits of bytes

The bits of a byte, and those of a sequence of bytes, the lowest one of each byte first (`bitAt`).
Bytes are determined by their bits, so what is written over them is found bit by bit.
-/

namespace KiisuFirmware

/-! ## One byte -/

theorem shift_mod {shift : ℕ} (h : shift < 8) : shift.toUInt8.toNat % 8 = shift := by
  rw [Nat.toUInt8_eq, UInt8.toNat_ofNat', Nat.mod_mod_of_dvd shift (by norm_num : 8 ∣ 2 ^ 8),
    Nat.mod_eq_of_lt h]

theorem testBit_shiftLeft (byte : UInt8) {shift : ℕ} (h : shift < 8) (j : ℕ) :
    (byte <<< shift.toUInt8).toNat.testBit j =
      (decide (j < 8) && (decide (shift ≤ j) && byte.toNat.testBit (j - shift))) := by
  rw [UInt8.toNat_shiftLeft, Nat.testBit_mod_two_pow, Nat.testBit_shiftLeft, shift_mod h]

theorem testBit_shiftRight (byte : UInt8) {shift : ℕ} (h : shift < 8) (j : ℕ) :
    (byte >>> shift.toUInt8).toNat.testBit j = byte.toNat.testBit (shift + j) := by
  rw [UInt8.toNat_shiftRight, Nat.testBit_shiftRight, shift_mod h]

theorem testBit_of_le (byte : UInt8) {j : ℕ} (h : 8 ≤ j) : byte.toNat.testBit j = false :=
  Nat.testBit_lt_two_pow (byte.toNat_lt.trans_le (Nat.pow_le_pow_right (by norm_num) h))

theorem lowest_eq (byte : UInt8) : byte &&& 1 = (byte.toNat.testBit 0).toUInt8 := by
  rw [← UInt8.toNat_inj, UInt8.toNat_and, Nat.testBit_zero]
  have hlow : byte.toNat &&& (1 : UInt8).toNat = byte.toNat % 2 := Nat.and_one_is_mod _
  rcases Nat.mod_two_eq_zero_or_one byte.toNat with h | h
  · rw [hlow, h]
    rfl
  · rw [hlow, h]
    rfl

theorem and_one_eq (byte : UInt8) : (byte &&& 1 == 1) = byte.toNat.testBit 0 := by
  rw [lowest_eq]
  rcases byte.toNat.testBit 0 with _ | _ <;> rfl

theorem bit_eq (byte : UInt8) {shift : ℕ} (h : shift < 8) :
    (byte >>> shift.toUInt8 &&& 1 == 1) = byte.toNat.testBit shift := by
  rw [and_one_eq, testBit_shiftRight byte h, Nat.add_zero]

theorem testBit_mask {shift : ℕ} (h : shift < 8) {j : ℕ} (hj : j < 8) :
    ((1 : UInt8) <<< shift.toUInt8).toNat.testBit j = decide (j = shift) := by
  have hall : ∀ shift j : Fin 8, ((1 : UInt8) <<< shift.val.toUInt8).toNat.testBit j.val =
      decide (j.val = shift.val) := by decide
  exact hall ⟨shift, h⟩ ⟨j, hj⟩

theorem testBit_not (byte : UInt8) {j : ℕ} (hj : j < 8) :
    (~~~byte).toNat.testBit j = !byte.toNat.testBit j := by
  have hlt := byte.toNat_lt
  have hsize : UInt8.size - 1 - byte.toNat = 2 ^ 8 - (byte.toNat + 1) := by
    rw [show UInt8.size = 256 from rfl]
    omega
  rw [UInt8.toNat_not, hsize, Nat.testBit_two_pow_sub_succ hlt, decide_eq_true hj, Bool.true_and]

theorem testBit_bool (bit : Bool) (j : ℕ) :
    bit.toUInt8.toNat.testBit j = (decide (j = 0) && bit) := by
  cases bit with
  | false =>
    rw [Bool.and_false]
    exact Nat.zero_testBit j
  | true =>
    rw [Bool.and_true]
    cases j with
    | zero => rfl
    | succ j => exact Nat.testBit_lt_two_pow (by
        show 1 < 2 ^ (j + 1)
        exact Nat.one_lt_two_pow (by omega))

theorem testBit_highest (byte : UInt8) (j : ℕ) :
    (byte >>> 7 &&& 1).toNat.testBit j = (decide (j = 0) && byte.toNat.testBit 7) := by
  have hbit := bit_eq byte (by norm_num : 7 < 8)
  have hbool : byte >>> 7 &&& 1 = (byte >>> 7 &&& 1 == 1).toUInt8 := by
    rw [and_one_eq, lowest_eq]
  rw [hbool, testBit_bool]
  rw [show (7 : UInt8) = Nat.toUInt8 7 from rfl, hbit]

theorem testBit_ofNat_shiftLeft (byte : UInt8) (offset : ℕ) {i : ℕ} (hi : i < 8) :
    (UInt8.ofNat (byte.toNat <<< offset)).toNat.testBit i =
      (decide (offset ≤ i) && byte.toNat.testBit (i - offset)) := by
  rw [UInt8.toNat_ofNat', Nat.testBit_mod_two_pow, Nat.testBit_shiftLeft, decide_eq_true hi,
    Bool.true_and]

theorem testBit_ofNat_shiftRight (byte : UInt8) (offset : ℕ) {i : ℕ} (hi : i < 8) :
    (UInt8.ofNat (byte.toNat >>> offset)).toNat.testBit i = byte.toNat.testBit (offset + i) := by
  rw [UInt8.toNat_ofNat', Nat.testBit_mod_two_pow, Nat.testBit_shiftRight, decide_eq_true hi,
    Bool.true_and]

/-! ## A sequence of bytes -/

def bitAt (bytes : List UInt8) (i : ℕ) : Bool := (bytes.getD (i / 8) 0).toNat.testBit (i % 8)

/-- The first bits. -/
def firstBits (bytes : List UInt8) (count : ℕ) : List Bool := (List.range count).map (bitAt bytes)

section Sequence

variable {bytes : List UInt8}

theorem firstBits_succ (bytes : List UInt8) (count : ℕ) :
    firstBits bytes (count + 1) = firstBits bytes count ++ [bitAt bytes count] := by
  rw [firstBits, List.range_succ, List.map_append]
  rfl

theorem firstBits_congr {bytes' : List UInt8} {count : ℕ}
    (h : ∀ i < count, bitAt bytes i = bitAt bytes' i) : firstBits bytes count = firstBits bytes' count :=
  List.map_congr_left fun i hi => h i (List.mem_range.1 hi)

@[simp] theorem bitAt_replicate (count i : ℕ) : bitAt (List.replicate count 0) i = false := by
  have hzero : (List.replicate count (0 : UInt8)).getD (i / 8) 0 = 0 := by
    by_cases h : i / 8 < count <;> simp [List.getD, h]
  rw [bitAt, hzero]
  exact Nat.zero_testBit _

theorem bitAt_singleton {byte : UInt8} {i : ℕ} (h : i < 8) :
    bitAt [byte] i = byte.toNat.testBit i := by
  rw [bitAt, Nat.div_eq_of_lt h, Nat.mod_eq_of_lt h]
  rfl

theorem bitAt_take {count i : ℕ} (h : i < 8 * count) :
    bitAt (bytes.take count) i = bitAt bytes i := by
  rw [bitAt, bitAt, List.getD_eq_getElem?_getD, List.getD_eq_getElem?_getD,
    List.getElem?_take_of_lt (by omega)]

theorem bitAt_set {index : ℕ} (h : index < bytes.length) (byte : UInt8) (i : ℕ) :
    bitAt (bytes.set index byte) i =
      if i / 8 = index then byte.toNat.testBit (i % 8) else bitAt bytes i := by
  unfold bitAt
  split_ifs with hi
  · subst hi
    simp [List.getD, h]
  · simp [List.getD, List.getElem?_set_ne (Ne.symm hi)]

theorem bitAt_overwrite {offset : ℕ} (h : offset ≤ bytes.length) (piece : List UInt8) (i : ℕ) :
    bitAt (overwrite bytes offset piece) i =
      if 8 * offset ≤ i ∧ i < 8 * (offset + piece.length) then bitAt piece (i - 8 * offset)
      else bitAt bytes i := by
  have hlength : (bytes.take offset).length = offset := by simp [h]
  unfold bitAt overwrite
  rw [List.getD_eq_getElem?_getD, List.getD_eq_getElem?_getD, List.getD_eq_getElem?_getD]
  rcases Nat.lt_or_ge (i / 8) offset with hlow | hlow
  · rw [List.getElem?_append_left (by omega), List.getElem?_take_of_lt hlow, if_neg (by omega)]
  · rw [List.getElem?_append_right (by omega), hlength]
    rcases Nat.lt_or_ge (i / 8) (offset + piece.length) with hmid | hmid
    · rw [List.getElem?_append_left (by omega), if_pos (by omega),
        show (i - 8 * offset) / 8 = i / 8 - offset by omega,
        show (i - 8 * offset) % 8 = i % 8 by omega]
    · rw [List.getElem?_append_right (by omega), List.getElem?_drop, if_neg (by omega),
        show offset + piece.length + (i / 8 - offset - piece.length) = i / 8 by omega]

theorem bitAt_byte (bytes : List UInt8) (index : ℕ) {k : ℕ} (hk : k < 8) :
    bitAt bytes (8 * index + k) = (bytes.getD index 0).toNat.testBit k := by
  rw [bitAt, show (8 * index + k) / 8 = index by omega, show (8 * index + k) % 8 = k by omega]

theorem getElem?_bits {index : ℕ} (h : index < bytes.length) :
    ∃ byte : UInt8, bytes[index]? = some byte ∧
      ∀ i < 8, byte.toNat.testBit i = bitAt bytes (8 * index + i) := by
  refine ⟨bytes[index], List.getElem?_eq_getElem h, fun i hi => ?_⟩
  rw [bitAt, show (8 * index + i) / 8 = index by omega, show (8 * index + i) % 8 = i by omega,
    List.getD_eq_getElem?_getD, List.getElem?_eq_getElem h, Option.getD_some]

theorem getD_eq_of_bitAt {bytes' : List UInt8} {index : ℕ}
    (h : ∀ i < 8, bitAt bytes (8 * index + i) = bitAt bytes' (8 * index + i)) :
    bytes.getD index 0 = bytes'.getD index 0 := by
  refine UInt8.toNat_inj.1 (Nat.eq_of_testBit_eq fun i => ?_)
  rcases Nat.lt_or_ge i 8 with hi | hi
  · have hbit := h i hi
    unfold bitAt at hbit
    rw [show (8 * index + i) / 8 = index by omega, show (8 * index + i) % 8 = i by omega] at hbit
    exact hbit
  · rw [testBit_of_le _ hi, testBit_of_le _ hi]

theorem take_eq_of_bitAt {bytes' : List UInt8} {count : ℕ} (hcount : count ≤ bytes.length)
    (hcount' : count ≤ bytes'.length) (h : ∀ i < 8 * count, bitAt bytes i = bitAt bytes' i) :
    bytes.take count = bytes'.take count := by
  refine List.ext_getElem (by simp [hcount, hcount']) fun index hindex hindex' => ?_
  rw [List.length_take, Nat.min_eq_left hcount] at hindex
  have hbyte := @getD_eq_of_bitAt bytes bytes' index fun i hi => h _ (by omega)
  rw [List.getD_eq_getElem?_getD, List.getD_eq_getElem?_getD, List.getElem?_eq_getElem (by omega),
    List.getElem?_eq_getElem (by omega), Option.getD_some, Option.getD_some] at hbyte
  rw [List.getElem_take, List.getElem_take, hbyte]

end Sequence

end KiisuFirmware
