import KiisuFirmware.BitReader
import KiisuFirmware.Proofs.BitLib

/-!
# The readers read the digits

Each of the readers gives the number whose digits are the bits from a position on, and reads no byte
behind the last of them: of an array that ends there it reads the same.
-/

namespace KiisuFirmware

variable {n : ℕ}

namespace BitReader

/-! ## Digits -/

theorem testBit_two_mul_add (value : ℕ) (bit : Bool) (j : ℕ) :
    (2 * value + bit.toNat).testBit j = if j = 0 then bit else value.testBit (j - 1) := by
  cases j with
  | zero => cases bit <;> simp
  | succ j =>
    rw [Nat.testBit_succ, if_neg (Nat.succ_ne_zero j), Nat.add_sub_cancel]
    cases bit <;> congr 1 <;> rw [Bool.toNat] <;> simp only [cond_true, cond_false] <;> omega

theorem number_append (bits : List Bool) (bit : Bool) :
    number (bits ++ [bit]) = 2 * number bits + bit.toNat := by
  rw [number, List.foldl_append]
  rfl

theorem testBit_number (f : ℕ → Bool) (j : ℕ) : ∀ length,
    (number ((List.range length).map f)).testBit j =
      (decide (j < length) && f (length - 1 - j))
  | 0 => by simp [number]
  | length + 1 => by
    rw [List.range_succ, List.map_append, List.map_singleton, number_append, testBit_two_mul_add]
    split
    · rename_i h
      subst h
      simp
    · rename_i h
      rw [testBit_number f _ length]
      by_cases hj : j < length + 1
      · rw [decide_eq_true hj, decide_eq_true (by omega)]
        exact congrArg (true && f ·) (by omega)
      · rw [decide_eq_false hj, decide_eq_false (by omega), Bool.false_and, Bool.false_and]

theorem number_of_part {data : Vector UInt8 n} {position length x : ℕ}
    (h : Part data position length 0 length x) :
    x = number ((List.range length).map fun i => bitLibGetBit data (position + i)) := by
  refine Nat.eq_of_testBit_eq fun j => ?_
  rw [h, testBit_number]
  simp

/-! ## The bytes that are read -/

variable (data : Vector UInt8 n) {position length : ℕ}

theorem getElem?_toList {i : ℕ} (h : i < n) : data.toList[i]? = some (data.getD i 0) := by
  rw [List.getElem?_eq_getElem (by simpa using h), Vector.getElem_toList]
  exact congrArg some (by simp [Vector.getD, Array.getD, h])

theorem getBit_toList (h : position < 8 * n) :
    getBit data.toList position = some (bitLibGetBit data position) := by
  rw [getBit, getElem?_toList data (by omega)]
  rfl

theorem getBits_toList (hpos : 0 < length) (h : position + length ≤ 8 * n) :
    getBits data.toList position length = some (bitLibGetBits data position length) := by
  have hfirst := getElem?_toList data (by omega : position / 8 < n)
  simp only [getBits, bitLibGetBits, hfirst, Option.bind_eq_bind, Option.bind_some]
  split_ifs with hzero hfits
  · rfl
  · rfl
  · rw [getElem?_toList data (by omega)]
    rfl

theorem getBits16_toList (hpos : 0 < length) (h : position + length ≤ 8 * n) :
    getBits16 data.toList position length = some (bitLibGetBits16 data position length) := by
  simp only [getBits16, bitLibGetBits16]
  split_ifs with h8
  · rw [getBits_toList data hpos h]
    rfl
  · rw [getBits_toList data (by norm_num) (by omega), getBits_toList data (by omega) (by omega)]
    rfl

theorem getBits32_toList (hpos : 0 < length) (h : position + length ≤ 8 * n) :
    getBits32 data.toList position length = some (bitLibGetBits32 data position length) := by
  simp only [getBits32, bitLibGetBits32]
  split_ifs with h8 h16 h24
  all_goals
    simp (disch := omega) only [getBits_toList, Option.bind_eq_bind, Option.bind_some]

theorem part_64 {start : ℕ} (h : start + 8 < length) (hle : length ≤ 64) :
    Part data position length (length - (start + 8)) (length - start)
      ((bitLibGetBits data (position + start) 8).toUInt64 <<<
        (length - (start + 8)).toUInt64).toNat := by
  rw [UInt64.toNat_shiftLeft, shift_mod_64 (by omega), UInt8.toNat_toUInt64]
  have hpart := @part_word n data position length start 8 (length - (start + 8)) 64 (by norm_num)
    le_rfl (by omega) (by omega)
  rwa [show 8 + (length - (start + 8)) = length - start by omega] at hpart

theorem part_getBits64 (hpos : 0 < length) (hle : length ≤ 64) (h : position + length ≤ 8 * n) :
    ∃ value, getBits64 data.toList position length = some value ∧
      Part data position length 0 length value.toNat := by
  have hbyte : ∀ start x, start + 8 < length →
      Part data position length (length - start) length x →
      Part data position length (length - (start + 8)) length
        (x ||| ((bitLibGetBits data (position + start) 8).toUInt64 <<<
          (length - (start + 8)).toUInt64).toNat) :=
    fun start x hstart hx => hx.or (part_64 data hstart hle) (by omega) (by omega)
  have hlast : ∀ start x, start < length → length ≤ start + 8 →
      Part data position length (length - start) length x →
      Part data position length 0 length
        (x ||| (bitLibGetBits data (position + start) (length - start)).toUInt64.toNat) := by
    intro start x hstart hend hx
    rw [UInt8.toNat_toUInt64]
    exact hx.or (part_last data position (by omega) (by omega) (by omega)) (by omega) (by omega)
  have hfirst : 8 < length → Part data position length (length - 8) length
      ((bitLibGetBits data position 8).toUInt64 <<< (length - 8).toUInt64).toNat :=
    fun hlong => @part_64 n data position length 0 hlong hle
  unfold getBits64
  split_ifs with h8 h16 h24 h32 h40 h48 h56
  all_goals
    simp (disch := omega) only [getBits_toList, Option.bind_eq_bind, Option.bind_some,
      Option.some.injEq, exists_eq_left', UInt64.toNat_or]
  · rw [UInt8.toNat_toUInt64]
    exact @part_last n data position length 0 length hpos h8 (Nat.zero_add length)
  · exact hlast 8 _ (by omega) h16 (hfirst (by omega))
  · exact hlast 16 _ (by omega) h24 (hbyte 8 _ (by omega) (hfirst (by omega)))
  · exact hlast 24 _ (by omega) h32 (hbyte 16 _ (by omega) (hbyte 8 _ (by omega)
      (hfirst (by omega))))
  · exact hlast 32 _ (by omega) h40 (hbyte 24 _ (by omega) (hbyte 16 _ (by omega)
      (hbyte 8 _ (by omega) (hfirst (by omega)))))
  · exact hlast 40 _ (by omega) h48 (hbyte 32 _ (by omega) (hbyte 24 _ (by omega)
      (hbyte 16 _ (by omega) (hbyte 8 _ (by omega) (hfirst (by omega))))))
  · exact hlast 48 _ (by omega) h56 (hbyte 40 _ (by omega) (hbyte 32 _ (by omega)
      (hbyte 24 _ (by omega) (hbyte 16 _ (by omega) (hbyte 8 _ (by omega)
        (hfirst (by omega)))))))
  · exact hlast 56 _ (by omega) (by omega) (hbyte 48 _ (by omega) (hbyte 40 _ (by omega)
      (hbyte 32 _ (by omega) (hbyte 24 _ (by omega) (hbyte 16 _ (by omega)
        (hbyte 8 _ (by omega) (hfirst (by omega))))))))

/-! ## What is read and from where -/

/-- A reader reads the number with these bits, also when nothing is behind the byte with the last
one. -/
def Reads (read : List UInt8 → ℕ → ℕ → Option ℕ) (data : List UInt8) (position length : ℕ) : Prop :=
  ∃ bits, (List.range length).mapM (fun i => getBit data (position + i)) = some bits ∧
    read data position length = some (number bits) ∧
    read (data.take ((position + length - 1) / 8 + 1)) position length = some (number bits)

theorem mapM_of_forall {ι β : Type} {f : ι → Option β} {g : ι → β} : ∀ {l : List ι},
    (∀ i ∈ l, f i = some (g i)) → l.mapM f = some (l.map g)
  | [], _ => rfl
  | i :: l, h => by
    rw [List.mapM_cons, h i List.mem_cons_self,
      mapM_of_forall fun i hi => h i (List.mem_cons_of_mem _ hi)]
    rfl

theorem getBit_take (data : List UInt8) {position count : ℕ} (h : position / 8 < count) :
    getBit (data.take count) position = getBit data position := by
  rw [getBit, getBit, List.getElem?_take_of_lt h]

theorem reads_of_part {read : List UInt8 → ℕ → ℕ → Option ℕ} {position length : ℕ}
    (hpos : 0 < length) (hread : ∀ {n : ℕ} (data : Vector UInt8 n), position + length ≤ 8 * n →
      ∃ value, read data.toList position length = some value ∧
        Part data position length 0 length value)
    {data : List UInt8} (h : position + length ≤ 8 * data.length) :
    Reads read data position length := by
  have hlist : ∀ bytes : List UInt8, position + length ≤ 8 * bytes.length →
      ∃ f : ℕ → Bool, (∀ i < length, getBit bytes (position + i) = some (f i)) ∧
        read bytes position length = some (number ((List.range length).map f)) := by
    intro bytes hbytes
    obtain ⟨vector, hvector⟩ : ∃ vector : Vector UInt8 bytes.length, vector.toList = bytes :=
      ⟨⟨bytes.toArray, rfl⟩, rfl⟩
    obtain ⟨value, hvalue, hpart⟩ := hread vector hbytes
    rw [hvector] at hvalue
    refine ⟨fun i => bitLibGetBit vector (position + i), fun i hi => ?_, ?_⟩
    · have hbit := @getBit_toList _ vector (position + i) (by omega)
      rwa [hvector] at hbit
    · rw [hvalue, number_of_part hpart]
  obtain ⟨f, hbits, hnumber⟩ := hlist data h
  obtain ⟨f', hbits', hnumber'⟩ := hlist (data.take ((position + length - 1) / 8 + 1))
    (by rw [List.length_take]; omega)
  have hsame : (List.range length).map f' = (List.range length).map f := by
    refine List.map_congr_left fun i hi => ?_
    have hlt := List.mem_range.1 hi
    have hbit := hbits' i hlt
    rw [getBit_take data (by omega), hbits i hlt] at hbit
    exact (Option.some.inj hbit).symm
  rw [hsame] at hnumber'
  exact ⟨_, mapM_of_forall fun i hi => hbits i (List.mem_range.1 hi), hnumber, hnumber'⟩

/-- All of the readers do, up to the length that their result has room for. -/
theorem getBits_reads {data : List UInt8} {position length : ℕ} (hpos : 0 < length)
    (h : position + length ≤ 8 * data.length) :
    (length ≤ 8 → Reads (fun data position length =>
        (getBits data position length).map UInt8.toNat) data position length) ∧
      (length ≤ 16 → Reads (fun data position length =>
        (getBits16 data position length).map UInt16.toNat) data position length) ∧
      (length ≤ 32 → Reads (fun data position length =>
        (getBits32 data position length).map UInt32.toNat) data position length) ∧
      (length ≤ 64 → Reads (fun data position length =>
        (getBits64 data position length).map UInt64.toNat) data position length) := by
  refine ⟨fun hle => reads_of_part hpos (fun data h => ?_) h,
    fun hle => reads_of_part hpos (fun data h => ?_) h,
    fun hle => reads_of_part hpos (fun data h => ?_) h,
    fun hle => reads_of_part hpos (fun data h => ?_) h⟩
  · rw [getBits_toList data hpos h]
    exact ⟨_, rfl, by simpa using part_last data position hpos hle (Nat.zero_add length)⟩
  · rw [getBits16_toList data hpos h]
    exact ⟨_, rfl, part_getBits16 data position hpos hle⟩
  · rw [getBits32_toList data hpos h]
    exact ⟨_, rfl, part_getBits32 data position hpos hle⟩
  · obtain ⟨value, hvalue, hpart⟩ := part_getBits64 data hpos hle h
    rw [hvalue]
    exact ⟨_, rfl, hpart⟩

theorem getBits_reads_three : Reads (fun data position length =>
    (getBits16 data position length).map UInt16.toNat) [0x12, 0x34, 0x56] 3 13 :=
  (getBits_reads (by decide) (by decide)).2.1 (by decide)

end BitReader

end KiisuFirmware
