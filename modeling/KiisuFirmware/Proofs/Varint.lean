import KiisuFirmware.Varint

/-!
# What was packed is unpacked

The bits of a number are those of its lowest seven and those of the rest, so each byte adds its bits
at its place, and the last one ends the number.
-/

namespace KiisuFirmware

theorem toNat_lt_of_not_le {value : UInt32} (h : ¬0x80 ≤ value) : value.toNat < 128 := by
  by_contra hno
  exact h (UInt32.le_iff_toNat_le.2 (Nat.le_of_not_lt hno))

theorem toNat_shiftRight_seven (value : UInt32) : (value >>> 7).toNat = value.toNat / 128 := by
  rw [UInt32.toNat_shiftRight, Nat.shiftRight_eq_div_pow]
  rfl

theorem length_varintUint32Pack_le : ∀ (n : ℕ) (value : UInt32), value.toNat < 2 ^ (7 * (n + 1)) →
    (varintUint32Pack value).length ≤ n + 1
  | 0, value, h => by
    rw [varintUint32Pack, if_neg]
    · simp
    · intro hle
      have hvalue : 128 ≤ value.toNat := UInt32.le_iff_toNat_le.1 hle
      omega
  | n + 1, value, h => by
    rw [varintUint32Pack]
    split_ifs
    · have hrest := length_varintUint32Pack_le n (value >>> 7) (by
        rw [toNat_shiftRight_seven, Nat.div_lt_iff_lt_mul (by decide)]
        calc value.toNat < 2 ^ (7 * (n + 1 + 1)) := h
          _ = 2 ^ (7 * (n + 1)) * 128 := by rw [Nat.mul_succ, Nat.pow_add])
      rw [List.length_cons]
      omega
    · simp

theorem length_varintUint32Pack (value : UInt32) : (varintUint32Pack value).length ≤ 5 :=
  length_varintUint32Pack_le 4 value (by have := value.toNat_lt; omega)

theorem varintUint32Pack_pos (value : UInt32) : 0 < (varintUint32Pack value).length := by
  rw [varintUint32Pack]
  split_ifs <;> simp

theorem ofNat_shiftLeft_seven (n i : ℕ) : UInt32.ofNat (n <<< (7 * i)) =
    UInt32.ofNat ((n % 128) <<< (7 * i)) ||| UInt32.ofNat ((n / 128) <<< (7 * (i + 1))) := by
  rw [← UInt32.ofNat_or]
  congr 1
  apply Nat.eq_of_testBit_eq
  intro j
  rw [Nat.testBit_or, Nat.testBit_shiftLeft, Nat.testBit_shiftLeft, Nat.testBit_shiftLeft,
    show 128 = 2 ^ 7 from rfl, Nat.testBit_mod_two_pow, Nat.testBit_div_two_pow]
  by_cases h : 7 * (i + 1) ≤ j
  · have hlow : ¬j - 7 * i < 7 := by omega
    have hsum : j - 7 * (i + 1) + 7 = j - 7 * i := by omega
    simp [h, hlow, hsum, show 7 * i ≤ j by omega]
  · by_cases h' : 7 * i ≤ j
    · simp [h, h', show j - 7 * i < 7 by omega]
    · simp [h, h']

theorem varintBits_low {byte : UInt8} {n i : ℕ} (h : (byte &&& 0x7F).toNat = n % 128) :
    varintBits byte i = UInt32.ofNat ((n % 128) <<< (7 * i)) := by
  rw [varintBits, h]

theorem and_low (value : UInt32) : (value.toUInt8 &&& 0x7F).toNat = value.toNat % 128 := by
  rw [UInt8.toNat_and, UInt32.toNat_toUInt8]
  have hmask : (0x7F : UInt8).toNat = 2 ^ 7 - 1 := rfl
  rw [hmask, Nat.and_two_pow_sub_one_eq_mod]
  omega

theorem continued_low (value : UInt32) :
    ((value ||| 0x80).toUInt8 &&& 0x7F).toNat = value.toNat % 128 ∧
      (value ||| 0x80).toUInt8 &&& 0x80 ≠ 0 := by
  have hmask : (0x7F : UInt8).toNat = 2 ^ 7 - 1 := rfl
  have hbyte : (value ||| 0x80).toUInt8.toNat = value.toNat % 2 ^ 8 ||| 2 ^ 7 := by
    rw [UInt32.toUInt8_or, UInt8.toNat_or, UInt32.toNat_toUInt8]
    rfl
  constructor
  · rw [UInt8.toNat_and, hbyte, hmask, Nat.and_two_pow_sub_one_eq_mod, Nat.or_mod_two_pow,
      Nat.mod_self, Nat.or_zero]
    omega
  · intro hzero
    have hbit : ((value ||| 0x80).toUInt8 &&& 0x80).toNat.testBit 7 = true := by
      rw [UInt8.toNat_and, Nat.testBit_and, hbyte, Nat.testBit_or, Nat.testBit_two_pow_self,
        Bool.or_true]
      rfl
    rw [hzero] at hbit
    cases hbit

theorem last_low {value : UInt32} (h : ¬0x80 ≤ value) : value.toUInt8 &&& 0x80 = 0 := by
  have hlt := toNat_lt_of_not_le h
  rw [← UInt8.toNat_inj, UInt8.toNat_and, UInt32.toNat_toUInt8]
  have hmod : value.toNat % 2 ^ 8 = value.toNat := by omega
  rw [hmod]
  apply Nat.eq_of_testBit_eq
  intro j
  rw [Nat.testBit_and]
  by_cases hj : j = 7
  · rw [hj, Nat.testBit_lt_two_pow hlt]
    rfl
  · have hbit : (0x80 : UInt8).toNat.testBit j = false := by
      change (2 ^ 7).testBit j = false
      rw [Nat.testBit_two_pow]
      simp [Ne.symm hj]
    rw [hbit]
    simp

theorem varintUint32UnpackLoop_pack (value parsed : UInt32) (i : ℕ) (rest : List UInt8) :
    varintUint32UnpackLoop parsed i (varintUint32Pack value ++ rest) =
      (parsed ||| UInt32.ofNat (value.toNat <<< (7 * i)),
        i + ((varintUint32Pack value).length - 1)) := by
  induction value using varintUint32Pack.induct generalizing parsed i with
  | case1 value hle ih =>
    obtain ⟨hlow, hmore⟩ := continued_low value
    have hpos := varintUint32Pack_pos (value >>> 7)
    rw [varintUint32Pack, if_pos hle, List.cons_append, varintUint32UnpackLoop]
    rw [if_neg hmore, ih, varintBits_low hlow, toNat_shiftRight_seven, UInt32.or_assoc,
      ← ofNat_shiftLeft_seven, List.length_cons]
    congr 1
    omega
  | case2 value hle =>
    have hlt := toNat_lt_of_not_le hle
    rw [varintUint32Pack, if_neg hle, List.singleton_append, varintUint32UnpackLoop]
    rw [if_pos (last_low hle), varintBits_low (and_low value), Nat.mod_eq_of_lt hlt]
    rfl

theorem varintUint32Unpack_pack (value : UInt32) (rest : List UInt8) :
    varintUint32Unpack (varintUint32Pack value ++ rest) =
      (value, (varintUint32Pack value).length) := by
  have hpos := varintUint32Pack_pos value
  rw [varintUint32Unpack, varintUint32UnpackLoop_pack]
  dsimp only
  rw [Nat.mul_zero, Nat.shiftLeft_zero, UInt32.ofNat_toNat, UInt32.zero_or]
  congr 1
  omega

/-- The bytes of a pair. -/
def packedPair (pair : UInt32 × UInt32) : List UInt8 :=
  varintUint32Pack pair.1 ++ varintUint32Pack pair.2

theorem length_packedPair (pair : UInt32 × UInt32) :
    0 < (packedPair pair).length ∧ (packedPair pair).length ≤ varintPairSize := by
  have h1 := length_varintUint32Pack pair.1
  have h2 := length_varintUint32Pack pair.2
  have hpos := varintUint32Pack_pos pair.1
  rw [packedPair, List.length_append, varintPairSize]
  omega

theorem varintPairUnpack_packed (pair : UInt32 × UInt32) (rest : List UInt8) :
    varintPairUnpack (packedPair pair ++ rest) =
      some (pair.1, pair.2, (packedPair pair).length) := by
  have hpos := varintUint32Pack_pos pair.2
  rw [varintPairUnpack, packedPair, List.append_assoc, varintUint32Unpack_pack]
  dsimp only
  rw [if_neg, List.drop_left, varintUint32Unpack_pack, List.length_append]
  rw [List.length_append, List.length_append]
  omega

theorem length_varintUint32Pack_eq (value : UInt32) :
    (varintUint32Pack value).length = varintUint32Length value := by
  induction value using varintUint32Pack.induct with
  | case1 value hle ih =>
    rw [varintUint32Pack, varintUint32Length, if_pos hle, if_pos hle, List.length_cons, ih]
  | case2 value hle =>
    rw [varintUint32Pack, varintUint32Length, if_neg hle, if_neg hle, List.length_singleton]

/-! ## Signed numbers -/

theorem varintZigZag_nonneg {value : Int32} (h : 0 ≤ value.toInt) :
    (varintZigZag value).toNat = 2 * value.toInt.toNat := by
  have hlt := value.toInt_lt
  have hle : 0 ≤ value := Int32.le_iff_toInt_le.2 h
  rw [varintZigZag, if_pos hle, Int32.toUInt32_mul, UInt32.toNat_mul,
    Int32.toNat_toUInt32_of_le hle, Int32.toNatClampNeg]
  change value.toInt.toNat * 2 % 2 ^ 32 = _
  omega

theorem varintZigZag_neg {value : Int32} (hlow : -2 ^ 30 < value.toInt) (h : value.toInt < 0) :
    (varintZigZag value).toNat = 2 * (-value.toInt).toNat - 1 := by
  have hle : ¬0 ≤ value := fun hle => by
    have hnonneg : 0 ≤ value.toInt := Int32.le_iff_toInt_le.1 hle
    omega
  have hint : (value * -2 - 1).toInt = value.toInt * -2 - 1 := by
    rw [Int32.toInt_sub, Int32.toInt_mul]
    change ((value.toInt * -2).bmod (2 ^ 32) - 1).bmod (2 ^ 32) = _
    have hmul : (value.toInt * -2).bmod (2 ^ 32) = value.toInt * -2 :=
      Int.bmod_eq_of_le (by omega) (by omega)
    rw [hmul, Int.bmod_eq_of_le (by omega) (by omega)]
  have hnonneg : 0 ≤ value * -2 - 1 := Int32.le_iff_toInt_le.2 (by
    rw [hint]
    change 0 ≤ value.toInt * -2 - 1
    omega)
  rw [varintZigZag, if_neg hle, Int32.toNat_toUInt32_of_le hnonneg, Int32.toNatClampNeg, hint]
  omega

theorem and_one_ne_zero (v : UInt32) : v &&& 1 ≠ 0 ↔ v.toNat % 2 = 1 := by
  rw [ne_eq, ← UInt32.toNat_inj, UInt32.toNat_and]
  change ¬v.toNat &&& 1 = 0 ↔ _
  rw [Nat.and_one_is_mod]
  omega

theorem varintUnZigZag_zigZag {value : Int32} (hlow : -2 ^ 30 < value.toInt) :
    varintUnZigZag (varintZigZag value) = value := by
  have hlt := value.toInt_lt
  rcases Int.lt_or_le value.toInt 0 with hneg | hnonneg
  · have hzigzag := varintZigZag_neg hlow hneg
    have hodd : varintZigZag value &&& 1 ≠ 0 := (and_one_ne_zero _).2 (by omega)
    have hsum : (varintZigZag value + 1).toInt32.toInt = -2 * value.toInt := by
      have hnat : (varintZigZag value + 1).toNat = 2 * (-value.toInt).toNat := by
        rw [UInt32.toNat_add, hzigzag]
        change (_ + 1) % 2 ^ 32 = _
        omega
      rw [← UInt32.ofNat_toNat (x := varintZigZag value + 1), hnat, UInt32.toInt32_ofNat',
        Int32.toInt_ofNat_of_lt (by omega)]
      omega
    rw [varintUnZigZag, if_pos hodd, ← Int32.toInt_inj, Int32.toInt_div_of_ne_right _ _ (by decide),
      hsum]
    change (-2 * value.toInt).tdiv (-2) = _
    exact Int.mul_tdiv_cancel_left _ (by norm_num)
  · have hzigzag := varintZigZag_nonneg hnonneg
    have heven : ¬varintZigZag value &&& 1 ≠ 0 := by
      rw [and_one_ne_zero]
      omega
    have hhalf : (varintZigZag value / 2).toNat = value.toInt.toNat := by
      rw [UInt32.toNat_div, hzigzag]
      change _ / 2 = _
      omega
    rw [varintUnZigZag, if_neg heven, ← Int32.toInt_inj,
      ← UInt32.ofNat_toNat (x := varintZigZag value / 2), hhalf, UInt32.toInt32_ofNat',
      Int32.toInt_ofNat_of_lt (by omega)]
    omega

theorem varintInt32Unpack_pack {value : Int32} (hlow : -2 ^ 30 < value.toInt) (rest : List UInt8) :
    varintInt32Unpack (varintInt32Pack value ++ rest) = (value, (varintInt32Pack value).length) := by
  rw [varintInt32Unpack, varintInt32Pack, varintUint32Unpack_pack]
  exact congrArg (·, _) (varintUnZigZag_zigZag hlow)

/-! ## One after the other -/

/-- A value is packed into as many bytes as its length, and they are unpacked whatever follows. -/
structure PacksExactly {α : Type} (pack : α → List UInt8) (length : α → ℕ)
    (unpack : List UInt8 → α × ℕ) (value : α) : Prop where
  packed : (pack value).length = length value
  unpacked : ∀ rest, unpack (pack value ++ rest) = (value, length value)

theorem varintUint32_packsExactly (value : UInt32) :
    PacksExactly varintUint32Pack varintUint32Length varintUint32Unpack value where
  packed := length_varintUint32Pack_eq value
  unpacked rest := by rw [varintUint32Unpack_pack, length_varintUint32Pack_eq]

theorem varintInt32_packsExactly {value : Int32} (h : Int32.minValue / 2 + 1 ≤ value) :
    PacksExactly varintInt32Pack varintInt32Length varintInt32Unpack value where
  packed := length_varintUint32Pack_eq _
  unpacked rest := by
    have hlow : -2 ^ 30 + 1 ≤ value.toInt := Int32.le_iff_toInt_le.1 h
    rw [varintInt32Unpack_pack (by omega), varintInt32Pack, length_varintUint32Pack_eq]
    rfl

/-- The values that are unpacked until nothing is left. -/
def unpackAll {α : Type} (unpack : List UInt8 → α × ℕ) : ℕ → List UInt8 → List α
  | 0, _ => []
  | count + 1, input =>
    if input = [] then []
    else (unpack input).1 :: unpackAll unpack count (input.drop (unpack input).2)

theorem unpackAll_flatMap {α : Type} {pack : α → List UInt8} {length : α → ℕ}
    {unpack : List UInt8 → α × ℕ} (hpos : ∀ value, 0 < (pack value).length) :
    ∀ (values : List α), (∀ value ∈ values, PacksExactly pack length unpack value) →
    ∀ count, (values.flatMap pack).length ≤ count →
      unpackAll unpack count (values.flatMap pack) = values
  | [], _, 0, _ => rfl
  | [], _, count + 1, _ => if_pos rfl
  | value :: values, hexact, count, hcount => by
    have hvalue := hpos value
    have hfirst := hexact value List.mem_cons_self
    rw [List.flatMap_cons] at hcount ⊢
    rw [List.length_append] at hcount
    obtain ⟨count, rfl⟩ : ∃ n, count = n + 1 := ⟨count - 1, by omega⟩
    rw [unpackAll, if_neg (by simp [← List.length_pos_iff, hvalue]), hfirst.unpacked,
      ← hfirst.packed, List.drop_left,
      unpackAll_flatMap hpos values (fun v hv => hexact v (List.mem_cons_of_mem _ hv)) count
        (by omega)]

/-- Numbers are packed exactly, signed ones from half of the lowest one on, and so are lists. -/
theorem varint_packsExactly :
    (∀ value, PacksExactly varintUint32Pack varintUint32Length varintUint32Unpack value) ∧
    (∀ value, Int32.minValue / 2 + 1 ≤ value →
      PacksExactly varintInt32Pack varintInt32Length varintInt32Unpack value) ∧
    (∀ values : List UInt32, unpackAll varintUint32Unpack (values.flatMap varintUint32Pack).length
      (values.flatMap varintUint32Pack) = values) ∧
    ∀ values : List Int32, (∀ value ∈ values, Int32.minValue / 2 + 1 ≤ value) →
      unpackAll varintInt32Unpack (values.flatMap varintInt32Pack).length
        (values.flatMap varintInt32Pack) = values := by
  refine ⟨varintUint32_packsExactly, fun _ => varintInt32_packsExactly, fun values => ?_,
    fun values hvalues => ?_⟩
  · exact unpackAll_flatMap varintUint32Pack_pos values
      (fun value _ => varintUint32_packsExactly value) _ le_rfl
  · exact unpackAll_flatMap (fun value => varintUint32Pack_pos _) values
      (fun value hvalue => varintInt32_packsExactly (hvalues value hvalue)) _ le_rfl

theorem varint_packsExactly_lowest :
    PacksExactly varintInt32Pack varintInt32Length varintInt32Unpack (-1073741823) ∧
      unpackAll varintInt32Unpack ([-1073741823, 300].flatMap varintInt32Pack).length
        ([-1073741823, 300].flatMap varintInt32Pack) = [-1073741823, 300] :=
  ⟨varint_packsExactly.2.1 (-1073741823) (by decide),
    varint_packsExactly.2.2.2 [-1073741823, 300] (List.forall_mem_cons.2 ⟨by decide,
      List.forall_mem_cons.2 ⟨by decide, List.forall_mem_nil _⟩⟩)⟩

/-! ## Numbers that do not end -/

/-- What the loop shifts by, from the `i`-th byte on. -/
def varintShifts : ℕ → List UInt8 → List ℕ
  | _, [] => []
  | i, byte :: input => 7 * i :: if byte &&& 0x80 = 0 then [] else varintShifts (i + 1) input

/-- A byte that ends a number is there. -/
def VarintEnds (input : List UInt8) : Prop := ∃ byte ∈ input, byte &&& 0x80 = 0

theorem varintEnds_cons {byte : UInt8} {input : List UInt8} :
    VarintEnds (byte :: input) ↔ byte &&& 0x80 = 0 ∨ VarintEnds input :=
  List.exists_mem_cons_iff ..

theorem varintUint32UnpackLoop_snd (parsed : UInt32) (i : ℕ) (input : List UInt8) :
    i ≤ (varintUint32UnpackLoop parsed i input).2 ∧
      (VarintEnds input → (varintUint32UnpackLoop parsed i input).2 < i + input.length) ∧
      (¬VarintEnds input → (varintUint32UnpackLoop parsed i input).2 = i + input.length) := by
  induction input generalizing parsed i with
  | nil => exact ⟨le_rfl, fun h => by simp [VarintEnds] at h, fun _ => rfl⟩
  | cons byte input ih =>
    rw [varintUint32UnpackLoop, varintEnds_cons, List.length_cons]
    by_cases hlast : byte &&& 0x80 = 0
    · rw [if_pos hlast]
      exact ⟨le_rfl, fun _ => by simp, fun h => absurd (.inl hlast) h⟩
    · rw [if_neg hlast]
      obtain ⟨hle, hends, hopen⟩ := ih (parsed ||| varintBits byte i) (i + 1)
      refine ⟨by omega, fun h => ?_, fun h => ?_⟩
      · have hlt := hends (h.resolve_left hlast)
        omega
      · rw [hopen (fun hinput => h (.inr hinput))]
        omega

theorem varintShifts_lt {i : ℕ} (hi : i ≤ 5) (input : List UInt8) :
    (∀ shift ∈ varintShifts i input, shift < 32) ↔
      input.length ≤ 5 - i ∨ VarintEnds (input.take (5 - i)) := by
  induction input generalizing i with
  | nil => simp [varintShifts]
  | cons byte input ih =>
    rw [varintShifts, List.forall_mem_cons, List.length_cons]
    rcases hi.lt_or_eq with hlt | rfl
    · obtain ⟨left, hleft⟩ : ∃ n, 5 - i = n + 1 := ⟨4 - i, by omega⟩
      have hnext := @ih (i + 1) (by omega)
      rw [show 5 - (i + 1) = left by omega] at hnext
      rw [hleft, List.take_succ_cons, varintEnds_cons, Nat.add_le_add_iff_right]
      split_ifs with hlast
      · simp [hlast]
        omega
      · simp only [hlast, false_or]
        rw [hnext, and_iff_right (by omega)]
    · simp [VarintEnds]

/-- How much of its input an unpacking function takes, by the size it returns, and how far it shifts
the bytes. -/
structure UnpacksWithin (size : ℕ) (input : List UInt8) : Prop where
  inside : VarintEnds input → size ≤ input.length
  told : ¬VarintEnds input → input.length < size
  shifts : ∀ shift ∈ varintShifts 0 input, shift < 32

theorem unpacksWithin_iff {input : List UInt8} : UnpacksWithin (varintUint32Unpack input).2 input ↔
    input.length ≤ 5 ∨ VarintEnds (input.take 5) := by
  obtain ⟨-, hends, hopen⟩ := varintUint32UnpackLoop_snd 0 0 input
  rw [Nat.zero_add] at hends hopen
  refine ⟨fun h => (varintShifts_lt (Nat.zero_le 5) input).1 h.shifts, fun h => ⟨hends, fun hno => ?_,
    (varintShifts_lt (Nat.zero_le 5) input).2 h⟩⟩
  exact (hopen hno).symm ▸ Nat.lt_succ_self _

/-- Both unpacking functions stay within their input and tell whether a number ends. Every shift is
below the 32 bits of a number exactly if there are no more than five bytes or one of the first five
ends the number. -/
theorem varintUnpack_within (input : List UInt8) :
    (UnpacksWithin (varintUint32Unpack input).2 input ↔
      input.length ≤ 5 ∨ VarintEnds (input.take 5)) ∧
    (UnpacksWithin (varintInt32Unpack input).2 input ↔
      input.length ≤ 5 ∨ VarintEnds (input.take 5)) :=
  ⟨unpacksWithin_iff, unpacksWithin_iff⟩

/-- The sixth byte would have to be shifted by 35. -/
theorem not_unpacksWithin : ¬∀ input, UnpacksWithin (varintUint32Unpack input).2 input := fun h =>
  absurd ((h [0x80, 0x80, 0x80, 0x80, 0x80, 0x00]).shifts 35 (by decide)) (by decide)

end KiisuFirmware
