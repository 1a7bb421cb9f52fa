import KiisuFirmware.Strint

/-!
# What is printed is read back

The parsers of `strint.c` and `hex.c` undo the formats. For a decimal number the loop over the
digits keeps the value of what it has read, which stays within the limit since it only grows.
-/

namespace KiisuFirmware

/-- A character that is neither a space nor a control character. -/
def Graphic (c : UInt8) : Prop := 32 < c

/-! ## Decimal numbers -/

/-- The character of a digit. -/
def digitChar (d : ℕ) : UInt8 := 48 + UInt8.ofNat d

theorem digitChar_spec : ∀ d < 10, strintDigitValue (digitChar d) = some d ∧
    32 < digitChar d ∧ strintIsSpace (digitChar d) = false ∧ digitChar d ≠ 43 ∧
    digitChar d ≠ 45 ∧ (digitChar d = 48 → d = 0) := by decide

/-- What a string of digits behind a number adds to it. -/
def decimalValue (value : ℕ) (digits : List ℕ) : ℕ := digits.foldl (fun a d => a * 10 + d) value

theorem le_decimalValue : ∀ (digits : List ℕ) (value : ℕ), value ≤ decimalValue value digits
  | [], _ => le_rfl
  | d :: digits, value => by
    have hnext := le_decimalValue digits (value * 10 + d)
    simp only [decimalValue, List.foldl_cons] at hnext ⊢
    omega

theorem strintDigits_eq : ∀ (digits : List ℕ) {limit value count : ℕ}, (∀ d ∈ digits, d < 10) →
    9 ≤ limit → decimalValue value digits ≤ limit →
    strintDigits 10 limit (digits.map digitChar) value count =
      .ok (decimalValue value digits, count + digits.length, [])
  | [], limit, value, count, _, _, _ => rfl
  | d :: digits, limit, value, count, hdigits, hlimit, hvalue => by
    have hd : d < 10 := hdigits d List.mem_cons_self
    have hgrows : value * 10 + d ≤ limit :=
      (le_decimalValue digits (value * 10 + d)).trans hvalue
    have hmul : ¬limit / 10 < value := by omega
    have hadd : ¬limit - d < value * 10 := by omega
    rw [List.map_cons, strintDigits, (digitChar_spec d hd).1]
    simp only
    rw [if_neg (by omega), if_neg hmul, if_neg hadd,
      strintDigits_eq digits (fun e he => hdigits e (List.mem_cons_of_mem d he)) hlimit hvalue,
      List.length_cons, Nat.add_assoc, Nat.add_comm 1]
    rfl

theorem printDecimal_pos {n : ℕ} (hn : n ≠ 0) : ∃ d digits, d ≠ 0 ∧ (∀ e ∈ d :: digits, e < 10) ∧
    decimalValue 0 (d :: digits) = n ∧ printDecimal n = (d :: digits).map digitChar := by
  have hne : (Nat.digits 10 n).reverse ≠ [] := by
    rw [ne_eq, List.reverse_eq_nil_iff]
    exact Nat.digits_ne_nil_iff_ne_zero.2 hn
  obtain ⟨d, digits, hdigits⟩ := List.exists_cons_of_ne_nil hne
  have hlast : d = (Nat.digits 10 n).getLast (Nat.digits_ne_nil_iff_ne_zero.2 hn) := by
    rw [← List.head_reverse hne]
    simp only [hdigits, List.head_cons]
  refine ⟨d, digits, ?_, ?_, ?_, ?_⟩
  · rw [hlast]
    exact Nat.getLast_digit_ne_zero 10 hn
  · intro e he
    rw [← hdigits, List.mem_reverse] at he
    exact Nat.digits_lt_base (by norm_num) he
  · rw [decimalValue, ← hdigits, List.foldl_reverse]
    conv_rhs => rw [← Nat.ofDigits_digits 10 n, Nat.ofDigits_eq_foldr]
    congr 1
    funext a b
    simp only [Nat.cast_id]
    ring
  · rw [printDecimal, if_neg hn, hdigits]
    rfl

theorem printDecimal_graphic (n : ℕ) : printDecimal n ≠ [] ∧ ∀ c ∈ printDecimal n, Graphic c := by
  by_cases hn : n = 0
  · subst hn
    rw [printDecimal, if_pos rfl]
    refine ⟨List.cons_ne_nil _ _, ?_⟩
    intro c hc
    rw [List.mem_singleton] at hc
    subst hc
    exact (by decide : (32 : UInt8) < 48)
  · obtain ⟨d, digits, -, hdigits, -, hprint⟩ := printDecimal_pos hn
    rw [hprint]
    refine ⟨List.cons_ne_nil _ _, ?_⟩
    intro c hc
    obtain ⟨e, he, rfl⟩ := List.mem_map.1 hc
    exact (digitChar_spec e (hdigits e he)).2.1

theorem printInt_graphic (n : ℤ) : printInt n ≠ [] ∧ ∀ c ∈ printInt n, Graphic c := by
  obtain ⟨hne, hgraphic⟩ := printDecimal_graphic n.natAbs
  unfold printInt
  split_ifs
  · refine ⟨List.cons_ne_nil _ _, ?_⟩
    intro c hc
    rcases List.mem_cons.1 hc with rfl | hc
    · exact (by decide : (32 : UInt8) < 45)
    · exact hgraphic c hc
  · exact ⟨hne, hgraphic⟩

theorem strintInferBase_of_ne {c : UInt8} {str : List UInt8} (hc : c ≠ 48) :
    strintInferBase (c :: str) = (10, c :: str) := by
  unfold strintInferBase
  split
  · next h => exact absurd (List.cons.inj h).1 hc
  · next h => exact absurd (List.cons.inj h).1 hc
  · rfl

theorem strintToUint64Internal_print {n maxAbsNegative maxPositive : ℕ} (negative : Bool)
    (hnegative : negative = true → maxAbsNegative ≠ 0)
    (hlimit : 9 ≤ (if negative then maxAbsNegative else maxPositive))
    (hn : n ≤ (if negative then maxAbsNegative else maxPositive)) :
    strintToUint64Internal (if negative then 45 :: printDecimal n else printDecimal n) 10
      maxAbsNegative maxPositive = .ok (n, negative, []) := by
  have hsign : ∀ {c : UInt8} {str : List UInt8}, strintIsSpace c = false → c ≠ 43 → c ≠ 45 →
      (if negative then 45 :: c :: str else c :: str).dropWhile strintIsSpace =
        (if negative then 45 :: c :: str else c :: str) ∧
      ((if negative then 45 :: c :: str else c :: str).head? == some 45) = negative ∧
      (if strintIsSign (if negative then 45 :: c :: str else c :: str) then
        (if negative then 45 :: c :: str else c :: str).tail else
        (if negative then 45 :: c :: str else c :: str)) = c :: str ∧
      strintIsSign (c :: str) = false := by
    intro c str hspace hplus hminus
    cases negative with
    | false => simp [strintIsSign, hspace, hplus, hminus]
    | true =>
      have hdash : strintIsSpace 45 = false := by decide
      simp [strintIsSign, hdash, hplus, hminus]
  have hallowed : ¬(maxAbsNegative = 0 ∧ negative = true) := fun h => hnegative h.2 h.1
  by_cases hzero : n = 0
  · subst hzero
    have hprint : printDecimal 0 = [48] := rfl
    obtain ⟨hdrop, hneg, htail, hnot⟩ := @hsign 48 [] (by decide) (by decide) (by decide)
    rw [hprint]
    unfold strintToUint64Internal
    simp only [hdrop, hneg, htail, hnot, if_neg hallowed]
    rfl
  · obtain ⟨d, digits, hd, hdigits, hvalue, hprint⟩ := printDecimal_pos hzero
    obtain ⟨-, -, hspace, hplus, hminus, hhead⟩ := digitChar_spec d (hdigits d List.mem_cons_self)
    obtain ⟨hdrop, hneg, htail, hnot⟩ := @hsign _ (digits.map digitChar) hspace hplus hminus
    rw [hprint, List.map_cons]
    unfold strintToUint64Internal
    simp only [hdrop, hneg, htail, hnot, if_neg hallowed, Bool.false_eq_true, if_false,
      strintInferBase_of_ne (fun h => hd (hhead h))]
    rw [← List.map_cons, if_neg (by norm_num), strintDigits_eq (d :: digits) hdigits hlimit
      (by rw [hvalue]; exact hn), hvalue]
    simp [Except.bind]

theorem strintToUint32_print (n : UInt32) : strintToUint32 (printDecimal n.toNat) 10 = .ok n := by
  have hlt := n.toNat_lt
  have hread := @strintToUint64Internal_print n.toNat 0 (2 ^ 32 - 1) false nofun (by norm_num)
    (by simp only [Bool.false_eq_true, if_false]; omega)
  simp only [Bool.false_eq_true, if_false] at hread
  rw [strintToUint32, hread]
  simp [Except.map]

theorem strintToInt32_print (n : Int32) : strintToInt32 (printInt n.toInt) 10 = .ok n := by
  have hrange := n.le_toInt
  have hrange' := n.toInt_lt
  unfold printInt strintToInt32
  by_cases hneg : n.toInt < 0
  · have hread := @strintToUint64Internal_print n.toInt.natAbs (2 ^ 31) (2 ^ 31 - 1) true
      (fun _ => by norm_num) (by norm_num) (by simp only [if_true]; omega)
    simp only [if_true] at hread
    have habs : -((n.toInt.natAbs : ℕ) : ℤ) = n.toInt := by omega
    rw [if_pos hneg, hread]
    simp only [Except.map, if_true]
    rw [Int32.neg_ofNat, habs, Int32.ofInt_toInt]
  · have hread := @strintToUint64Internal_print n.toInt.natAbs (2 ^ 31) (2 ^ 31 - 1) false
      nofun (by norm_num) (by simp only [Bool.false_eq_true, if_false]; omega)
    simp only [Bool.false_eq_true, if_false] at hread
    have habs : ((n.toInt.natAbs : ℕ) : ℤ) = n.toInt := by omega
    rw [if_neg hneg, hread]
    simp only [Except.map, Bool.false_eq_true, if_false]
    rw [← Int32.ofInt_eq_ofNat, habs, Int32.ofInt_toInt]

/-! ## Hexadecimal numbers -/

theorem hexDigit_spec : ∀ d < 16, hexCharToHexNibble (hexDigit d) = some (UInt8.ofNat d) ∧
    32 < hexDigit d := by decide

theorem nibbles_spec : ∀ hi < 16, ∀ low < 16,
    UInt8.ofNat hi <<< 4 ||| UInt8.ofNat low = UInt8.ofNat (hi * 16 + low) := by decide

theorem printHex_graphic : ∀ (width n : ℕ), ∀ c ∈ printHex width n, Graphic c
  | 0, _, c, hc => absurd hc List.not_mem_nil
  | width + 1, n, c, hc => by
    rw [printHex, List.mem_append, List.mem_singleton] at hc
    rcases hc with hc | rfl
    · exact printHex_graphic width (n / 16) c hc
    · exact (hexDigit_spec (n % 16) (Nat.mod_lt _ (by norm_num))).2

theorem length_printHex : ∀ (width n : ℕ), (printHex width n).length = width
  | 0, _ => rfl
  | width + 1, n => by
    rw [printHex, List.length_append, length_printHex width, List.length_singleton]

theorem printHex_ne_nil (width n : ℕ) : printHex (width + 1) n ≠ [] := by
  rw [← List.length_pos_iff, length_printHex]
  exact Nat.succ_pos _

theorem printHex_two (n : ℕ) : printHex 2 n = [hexDigit (n / 16 % 16), hexDigit (n % 16)] := rfl

theorem hexCharToUint8_print {n : ℕ} (hn : n < 256) :
    hexCharToUint8 (hexDigit (n / 16 % 16)) (hexDigit (n % 16)) = some (UInt8.ofNat n) := by
  have hhi := (hexDigit_spec (n / 16 % 16) (Nat.mod_lt _ (by norm_num))).1
  have hlow := (hexDigit_spec (n % 16) (Nat.mod_lt _ (by norm_num))).1
  have hbyte := nibbles_spec (n / 16 % 16) (Nat.mod_lt _ (by norm_num)) (n % 16)
    (Nat.mod_lt _ (by norm_num))
  have hsplit : n / 16 % 16 * 16 + n % 16 = n := by omega
  rw [hsplit] at hbyte
  simp only [hexCharToUint8, hhi, hlow, Option.bind_eq_bind, Option.bind_some, hbyte]
  rfl

theorem hexCharsToUint64Loop_print : ∀ (bytes : ℕ) {n : ℕ} (more value : ℕ) (str : List UInt8),
    n < 256 ^ bytes → hexCharsToUint64Loop value (bytes + more) (printHex (2 * bytes) n ++ str) =
      hexCharsToUint64Loop (value * 256 ^ bytes + n) more str
  | 0, n, more, value, str, hn => by
    rw [pow_zero, Nat.lt_one_iff] at hn
    subst hn
    simp [printHex]
  | bytes + 1, n, more, value, str, hn => by
    have hprint : printHex (2 * (bytes + 1)) n = printHex (2 * bytes) (n / 256) ++
        printHex 2 (n % 256) := by
      rw [printHex_two]
      show (printHex (2 * bytes) (n / 16 / 16) ++ [hexDigit (n / 16 % 16)]) ++
        [hexDigit (n % 16)] = _
      rw [List.append_assoc, Nat.div_div_eq_div_mul]
      have hhi : n % 256 / 16 % 16 = n / 16 % 16 := by omega
      have hlow : n % 256 % 16 = n % 16 := by omega
      rw [hhi, hlow]
      rfl
    have hdiv : n / 256 < 256 ^ bytes := by
      rw [Nat.div_lt_iff_lt_mul (by norm_num), ← pow_succ]
      exact hn
    rw [hprint, List.append_assoc, Nat.add_assoc, hexCharsToUint64Loop_print bytes _ _ _ hdiv,
      printHex_two, Nat.add_comm 1 more]
    simp only [List.cons_append, List.nil_append, hexCharsToUint64Loop]
    have hmod : n % 256 < 256 := Nat.mod_lt _ (by norm_num)
    rw [hexCharToUint8_print hmod]
    simp only [Option.bind_eq_bind, Option.bind_some, UInt8.toNat_ofNat']
    congr 1
    have hpow : value * 256 ^ (bytes + 1) = value * 256 ^ bytes * 256 := by
      rw [pow_succ, Nat.mul_assoc]
    omega

theorem hexCharsToUint64_print (n : UInt64) :
    hexCharsToUint64 (printHex 8 (n >>> 32).toUInt32.toNat ++ printHex 8 n.toUInt32.toNat) =
      some n := by
  have hlt := n.toNat_lt
  have hhi : (n >>> 32).toUInt32.toNat = n.toNat / 2 ^ 32 := by
    simp [Nat.shiftRight_eq_div_pow]
    omega
  have hlow : n.toUInt32.toNat = n.toNat % 2 ^ 32 := by simp
  have hread : hexCharsToUint64Loop 0 (4 + 4)
      (printHex (2 * 4) (n.toNat / 2 ^ 32) ++ printHex (2 * 4) (n.toNat % 2 ^ 32)) =
      some n.toNat := by
    rw [hexCharsToUint64Loop_print 4 4 0 _ (by omega)]
    have hrest := hexCharsToUint64Loop_print 4 0 (0 * 256 ^ 4 + n.toNat / 2 ^ 32) []
      (show n.toNat % 2 ^ 32 < 256 ^ 4 by omega)
    rw [List.append_nil] at hrest
    rw [hrest, hexCharsToUint64Loop]
    congr 1
    omega
  rw [hexCharsToUint64, hhi, hlow, hread, Option.map_some, UInt64.ofNat_toNat]

end KiisuFirmware
