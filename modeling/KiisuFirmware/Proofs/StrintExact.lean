import Mathlib.Data.List.TakeWhile
import KiisuFirmware.Strint

/-!
# Numbers are read as what they are

A string in front of a number is white space, a sign and a prefix; the digits behind it are read with
two checks that find exactly those that make too large a number. The code takes off a prefix of any
base, also one that starts with digits of the base that it was asked for.
-/

namespace KiisuFirmware

/-! ## Digits -/

def strintIsDigit (base : ℕ) (c : UInt8) : Bool := (strintDigitValue c).any (· < base)

/-- The number that digits behind another number make. -/
def strintValue (base value : ℕ) (digits : List UInt8) : ℕ :=
  digits.foldl (fun value c => value * base + (strintDigitValue c).getD 0) value

theorem le_strintValue {base : ℕ} (hbase : 0 < base) : ∀ (digits : List UInt8) (value : ℕ),
    value ≤ strintValue base value digits
  | [], _ => le_rfl
  | c :: digits, value =>
    ((Nat.le_mul_of_pos_right value hbase).trans (Nat.le_add_right _ _)).trans
      (le_strintValue hbase digits (value * base + (strintDigitValue c).getD 0))

theorem strintValue_eq (base : ℕ) : ∀ (digits : List UInt8) (value : ℕ),
    strintValue base value digits = value * base ^ digits.length + strintValue base 0 digits
  | [], value => by simp [strintValue]
  | c :: digits, value => by
    have hcons : ∀ v, strintValue base v (c :: digits) =
        strintValue base (v * base + (strintDigitValue c).getD 0) digits := fun _ => rfl
    rw [hcons, hcons, strintValue_eq base digits, strintValue_eq base digits (0 * base + _),
      List.length_cons, pow_succ]
    ring

theorem strintDigitValue_lt : ∀ {c : UInt8} {d : ℕ}, strintDigitValue c = some d → d < 36 := by
  intro c d h
  unfold strintDigitValue at h
  have hle : ∀ {a b : UInt8}, a ≤ b → a.toNat ≤ b.toNat := fun h => UInt8.le_iff_toNat_le.1 h
  split_ifs at h with h0 h1 h2
  · cases h
    have := hle h0.2
    change c.toNat ≤ 57 at this
    omega
  · cases h
    have := hle h1.2
    change c.toNat ≤ 90 at this
    omega
  · cases h
    have := hle h2.2
    change c.toNat ≤ 122 at this
    omega

/-- The loop reads the digits in front; its two checks find just the numbers above the limit. -/
theorem strintDigits_run {base limit : ℕ} (hbase : 0 < base) (hlimit : 35 ≤ limit) :
    ∀ (str : List UInt8) {result : ℕ} (readTotal : ℕ), result ≤ limit →
    strintDigits base limit str result readTotal =
      if strintValue base result (str.takeWhile (strintIsDigit base)) ≤ limit then
        .ok (strintValue base result (str.takeWhile (strintIsDigit base)),
          readTotal + (str.takeWhile (strintIsDigit base)).length,
          str.dropWhile (strintIsDigit base))
      else .error .overflow
  | [], result, readTotal, h => by
    rw [List.takeWhile_nil, List.dropWhile_nil]
    exact (if_pos h).symm
  | c :: str, result, readTotal, h => by
    rw [strintDigits, List.takeWhile_cons, List.dropWhile_cons]
    cases hvalue : strintDigitValue c with
    | none =>
      have hno : strintIsDigit base c = false := by simp [strintIsDigit, hvalue]
      simp only [hno, Bool.false_eq_true, if_false]
      exact (if_pos h).symm
    | some digit =>
      have hdigit := strintDigitValue_lt hvalue
      have his : strintIsDigit base c = decide (digit < base) := by simp [strintIsDigit, hvalue]
      simp only [his]
      by_cases hlt : digit < base
      · have hcons : strintValue base result (c :: str.takeWhile (strintIsDigit base)) =
            strintValue base (result * base + digit) (str.takeWhile (strintIsDigit base)) := by
          simp [strintValue, hvalue]
        have hgrows := le_strintValue hbase (str.takeWhile (strintIsDigit base))
          (result * base + digit)
        rw [if_neg (Nat.not_le.2 hlt), decide_eq_true hlt, if_pos rfl, if_pos rfl, hcons]
        by_cases hmul : limit / base < result
        · have hover : limit < result * base := (Nat.div_lt_iff_lt_mul hbase).1 hmul
          rw [if_pos hmul, if_neg (by omega)]
        · by_cases hadd : limit - digit < result * base
          · rw [if_neg hmul, if_pos hadd, if_neg (by omega)]
          · rw [if_neg hmul, if_neg hadd,
              strintDigits_run hbase hlimit str (readTotal + 1) (by omega), List.length_cons]
            split_ifs
            · congr 3
              omega
            · rfl
      · rw [if_pos (Nat.le_of_not_lt hlt), decide_eq_false hlt]
        exact (if_pos h).symm

/-! ## What a number looks like -/

/-- The base of the digits and where they start. A prefix of a base that was asked for is none of
its digits. -/
def strintPrefix (base : ℕ) : List UInt8 → ℕ × List UInt8
  | 48 :: c :: digits =>
    if (c = 120 ∨ c = 88) ∧ base ≤ 33 then (if base = 0 then 16 else base, digits)
    else if (c = 98 ∨ c = 66) ∧ base ≤ 11 then (if base = 0 then 2 else base, digits)
    else (if base = 0 then 8 else base, 48 :: c :: digits)
  | [48] => (if base = 0 then 8 else base, [48])
  | digits => (if base = 0 then 10 else base, digits)

/-- The digits of a number and what comes behind them. -/
structure StrintRun (base : ℕ) (str digits tail : List UInt8) : Prop where
  append : str = digits ++ tail
  ne_nil : digits ≠ []
  isDigit : ∀ c ∈ digits, strintIsDigit base c
  maximal : ∀ c ∈ tail.head?, strintIsDigit base c = false

/-- White space, a sign, which may be a minus if the type has one, a prefix and digits. -/
def StrintReads (signed : Bool) (base : ℕ) (str : List UInt8) (value : ℤ) (tail : List UInt8) :
    Prop :=
  ∃ space sign body digits, str = space ++ (sign ++ body) ∧ (∀ c ∈ space, strintIsSpace c) ∧
    (sign = [] ∨ sign = [43] ∨ sign = [45] ∧ signed) ∧
    StrintRun (strintPrefix base body).1 (strintPrefix base body).2 digits tail ∧
    value = (if sign = [45] then -1 else 1) * (strintValue (strintPrefix base body).1 0 digits : ℤ)

theorem strintRun_iff {base : ℕ} {str digits tail : List UInt8} :
    StrintRun base str digits tail ↔ digits = str.takeWhile (strintIsDigit base) ∧
      tail = str.dropWhile (strintIsDigit base) ∧ digits ≠ [] := by
  constructor
  · rintro ⟨rfl, hne, hdigits, htail⟩
    have htake : tail.takeWhile (strintIsDigit base) = [] := by
      cases tail with
      | nil => rfl
      | cons c tail => simp [htail c rfl]
    have hdrop : tail.dropWhile (strintIsDigit base) = tail := by
      cases tail with
      | nil => rfl
      | cons c tail => simp [htail c rfl]
    rw [List.takeWhile_append_of_pos hdigits, List.dropWhile_append_of_pos hdigits, htake, hdrop,
      List.append_nil]
    exact ⟨rfl, rfl, hne⟩
  · rintro ⟨rfl, rfl, hne⟩
    refine ⟨(List.takeWhile_append_dropWhile ..).symm, hne,
      fun c hc => List.mem_takeWhile_imp hc, fun c hc => ?_⟩
    have hhead := List.head?_dropWhile_not (strintIsDigit base) str
    rw [Option.mem_def] at hc
    rw [hc] at hhead
    exact hhead

/-- The sign of a number and what comes behind it, if there is at most one sign and it is allowed. -/
def strintFront (signed : Bool) (str : List UInt8) : Option (Bool × List UInt8) :=
  let str := str.dropWhile strintIsSpace
  let negative := str.head? == some 45
  let body := if strintIsSign str then str.tail else str
  if strintIsSign body then none else if negative && !signed then none else some (negative, body)

theorem le_of_digit {base : ℕ} {c : UInt8} (h : strintIsDigit base c) : 48 ≤ c.toNat := by
  have h48 : 48 ≤ c → 48 ≤ c.toNat := fun h => UInt8.le_iff_toNat_le.1 h
  by_contra hno
  have hnone : strintDigitValue c = none := by
    unfold strintDigitValue
    rw [if_neg (fun hc => hno (h48 hc.1)),
      if_neg (fun hc => hno (h48 (UInt8.le_trans (by decide) hc.1))),
      if_neg (fun hc => hno (h48 (UInt8.le_trans (by decide) hc.1)))]
  rw [strintIsDigit, hnone] at h
  cases h

theorem space_le {c : UInt8} (h : strintIsSpace c) : c.toNat ≤ 32 := by
  rw [strintIsSpace, Bool.or_eq_true, decide_eq_true_eq, beq_iff_eq] at h
  rcases h with h | rfl
  · exact (UInt8.le_iff_toNat_le.1 h.2).trans (by decide)
  · exact le_rfl

theorem strintIsSign_cons (c : UInt8) (str : List UInt8) :
    strintIsSign (c :: str) = (c == 43 || c == 45) := rfl

theorem head_of_run {base : ℕ} {body digits tail : List UInt8}
    (h : StrintRun (strintPrefix base body).1 (strintPrefix base body).2 digits tail) :
    ∃ c str, body = c :: str ∧ 48 ≤ c.toNat := by
  have hplain : ∀ {b : ℕ}, StrintRun b body digits tail → ∃ c str, body = c :: str ∧ 48 ≤ c.toNat := by
    intro b hrun
    obtain ⟨c, digits, rfl⟩ := List.exists_cons_of_ne_nil hrun.ne_nil
    exact ⟨c, digits ++ tail, hrun.append, le_of_digit (hrun.isDigit c List.mem_cons_self)⟩
  unfold strintPrefix at h
  split at h
  · exact ⟨48, _, rfl, le_rfl⟩
  · exact ⟨48, _, rfl, le_rfl⟩
  · exact hplain h

theorem strintFront_eq_some {signed negative : Bool} {str body : List UInt8}
    (h : strintFront signed str = some (negative, body)) :
    ∃ space sign, str = space ++ (sign ++ body) ∧ (∀ c ∈ space, strintIsSpace c) ∧
      (sign = [] ∨ sign = [43] ∨ sign = [45] ∧ signed) ∧ negative = decide (sign = [45]) := by
  have hsplit := List.takeWhile_append_dropWhile (p := strintIsSpace) (l := str)
  have hspace : ∀ c ∈ str.takeWhile strintIsSpace, strintIsSpace c :=
    fun c hc => List.mem_takeWhile_imp hc
  unfold strintFront at h
  cases hdrop : str.dropWhile strintIsSpace with
  | nil =>
    rw [hdrop] at h hsplit
    cases h
    exact ⟨_, [], hsplit.symm, hspace, .inl rfl, rfl⟩
  | cons c rest =>
    rw [hdrop] at h hsplit
    simp only [strintIsSign_cons, List.head?_cons, List.tail_cons] at h
    by_cases hplus : c = 43
    · subst hplus
      have hbody : strintIsSign rest = false ∧ false = negative ∧ rest = body := by simpa using h
      obtain ⟨-, rfl, rfl⟩ := hbody
      exact ⟨_, [43], hsplit.symm, hspace, .inr (.inl rfl), rfl⟩
    · by_cases hminus : c = 45
      · subst hminus
        have hbody : strintIsSign rest = false ∧ signed = true ∧ true = negative ∧ rest = body := by
          simpa using h
        obtain ⟨-, hsigned, rfl, rfl⟩ := hbody
        exact ⟨_, [45], hsplit.symm, hspace, .inr (.inr ⟨rfl, hsigned⟩), rfl⟩
      · have hminus' : (c == 45) = false := by simpa using hminus
        have hbody : false = negative ∧ c :: rest = body := by
          simpa [hplus, hminus', strintIsSign_cons] using h
        obtain ⟨rfl, rfl⟩ := hbody
        exact ⟨_, [], hsplit.symm, hspace, .inl rfl, rfl⟩

theorem strintReads_iff {signed : Bool} {base : ℕ} {str tail : List UInt8} {value : ℤ} :
    StrintReads signed base str value tail ↔ ∃ negative body digits,
      strintFront signed str = some (negative, body) ∧
      StrintRun (strintPrefix base body).1 (strintPrefix base body).2 digits tail ∧
      value = (if negative then -1 else 1) *
        (strintValue (strintPrefix base body).1 0 digits : ℤ) := by
  constructor
  · rintro ⟨space, sign, body, digits, rfl, hspace, hsign, hrun, rfl⟩
    obtain ⟨c, rest, rfl, hc⟩ := head_of_run hrun
    have hnospace : strintIsSpace c = false := by
      by_contra hno
      have hle := space_le (Bool.eq_true_of_not_eq_false hno)
      omega
    have hplus : c ≠ 43 := fun h => by rw [h] at hc; exact absurd hc (by decide)
    have hminus : c ≠ 45 := fun h => by rw [h] at hc; exact absurd hc (by decide)
    have hnosign : strintIsSign (c :: rest) = false := by simp [strintIsSign_cons, hplus, hminus]
    refine ⟨decide (sign = [45]), c :: rest, digits, ?_, hrun, by simp⟩
    unfold strintFront
    rw [List.dropWhile_append_of_pos hspace]
    rcases hsign with rfl | rfl | ⟨rfl, hsigned⟩
    · simp [hnospace, hnosign, hminus]
    · simp [show strintIsSpace 43 = false by decide, strintIsSign_cons, hplus, hminus]
    · simp [show strintIsSpace 45 = false by decide, strintIsSign_cons, hplus, hminus, hsigned]
  · rintro ⟨negative, body, digits, hfront, hrun, rfl⟩
    obtain ⟨space, sign, hstr, hspace, hsign, hnegative⟩ := strintFront_eq_some hfront
    exact ⟨space, sign, body, digits, hstr, hspace, hsign, hrun, by simp [hnegative]⟩

/-! ## What the parser reads -/

/-- The loop over the digits and the check behind it. -/
def strintCounted (base limit inferredBase : ℕ) (str : List UInt8) :
    Except StrintParseError (ℕ × List UInt8) :=
  (strintDigits base limit str 0 0).bind fun r =>
    if r.2.1 = 0 then
      if inferredBase = 8 then .ok (0, r.2.2) else .error .absent
    else .ok (r.1, r.2.2)

/-- The digits, read with the prefix that the code takes off. -/
def strintBody (base limit : ℕ) (body : List UInt8) : Except StrintParseError (ℕ × List UInt8) :=
  let inferred := strintInferBase body
  strintCounted (if base = 0 then inferred.1 else base) limit inferred.1 inferred.2

theorem strintToUint64Internal_eq (str : List UInt8) (base maxAbsNegative maxPositive : ℕ) :
    strintToUint64Internal str base maxAbsNegative maxPositive =
      match strintFront (maxAbsNegative != 0) str with
      | none => .error .sign
      | some (negative, body) =>
        (strintBody base (if negative then maxAbsNegative else maxPositive) body).map fun r =>
          (r.1, negative, r.2) := by
  unfold strintToUint64Internal strintFront
  simp only
  generalize (if strintIsSign (str.dropWhile strintIsSpace) then
    (str.dropWhile strintIsSpace).tail else str.dropWhile strintIsSpace) = body
  generalize ((str.dropWhile strintIsSpace).head? == some 45) = negative
  by_cases hsign : strintIsSign body
  · rw [if_pos hsign, if_pos hsign]
  · rw [if_neg hsign, if_neg hsign]
    by_cases hminus : maxAbsNegative = 0 ∧ negative = true
    · rw [if_pos hminus, if_pos (by simp [hminus])]
    · have hallowed : ¬(negative && !(maxAbsNegative != 0)) = true := by
        simpa [and_comm] using hminus
      rw [if_neg hminus, if_neg hallowed]
      simp only [strintBody, strintCounted]
      generalize strintDigits _ _ _ 0 0 = result
      cases result with
      | error e => rfl
      | ok r =>
        simp only [Except.bind]
        split_ifs <;> rfl

/-- Digits as they are to be read. -/
def strintRun (base limit : ℕ) (str : List UInt8) : Except StrintParseError (ℕ × List UInt8) :=
  let digits := str.takeWhile (strintIsDigit base)
  if digits = [] then .error .absent
  else if strintValue base 0 digits ≤ limit then
    .ok (strintValue base 0 digits, str.dropWhile (strintIsDigit base))
  else .error .overflow

def strintPlain (base limit : ℕ) (body : List UInt8) : Except StrintParseError (ℕ × List UInt8) :=
  strintRun (strintPrefix base body).1 limit (strintPrefix base body).2

/-- A prefix of another base whose letter is a digit of the base that was asked for. -/
def SwallowsDigits (base : ℕ) (c : UInt8) : Prop :=
  (c = 120 ∨ c = 88) ∧ 34 ≤ base ∨ (c = 98 ∨ c = 66) ∧ 12 ≤ base

theorem strintIsDigit_zero {base : ℕ} (hbase : 0 < base) : strintIsDigit base 48 = true := by
  simpa [strintIsDigit, show strintDigitValue 48 = some 0 by decide] using hbase

section Body

variable {base limit : ℕ}

theorem strintCounted_eq (hlimit : 35 ≤ limit) (hbase : 0 < base) {inferred : ℕ}
    (hinferred : inferred ≠ 8) (str : List UInt8) :
    strintCounted base limit inferred str =
      if limit < strintValue base 0 (str.takeWhile (strintIsDigit base)) then .error .overflow
      else strintRun base limit str := by
  rw [strintCounted, strintRun, strintDigits_run hbase hlimit str 0 (Nat.zero_le _)]
  by_cases hover : limit < strintValue base 0 (str.takeWhile (strintIsDigit base))
  · rw [if_neg (Nat.not_le.2 hover), if_pos hover]
    rfl
  · rw [if_pos (Nat.le_of_not_lt hover), if_neg hover, if_pos (Nat.le_of_not_lt hover)]
    simp [Except.bind, hinferred]

theorem strintRun_of_lt {str : List UInt8}
    (h : limit < strintValue base 0 (str.takeWhile (strintIsDigit base))) :
    strintRun base limit str = .error .overflow := by
  have hne : str.takeWhile (strintIsDigit base) ≠ [] := fun hnil => by
    rw [hnil] at h
    exact Nat.not_lt_zero _ h
  rw [strintRun, if_neg hne, if_neg (Nat.not_le.2 h)]

theorem strintCounted_prefix (hlimit : 35 ≤ limit) (hbase : 0 < base) {inferred : ℕ}
    (hinferred : inferred ≠ 8) (str : List UInt8) :
    strintCounted base limit inferred str = strintRun base limit str := by
  rw [strintCounted_eq hlimit hbase hinferred]
  split_ifs with hover
  · rw [strintRun_of_lt hover]
  · rfl

theorem strintCounted_zero (hlimit : 35 ≤ limit) (hbase : 0 < base) (digits : List UInt8) :
    strintCounted base limit 8 digits = strintRun base limit (48 :: digits) := by
  have hvalue : ∀ run, strintValue base 0 (48 :: run) = strintValue base 0 run := fun run => by
    simp [strintValue, show strintDigitValue 48 = some 0 by decide]
  rw [strintCounted, strintRun, strintDigits_run hbase hlimit digits 0 (Nat.zero_le _)]
  simp only [List.takeWhile_cons, List.dropWhile_cons, strintIsDigit_zero hbase, if_true, hvalue]
  rw [if_neg (List.cons_ne_nil _ _)]
  by_cases hfits : strintValue base 0 (digits.takeWhile (strintIsDigit base)) ≤ limit
  · rw [if_pos hfits, if_pos hfits]
    simp only [Except.bind, Nat.zero_add, List.length_eq_zero_iff]
    split_ifs with hnil
    · rw [hnil]
      rfl
    · rfl
  · rw [if_neg hfits, if_neg hfits]
    rfl

theorem inferred_pos (hbase : base = 0 ∨ 2 ≤ base) {n : ℕ} (hn : 0 < n) :
    0 < if base = 0 then n else base := by
  split_ifs with hzero
  · exact hn
  · exact Nat.zero_lt_two.trans_le (hbase.resolve_left hzero)

/-- Where no digits are swallowed, the code reads a number as it is to be read. -/
theorem strintBody_eq_plain (hlimit : 35 ≤ limit) (hbase : base = 0 ∨ 2 ≤ base) {body : List UInt8}
    (h : ∀ c digits, body = 48 :: c :: digits → ¬SwallowsDigits base c) :
    strintBody base limit body = strintPlain base limit body := by
  by_cases hlong : ∃ c digits, body = 48 :: c :: digits
  · obtain ⟨c, digits, rfl⟩ := hlong
    have hno := h c digits rfl
    unfold SwallowsDigits at hno
    unfold strintBody strintPlain strintPrefix strintInferBase
    by_cases hx : c = 120 ∨ c = 88
    · have hle : base ≤ 33 := by
        by_contra hgt
        exact hno (.inl ⟨hx, by omega⟩)
      simp only [if_pos hx, if_pos (And.intro hx hle)]
      exact strintCounted_prefix hlimit (inferred_pos hbase (by norm_num)) (by norm_num) _
    · have hx' : ¬((c = 120 ∨ c = 88) ∧ base ≤ 33) := fun h => hx h.1
      by_cases hb : c = 98 ∨ c = 66
      · have hle : base ≤ 11 := by
          by_contra hgt
          exact hno (.inr ⟨hb, by omega⟩)
        simp only [if_neg hx, if_pos hb, if_neg hx', if_pos (And.intro hb hle)]
        exact strintCounted_prefix hlimit (inferred_pos hbase (by norm_num)) (by norm_num) _
      · have hb' : ¬((c = 98 ∨ c = 66) ∧ base ≤ 11) := fun h => hb h.1
        simp only [if_neg hx, if_neg hb, if_neg hx', if_neg hb']
        exact strintCounted_zero hlimit (inferred_pos hbase (by norm_num)) _
  · by_cases hsingle : body = [48]
    · subst hsingle
      exact strintCounted_zero hlimit (@inferred_pos base hbase 8 (by norm_num)) []
    · have hinfer : strintInferBase body = (10, body) := by
        unfold strintInferBase
        split
        · exact absurd ⟨_, _, rfl⟩ hlong
        · exact absurd rfl hsingle
        · rfl
      have hprefix : strintPrefix base body = (if base = 0 then 10 else base, body) := by
        unfold strintPrefix
        split
        · exact absurd ⟨_, _, rfl⟩ hlong
        · exact absurd rfl hsingle
        · rfl
      rw [strintBody, strintPlain, hinfer, hprefix]
      exact strintCounted_prefix hlimit (inferred_pos hbase (by norm_num)) (by norm_num) _

theorem SwallowsDigits.digit {c : UInt8} (h : SwallowsDigits base c) :
    ∃ digit, strintDigitValue c = some digit ∧ 0 < digit ∧ digit < base ∧ digit ≤ 33 := by
  rcases h with ⟨rfl | rfl, hle⟩ | ⟨rfl | rfl, hle⟩
  · exact ⟨33, by decide, by norm_num, by omega, by norm_num⟩
  · exact ⟨33, by decide, by norm_num, by omega, by norm_num⟩
  · exact ⟨11, by decide, by norm_num, by omega, by norm_num⟩
  · exact ⟨11, by decide, by norm_num, by omega, by norm_num⟩

theorem SwallowsDigits.prefix_eq {c : UInt8} (h : SwallowsDigits base c) (digits : List UInt8) :
    strintPrefix base (48 :: c :: digits) = (base, 48 :: c :: digits) ∧
      ∃ inferred, inferred ≠ 8 ∧ strintInferBase (48 :: c :: digits) = (inferred, digits) := by
  obtain ⟨digit, -, -, hlt, -⟩ := h.digit
  have hzero : base ≠ 0 := by omega
  rcases h with ⟨hx, hle⟩ | ⟨hb, hle⟩
  · have hno : ¬(c = 98 ∨ c = 66) := by
      rcases hx with rfl | rfl <;> decide
    have hgt : ¬base ≤ 33 := by omega
    exact ⟨by simp [strintPrefix, hno, hgt, hzero], 16, by norm_num, by simp [strintInferBase, hx]⟩
  · have hno : ¬(c = 120 ∨ c = 88) := by
      rcases hb with rfl | rfl <;> decide
    have hgt : ¬base ≤ 11 := by omega
    exact ⟨by simp [strintPrefix, hno, hgt, hzero], 2, by norm_num,
      by simp [strintInferBase, hno, hb]⟩

/-- Both readings end with the same result. -/
def StrintAgree (base limit : ℕ) (body : List UInt8) : Prop :=
  (∀ r, strintBody base limit body = .ok r ↔ strintPlain base limit body = .ok r) ∧
    (strintBody base limit body = .error .overflow ↔
      strintPlain base limit body = .error .overflow)

/-- Digits that are swallowed are missed, unless the others are too many already. -/
theorem agree_of_swallows (hlimit : 35 ≤ limit) {c : UInt8} (digits : List UInt8)
    (h : SwallowsDigits base c) : StrintAgree base limit (48 :: c :: digits) ↔
      limit < strintValue base 0 (digits.takeWhile (strintIsDigit base)) := by
  obtain ⟨digit, hdigit, hpos, hlt, hle⟩ := h.digit
  obtain ⟨ hprefix, inferred, hinferred, hinfer⟩ := h.prefix_eq digits
  have hbase : 0 < base := by omega
  have hzero : base ≠ 0 := hbase.ne'
  have hrun : (48 :: c :: digits).takeWhile (strintIsDigit base) =
      48 :: c :: digits.takeWhile (strintIsDigit base) := by
    have hletter : strintIsDigit base c = true := by simp [strintIsDigit, hdigit, hlt]
    simp only [List.takeWhile_cons, strintIsDigit_zero hbase, hletter, if_true]
  have hvalue : strintValue base 0 (48 :: c :: digits.takeWhile (strintIsDigit base)) =
      digit * base ^ (digits.takeWhile (strintIsDigit base)).length +
        strintValue base 0 (digits.takeWhile (strintIsDigit base)) := by
    rw [← strintValue_eq]
    simp [strintValue, show strintDigitValue 48 = some 0 by decide, hdigit]
  have hmore : digit ≤ digit * base ^ (digits.takeWhile (strintIsDigit base)).length :=
    Nat.le_mul_of_pos_right _ (Nat.pow_pos hbase)
  have hcode : strintBody base limit (48 :: c :: digits) = strintRun base limit digits := by
    unfold strintBody
    rw [hinfer]
    simp only [if_neg hzero]
    exact strintCounted_prefix hlimit hbase hinferred digits
  have hplain : strintPlain base limit (48 :: c :: digits) =
      if strintValue base 0 (48 :: c :: digits.takeWhile (strintIsDigit base)) ≤ limit then
        .ok (strintValue base 0 (48 :: c :: digits.takeWhile (strintIsDigit base)),
          (48 :: c :: digits).dropWhile (strintIsDigit base))
      else .error .overflow := by
    rw [strintPlain, hprefix]
    simp only [strintRun, hrun]
    rw [if_neg (List.cons_ne_nil _ _)]
  constructor
  · rintro ⟨hok, hover⟩
    by_contra hfits
    rw [hcode, hplain, strintRun, if_pos (Nat.le_of_not_lt hfits)] at hok hover
    split_ifs at hok hover with hnil hsum
    · cases (hok _).2 rfl
    · cases hover.2 rfl
    · have hsame := (hok _).2 rfl
      simp only [Except.ok.injEq, Prod.mk.injEq] at hsame
      omega
    · cases hover.2 rfl
  · intro hover
    rw [StrintAgree, hcode, strintRun_of_lt hover, hplain, if_neg (by omega)]
    exact ⟨fun _ => Iff.rfl, Iff.rfl⟩

theorem strintAgree_iff (hlimit : 35 ≤ limit) (hbase : base = 0 ∨ 2 ≤ base) (body : List UInt8) :
    StrintAgree base limit body ↔ ∀ c digits, body = 48 :: c :: digits → SwallowsDigits base c →
      limit < strintValue base 0 (digits.takeWhile (strintIsDigit base)) := by
  by_cases hswallows : ∃ c digits, body = 48 :: c :: digits ∧ SwallowsDigits base c
  · obtain ⟨c, digits, rfl, hc⟩ := hswallows
    rw [agree_of_swallows hlimit digits hc]
    refine ⟨fun h c' digits' heq _ => ?_, fun h => h c digits rfl hc⟩
    simp only [List.cons.injEq, true_and] at heq
    rw [← heq.2]
    exact h
  · have hplain : strintBody base limit body = strintPlain base limit body :=
      strintBody_eq_plain hlimit hbase fun c digits heq hc => hswallows ⟨c, digits, heq, hc⟩
    rw [StrintAgree, hplain]
    exact iff_of_true ⟨fun _ => Iff.rfl, Iff.rfl⟩ fun c digits heq hc =>
      absurd ⟨c, digits, heq, hc⟩ hswallows

end Body

/-! ## The types -/

namespace StrintMono

variable {α : Type} {mono : StrintMono α} {value : α → ℤ}

/-- The limits are those of the type, and numbers within them are what they are cast to. -/
structure Lawful (mono : StrintMono α) (value : α → ℤ) : Prop where
  injective : Function.Injective value
  cast : ∀ n ≤ mono.posLimit, value (mono.cast n) = n
  neg : ∀ n ≤ mono.negAbsLimit, value (mono.neg (mono.cast n)) = -n
  range : ∀ x, -(mono.negAbsLimit : ℤ) ≤ value x ∧ value x ≤ mono.posLimit
  posLimit : 35 ≤ mono.posLimit
  negAbsLimit : mono.negAbsLimit = 0 ∨ 35 ≤ mono.negAbsLimit

def signed (mono : StrintMono α) : Bool := mono.negAbsLimit != 0

def limit (mono : StrintMono α) (negative : Bool) : ℕ :=
  if negative then mono.negAbsLimit else mono.posLimit

/-- A call writes the value of a number that fits the type and where it ends, finds one that does not
fit to be too large, and writes nothing if there is an error. -/
structure Exact (mono : StrintMono α) (value : α → ℤ) (str : List UInt8) (base : ℕ) : Prop where
  reads : ∀ tail₀ out₀ tail out,
    mono.parse str ⟨some tail₀, some out₀⟩ base = (none, ⟨some tail, some out⟩) ↔
      StrintReads mono.signed base str (value out) tail
  overflow : ∀ cells, (mono.parse str cells base).1 = some .overflow ↔
    ∃ z tail, StrintReads mono.signed base str z tail ∧ ∀ out, value out ≠ z
  unchanged : ∀ cells, (mono.parse str cells base).1 ≠ none → (mono.parse str cells base).2 = cells

/-- Behind white space and the sign, the prefix of another base starts with digits of the base that
was asked for, and those behind it alone make a number that fits. -/
def Swallows (mono : StrintMono α) (str : List UInt8) (base : ℕ) : Prop :=
  ∃ negative c digits, strintFront mono.signed str = some (negative, 48 :: c :: digits) ∧
    SwallowsDigits base c ∧
    strintValue base 0 (digits.takeWhile (strintIsDigit base)) ≤ mono.limit negative

theorem Lawful.limit_ge (h : mono.Lawful value) {negative : Bool}
    (hsigned : negative → mono.signed) : 35 ≤ mono.limit negative := by
  unfold limit
  split_ifs with hneg
  · have hne := hsigned hneg
    rw [signed, bne_iff_ne] at hne
    exact h.negAbsLimit.resolve_left hne
  · exact h.posLimit

theorem Lawful.value_eq (h : mono.Lawful value) {negative : Bool} {n : ℕ}
    (hn : n ≤ mono.limit negative) :
    value (if negative then mono.neg (mono.cast n) else mono.cast n) =
      (if negative then -1 else 1) * (n : ℤ) := by
  cases negative with
  | false => simpa using h.cast n hn
  | true => simpa using h.neg n hn

theorem Lawful.fits_iff (h : mono.Lawful value) {negative : Bool} {n : ℕ} :
    (∃ out, value out = (if negative then -1 else 1) * (n : ℤ)) ↔ n ≤ mono.limit negative := by
  refine ⟨fun ⟨out, hout⟩ => ?_, fun hn => ⟨_, h.value_eq hn⟩⟩
  have hrange := h.range out
  rw [hout] at hrange
  unfold limit
  cases negative with
  | false =>
    simp only [Bool.false_eq_true, if_false] at hrange ⊢
    omega
  | true =>
    simp only [if_true] at hrange ⊢
    omega

theorem strintPlain_eq_ok {base limit : ℕ} {body tail : List UInt8} {n : ℕ} :
    strintPlain base limit body = .ok (n, tail) ↔ n ≤ limit ∧ ∃ digits,
      StrintRun (strintPrefix base body).1 (strintPrefix base body).2 digits tail ∧
      strintValue (strintPrefix base body).1 0 digits = n := by
  simp only [strintPlain, strintRun, strintRun_iff]
  split_ifs with hnil hfits
  · refine iff_of_false (by simp) ?_
    rintro ⟨-, digits, ⟨rfl, -, hne⟩, -⟩
    exact hne hnil
  · simp only [Except.ok.injEq, Prod.mk.injEq]
    constructor
    · rintro ⟨rfl, rfl⟩
      exact ⟨hfits, _, ⟨rfl, rfl, hnil⟩, rfl⟩
    · rintro ⟨-, digits, ⟨rfl, rfl, -⟩, rfl⟩
      exact ⟨rfl, rfl⟩
  · refine iff_of_false (by simp) ?_
    rintro ⟨hn, digits, ⟨rfl, -, -⟩, rfl⟩
    exact hfits hn

theorem strintPlain_eq_overflow {base limit : ℕ} {body : List UInt8} :
    strintPlain base limit body = .error .overflow ↔ ∃ digits tail,
      StrintRun (strintPrefix base body).1 (strintPrefix base body).2 digits tail ∧
      limit < strintValue (strintPrefix base body).1 0 digits := by
  simp only [strintPlain, strintRun, strintRun_iff]
  split_ifs with hnil hfits
  · refine iff_of_false (by simp) ?_
    rintro ⟨digits, tail, ⟨rfl, -, hne⟩, -⟩
    exact hne hnil
  · refine iff_of_false (by simp) ?_
    rintro ⟨digits, tail, ⟨rfl, -, -⟩, hlt⟩
    exact Nat.not_lt.2 hfits hlt
  · exact iff_of_true rfl ⟨_, _, ⟨rfl, rfl, hnil⟩, Nat.lt_of_not_le hfits⟩

theorem strintInferBase_pos (body : List UInt8) : 0 < (strintInferBase body).1 := by
  unfold strintInferBase
  split
  · split_ifs <;> norm_num
  · norm_num
  · norm_num

theorem le_of_strintBody {base limit : ℕ} (hlimit : 35 ≤ limit) (hbase : base = 0 ∨ 2 ≤ base)
    {body tail : List UInt8} {n : ℕ} (h : strintBody base limit body = .ok (n, tail)) :
    n ≤ limit := by
  have hpos := inferred_pos hbase (strintInferBase_pos body)
  unfold strintBody strintCounted at h
  simp only at h
  rw [strintDigits_run hpos hlimit _ 0 (Nat.zero_le _)] at h
  generalize strintValue _ 0 _ = total at h
  by_cases hfits : total ≤ limit
  · rw [if_pos hfits] at h
    simp only [Except.bind] at h
    split_ifs at h
    · cases h
      exact Nat.zero_le _
    · cases h
      exact hfits
    · cases h
      exact Nat.zero_le _
    · cases h
      exact hfits
  · rw [if_neg hfits] at h
    cases h

section Front

variable {str body : List UInt8} {negative : Bool}
  (hfront : strintFront mono.signed str = some (negative, body))
include hfront

theorem parse_eq (cells : StrintCells α) (base : ℕ) :
    mono.parse str cells base = match strintBody base (mono.limit negative) body with
      | .error err => (some err, cells)
      | .ok (n, tail) => (none, ⟨cells.tail.map fun _ => tail,
          cells.out.map fun _ => if negative then mono.neg (mono.cast n) else mono.cast n⟩) := by
  have hfront' : strintFront (mono.negAbsLimit != 0) str = some (negative, body) := hfront
  rw [parse, strintToUint64Internal_eq, hfront']
  unfold limit
  simp only
  cases strintBody base (if negative then mono.negAbsLimit else mono.posLimit) body <;> rfl

theorem reads_iff_plain (h : mono.Lawful value) {base : ℕ} {tail : List UInt8} {out : α} :
    StrintReads mono.signed base str (value out) tail ↔ ∃ n,
      strintPlain base (mono.limit negative) body = .ok (n, tail) ∧
      value out = (if negative then -1 else 1) * (n : ℤ) := by
  rw [strintReads_iff]
  constructor
  · rintro ⟨negative', body', digits, hfront', hrun, hvalue⟩
    rw [hfront] at hfront'
    cases hfront'
    exact ⟨_, strintPlain_eq_ok.2 ⟨h.fits_iff.1 ⟨out, hvalue⟩, digits, hrun, rfl⟩, hvalue⟩
  · rintro ⟨n, hplain, hvalue⟩
    obtain ⟨-, digits, hrun, rfl⟩ := strintPlain_eq_ok.1 hplain
    exact ⟨negative, body, digits, hfront, hrun, hvalue⟩

theorem unfit_iff_plain (h : mono.Lawful value) {base : ℕ} :
    (∃ z tail, StrintReads mono.signed base str z tail ∧ ∀ out, value out ≠ z) ↔
      strintPlain base (mono.limit negative) body = .error .overflow := by
  rw [strintPlain_eq_overflow]
  simp only [strintReads_iff]
  constructor
  · rintro ⟨z, tail, ⟨negative', body', digits, hfront', hrun, rfl⟩, hunfit⟩
    rw [hfront] at hfront'
    cases hfront'
    refine ⟨digits, tail, hrun, Nat.lt_of_not_le fun hle => ?_⟩
    obtain ⟨out, hout⟩ := h.fits_iff.2 hle
    exact hunfit out hout
  · rintro ⟨digits, tail, hrun, hlt⟩
    exact ⟨_, tail, ⟨negative, body, digits, hfront, hrun, rfl⟩,
      fun out hout => Nat.not_le.2 hlt (h.fits_iff.1 ⟨out, hout⟩)⟩

theorem parse_eq_read {base : ℕ} {tail₀ tail : List UInt8} {out₀ out : α} :
    mono.parse str ⟨some tail₀, some out₀⟩ base = (none, ⟨some tail, some out⟩) ↔
      ∃ n, strintBody base (mono.limit negative) body = .ok (n, tail) ∧
        (if negative then mono.neg (mono.cast n) else mono.cast n) = out := by
  rw [parse_eq hfront]
  cases strintBody base (mono.limit negative) body with
  | error err => simp
  | ok r => simp [Prod.ext_iff, and_assoc]

theorem parse_eq_overflow {base : ℕ} {cells : StrintCells α} :
    (mono.parse str cells base).1 = some .overflow ↔
      strintBody base (mono.limit negative) body = .error .overflow := by
  rw [parse_eq hfront]
  cases strintBody base (mono.limit negative) body with
  | error err => simp
  | ok r => simp

theorem exact_iff_agree (h : mono.Lawful value) {base : ℕ} (hbase : base = 0 ∨ 2 ≤ base)
    (hlimit : 35 ≤ mono.limit negative) :
    mono.Exact value str base ↔ StrintAgree base (mono.limit negative) body := by
  constructor
  · intro hexact
    -- any string and any value may be there before
    have hread : ∀ {tail out}, (∃ n, strintBody base (mono.limit negative) body = .ok (n, tail) ∧
        (if negative then mono.neg (mono.cast n) else mono.cast n) = out) ↔
        ∃ n, strintPlain base (mono.limit negative) body = .ok (n, tail) ∧
          value out = (if negative then -1 else 1) * (n : ℤ) := by
      intro tail out
      rw [← @parse_eq_read α mono str body negative hfront base [] tail (mono.cast 0) out,
        ← reads_iff_plain hfront h]
      exact hexact.reads [] (mono.cast 0) tail out
    have hsame : ∀ {n m : ℕ},
        (if negative then -1 else 1) * (n : ℤ) = (if negative then -1 else 1) * (m : ℤ) → n = m := by
      intro n m heq
      cases negative <;> simpa using heq
    refine ⟨fun r => ⟨fun hbody => ?_, fun hplain => ?_⟩, ?_⟩
    · obtain ⟨n, hplain, hvalue⟩ := hread.1 ⟨r.1, hbody, rfl⟩
      rw [h.value_eq (le_of_strintBody hlimit hbase hbody)] at hvalue
      rw [hplain, ← hsame hvalue]
    · have hn := (strintPlain_eq_ok.1 hplain).1
      obtain ⟨n, hbody, hout⟩ := hread.2 ⟨r.1, hplain, h.value_eq hn⟩
      have hvalue := h.value_eq (le_of_strintBody hlimit hbase hbody)
      rw [hout, h.value_eq hn] at hvalue
      rw [hbody, ← hsame hvalue]
    · rw [← unfit_iff_plain hfront h,
        ← @parse_eq_overflow α mono str body negative hfront base ⟨none, none⟩]
      exact hexact.overflow _
  · intro hagree
    refine ⟨fun tail₀ out₀ tail out => ?_, fun cells => ?_, fun cells => ?_⟩
    · rw [parse_eq_read hfront, reads_iff_plain hfront h]
      constructor
      · rintro ⟨n, hbody, rfl⟩
        have hn := le_of_strintBody hlimit hbase hbody
        exact ⟨n, (hagree.1 _).1 hbody, h.value_eq hn⟩
      · rintro ⟨n, hplain, hvalue⟩
        have hn := (strintPlain_eq_ok.1 hplain).1
        exact ⟨n, (hagree.1 _).2 hplain, h.injective ((h.value_eq hn).trans hvalue.symm)⟩
    · rw [parse_eq_overflow hfront, unfit_iff_plain hfront h]
      exact hagree.2
    · rw [parse_eq hfront]
      cases strintBody base (mono.limit negative) body with
      | error err => exact fun _ => rfl
      | ok r => exact fun hne => absurd rfl hne

end Front

/-- The value of a string is read exactly unless the prefix of another base takes digits away from
a number that is then not too large. -/
theorem exact_iff (h : mono.Lawful value) {base : ℕ} (hbase : base = 0 ∨ 2 ≤ base)
    (str : List UInt8) : mono.Exact value str base ↔ ¬mono.Swallows str base := by
  cases hfront : strintFront mono.signed str with
  | none =>
    have hparse : ∀ cells, mono.parse str cells base = (some .sign, cells) := by
      intro cells
      have hfront' : strintFront (mono.negAbsLimit != 0) str = none := hfront
      rw [parse, strintToUint64Internal_eq, hfront']
    have hno : ∀ {z tail}, ¬StrintReads mono.signed base str z tail := by
      intro z tail hreads
      obtain ⟨negative, body, digits, hsome, -⟩ := strintReads_iff.1 hreads
      rw [hfront] at hsome
      cases hsome
    refine iff_of_true ⟨fun tail₀ out₀ tail out => ?_, fun cells => ?_, fun cells _ => ?_⟩ ?_
    · rw [hparse]
      exact iff_of_false (by simp) hno
    · rw [hparse]
      exact iff_of_false (by simp) fun ⟨z, tail, hreads, _⟩ => hno hreads
    · rw [hparse]
    · rintro ⟨negative, c, digits, hsome, -⟩
      rw [hfront] at hsome
      cases hsome
  | some r =>
    obtain ⟨negative, body⟩ := r
    have hlimit : 35 ≤ mono.limit negative := h.limit_ge fun hnegative => by
      obtain ⟨space, sign, -, -, hsign, hneg⟩ := strintFront_eq_some hfront
      rw [hneg, decide_eq_true_eq] at hnegative
      subst hnegative
      simpa using hsign
    rw [exact_iff_agree hfront h hbase hlimit, strintAgree_iff hlimit hbase]
    constructor
    · rintro hagree ⟨negative', c, digits, hfront', hc, hle⟩
      rw [hfront] at hfront'
      cases hfront'
      exact Nat.not_lt.2 hle (hagree c digits rfl hc)
    · intro hno c digits hbody hc
      by_contra hle
      exact hno ⟨negative, c, digits, hbody ▸ hfront, hc, Nat.le_of_not_lt hle⟩

theorem uint64_lawful : uint64.Lawful fun x => (x.toNat : ℤ) where
  injective x y hxy := UInt64.toNat_inj.1 (Int.ofNat.inj hxy)
  cast n hn := by
    have hlt : n < 2 ^ 64 := Nat.lt_of_le_sub_one (by norm_num) hn
    exact congrArg Int.ofNat (UInt64.toNat_ofNat_of_lt' hlt)
  neg n hn := by
    cases Nat.le_zero.1 hn
    rfl
  range x := by
    have hlt := x.toNat_lt
    change -((0 : ℕ) : ℤ) ≤ _ ∧ _ ≤ ((2 ^ 64 - 1 : ℕ) : ℤ)
    omega
  posLimit := by decide
  negAbsLimit := .inl rfl

theorem int64_lawful : int64.Lawful Int64.toInt where
  injective x y hxy := Int64.toInt_inj.1 hxy
  cast n hn := Int64.toInt_ofNat_of_lt (Nat.lt_of_le_sub_one (by norm_num) hn)
  neg n hn := by
    have hle : n ≤ 2 ^ 63 := hn
    exact (congrArg Int64.toInt Int64.neg_ofNat).trans
      (Int64.toInt_ofInt_of_le (by omega) (by omega))
  range x := by
    have hle := x.le_toInt
    have hlt := x.toInt_lt
    change -((2 ^ 63 - 1 + 1 : ℕ) : ℤ) ≤ _ ∧ _ ≤ ((2 ^ 63 - 1 : ℕ) : ℤ)
    omega
  posLimit := by decide
  negAbsLimit := .inr (by decide)

theorem uint32_lawful : uint32.Lawful fun x => (x.toNat : ℤ) where
  injective x y hxy := UInt32.toNat_inj.1 (Int.ofNat.inj hxy)
  cast n hn := by
    have hlt : n < 2 ^ 32 := Nat.lt_of_le_sub_one (by norm_num) hn
    exact congrArg Int.ofNat (UInt32.toNat_ofNat_of_lt' hlt)
  neg n hn := by
    cases Nat.le_zero.1 hn
    rfl
  range x := by
    have hlt := x.toNat_lt
    change -((0 : ℕ) : ℤ) ≤ _ ∧ _ ≤ ((2 ^ 32 - 1 : ℕ) : ℤ)
    omega
  posLimit := by decide
  negAbsLimit := .inl rfl

theorem int32_lawful : int32.Lawful Int32.toInt where
  injective x y hxy := Int32.toInt_inj.1 hxy
  cast n hn := Int32.toInt_ofNat_of_lt (Nat.lt_of_le_sub_one (by norm_num) hn)
  neg n hn := by
    have hle : n ≤ 2 ^ 31 := hn
    exact (congrArg Int32.toInt Int32.neg_ofNat).trans
      (Int32.toInt_ofInt_of_le (by omega) (by omega))
  range x := by
    have hle := x.le_toInt
    have hlt := x.toInt_lt
    change -((2 ^ 31 - 1 + 1 : ℕ) : ℤ) ≤ _ ∧ _ ≤ ((2 ^ 31 - 1 : ℕ) : ℤ)
    omega
  posLimit := by decide
  negAbsLimit := .inr (by decide)

theorem uint16_lawful : uint16.Lawful fun x => (x.toNat : ℤ) where
  injective x y hxy := UInt16.toNat_inj.1 (Int.ofNat.inj hxy)
  cast n hn := by
    have hlt : n < 2 ^ 16 := Nat.lt_of_le_sub_one (by norm_num) hn
    exact congrArg Int.ofNat (UInt16.toNat_ofNat_of_lt' hlt)
  neg n hn := by
    cases Nat.le_zero.1 hn
    rfl
  range x := by
    have hlt := x.toNat_lt
    change -((0 : ℕ) : ℤ) ≤ _ ∧ _ ≤ ((2 ^ 16 - 1 : ℕ) : ℤ)
    omega
  posLimit := by decide
  negAbsLimit := .inl rfl

theorem int16_lawful : int16.Lawful Int16.toInt where
  injective x y hxy := Int16.toInt_inj.1 hxy
  cast n hn := Int16.toInt_ofNat_of_lt (Nat.lt_of_le_sub_one (by norm_num) hn)
  neg n hn := by
    have hle : n ≤ 2 ^ 15 := hn
    exact (congrArg Int16.toInt Int16.neg_ofNat).trans
      (Int16.toInt_ofInt_of_le (by omega) (by omega))
  range x := by
    have hle := x.le_toInt
    have hlt := x.toInt_lt
    change -((2 ^ 15 - 1 + 1 : ℕ) : ℤ) ≤ _ ∧ _ ≤ ((2 ^ 15 - 1 : ℕ) : ℤ)
    omega
  posLimit := by decide
  negAbsLimit := .inr (by decide)

end StrintMono

open StrintMono in
/-- For every type, a string is read exactly unless the prefix of another base takes away digits of
the base that was asked for from a number that is then not too large. -/
theorem strint_exact_iff (str : List UInt8) (base : ℕ) (hbase : base = 0 ∨ 2 ≤ base ∧ base ≤ 36) :
    (uint64.Exact (fun x => (x.toNat : ℤ)) str base ↔ ¬uint64.Swallows str base) ∧
    (int64.Exact Int64.toInt str base ↔ ¬int64.Swallows str base) ∧
    (uint32.Exact (fun x => (x.toNat : ℤ)) str base ↔ ¬uint32.Swallows str base) ∧
    (int32.Exact Int32.toInt str base ↔ ¬int32.Swallows str base) ∧
    (uint16.Exact (fun x => (x.toNat : ℤ)) str base ↔ ¬uint16.Swallows str base) ∧
    (int16.Exact Int16.toInt str base ↔ ¬int16.Swallows str base) := by
  have hbase' : base = 0 ∨ 2 ≤ base := hbase.imp_right And.left
  exact ⟨exact_iff uint64_lawful hbase' str, exact_iff int64_lawful hbase' str,
    exact_iff uint32_lawful hbase' str, exact_iff int32_lawful hbase' str,
    exact_iff uint16_lawful hbase' str, exact_iff int16_lawful hbase' str⟩

/-- `0x1F`, whose prefix is that of no base that was asked for. -/
theorem strint_exact_iff_hex :
    StrintMono.int16.Exact Int16.toInt [48, 120, 49, 70] 0 :=
  (strint_exact_iff [48, 120, 49, 70] 0 (.inl rfl)).2.2.2.2.2.2
    fun ⟨_, _, _, _, hc, _⟩ => absurd hc (by simp [SwallowsDigits])

/-- `0b1` in base 16, which is read as 1. -/
theorem not_strint_exact : ¬∀ (str : List UInt8) (base : ℕ), base = 0 ∨ 2 ≤ base ∧ base ≤ 36 →
    StrintMono.uint32.Exact (fun x => (x.toNat : ℤ)) str base := fun h =>
  (StrintMono.exact_iff StrintMono.uint32_lawful (.inr (by norm_num)) [48, 98, 49]).1
    (h [48, 98, 49] 16 (.inr (by norm_num)))
    ⟨false, 98, [49], rfl, .inr ⟨.inl rfl, by norm_num⟩, by decide⟩

end KiisuFirmware
