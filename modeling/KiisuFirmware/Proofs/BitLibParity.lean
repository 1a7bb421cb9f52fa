import KiisuFirmware.Proofs.BitLib
import Mathlib.Data.List.GetD

/-!
# Parities that come and go

Bits that are removed from an array are those behind which the others are moved together, in place,
always behind what is read next. So the parities that are added to groups of bits are removed again.
-/

namespace KiisuFirmware

variable {n m : ℕ}

/-! ## Bits removed -/

/-- The bits before some place, without every nth. -/
def keptBits (bits : ℕ → Bool) (nth count : ℕ) : List Bool :=
  ((List.range count).filter fun i => (i + 1) % nth ≠ 0).map bits

theorem keptBits_succ (bits : ℕ → Bool) (nth count : ℕ) :
    keptBits bits nth (count + 1) =
      keptBits bits nth count ++ if (count + 1) % nth ≠ 0 then [bits count] else [] := by
  rw [keptBits, keptBits, List.range_succ, List.filter_append, List.map_append]
  by_cases h : (count + 1) % nth ≠ 0 <;> simp [h]

theorem length_keptBits_le (bits : ℕ → Bool) (nth count : ℕ) :
    (keptBits bits nth count).length ≤ count := by
  rw [keptBits, List.length_map]
  exact (List.length_filter_le _ _).trans_eq List.length_range

theorem keptBits_add (bits : ℕ → Bool) {nth : ℕ} (groups : ℕ) : ∀ {count : ℕ}, count < nth →
    keptBits bits nth (groups * nth + count) =
      keptBits bits nth (groups * nth) ++ (List.range count).map fun i => bits (groups * nth + i)
  | 0, _ => by simp
  | count + 1, h => by
    have hmod : (groups * nth + count + 1) % nth = count + 1 := by
      rw [Nat.add_assoc, Nat.add_comm, Nat.add_mul_mod_self_right, Nat.mod_eq_of_lt h]
    rw [← Nat.add_assoc, keptBits_succ, hmod, if_pos (Nat.succ_ne_zero count),
      keptBits_add bits groups (Nat.lt_of_succ_lt h), List.append_assoc, List.range_succ,
      List.map_append]
    rfl

theorem keptBits_groups {bits source : ℕ → Bool} {nth : ℕ} (hnth : 2 ≤ nth) : ∀ {groups : ℕ},
    (∀ group < groups, ∀ i < nth - 1,
      bits (group * nth + i) = source (group * (nth - 1) + i)) →
    keptBits bits nth (groups * nth) = (List.range (groups * (nth - 1))).map source
  | 0, _ => by simp [keptBits]
  | groups + 1, h => by
    have hgroups := keptBits_groups hnth fun group hgroup => h group (Nat.lt_succ_of_lt hgroup)
    have hlast : (groups * nth + (nth - 1) + 1) % nth = 0 := by
      rw [Nat.add_assoc, Nat.sub_add_cancel (by omega), Nat.add_mod_right, Nat.mul_mod_left]
    rw [show (groups + 1) * nth = groups * nth + (nth - 1) + 1 by rw [Nat.add_mul]; omega,
      keptBits_succ, hlast, if_neg (not_not.2 rfl), List.append_nil,
      keptBits_add bits groups (by omega), hgroups, Nat.add_mul, Nat.one_mul, List.range_add,
      List.map_append, List.map_map]
    congr 1
    exact List.map_congr_left fun i hi => h groups (Nat.lt_succ_self _) i (List.mem_range.1 hi)

namespace BitLibRemoval

/-- The bits that are kept so far have been moved to the front, but for the last ones, which are in
the buffer. -/
structure Keeps (removal : BitLibRemoval n) (data : Vector UInt8 n) (position : ℕ)
    (kept : List Bool) : Prop where
  count : kept.length = removal.resultCounter + removal.bitCounter
  le : removal.bitCounter ≤ 8
  buffer : ∀ j < removal.bitCounter, removal.bitBuffer.toNat.testBit j =
    kept.getD (removal.resultCounter + (removal.bitCounter - 1 - j)) false
  written : ∀ i < 8 * n, bitLibGetBit removal.data i =
    if position ≤ i ∧ i < position + removal.resultCounter then kept.getD (i - position) false
    else bitLibGetBit data i

variable {removal : BitLibRemoval n} {data : Vector UInt8 n} {position : ℕ} {kept : List Bool}

theorem keeps_start : (⟨data, 0, 0, 0⟩ : BitLibRemoval n).Keeps data position [] where
  count := rfl
  le := Nat.zero_le 8
  buffer := fun j hj => absurd hj (Nat.not_lt_zero j)
  written := fun i _ => (if_neg (by dsimp only; omega)).symm

theorem Keeps.flush (h : removal.Keeps data position kept)
    (hroom : position + kept.length ≤ 8 * n) :
    (⟨bitLibSetBits removal.data (position + removal.resultCounter) removal.bitBuffer
      removal.bitCounter, removal.resultCounter + removal.bitCounter, 0, 0⟩ :
        BitLibRemoval n).Keeps data position kept where
  count := h.count
  le := Nat.zero_le 8
  buffer := fun j hj => absurd hj (Nat.not_lt_zero j)
  written := fun i hi => by
    have hcount := h.count
    rw [getBit_setBits (by omega) h.le _ hi, h.written i hi]
    by_cases hnew : position + removal.resultCounter ≤ i ∧
        i < position + removal.resultCounter + removal.bitCounter
    · rw [if_pos hnew, if_pos (by dsimp only; omega), h.buffer _ (by omega)]
      exact congrArg (kept.getD · false) (by omega)
    · rw [if_neg hnew]
      exact if_congr (by dsimp only; omega) rfl rfl

theorem Keeps.push (h : removal.Keeps data position kept) (hlt : removal.bitCounter < 8)
    (bit : Bool) :
    ({ removal with
      bitBuffer := removal.bitBuffer <<< 1 ||| bit.toUInt8
      bitCounter := removal.bitCounter + 1 } : BitLibRemoval n).Keeps data position
        (kept ++ [bit]) where
  count := by
    rw [List.length_append, h.count]
    rfl
  le := hlt
  buffer := fun j hj => by
    dsimp only at hj ⊢
    have hcount := h.count
    have hshift := testBit_shiftLeft removal.bitBuffer (by norm_num : 1 < 8) j
    rw [show (Nat.toUInt8 1 : UInt8) = 1 from rfl] at hshift
    rw [UInt8.toNat_or, Nat.testBit_or, testBit_bool, hshift]
    cases j with
    | zero =>
      rw [List.getD_append_right _ _ _ _ (by omega)]
      simp [hcount]
    | succ j =>
      rw [List.getD_append _ _ _ _ (by omega), decide_eq_true (by omega : j + 1 < 8),
        decide_eq_true (by omega : 1 ≤ j + 1), Nat.add_sub_cancel, h.buffer j (by omega)]
      simp
      exact congrArg (kept.getD · false) (by omega)
  written := fun i hi => by
    have hcount := h.count
    rw [h.written i hi]
    by_cases hin : position ≤ i ∧ i < position + removal.resultCounter
    · rw [if_pos hin, if_pos hin, List.getD_append _ _ _ _ (by omega)]
    · rw [if_neg hin, if_neg hin]

/-- What is done about the bit that is read next. -/
def next (position nth : ℕ) (removal : BitLibRemoval n) (counter : ℕ) : BitLibRemoval n :=
  let removal :=
    if (counter + 1) % nth ≠ 0 then
      { removal with
        bitBuffer := removal.bitBuffer <<< 1 |||
          (bitLibGetBit removal.data (position + counter)).toUInt8
        bitCounter := removal.bitCounter + 1 }
    else removal
  if removal.bitCounter = 8 then
    { data := bitLibSetBits removal.data (position + removal.resultCounter) removal.bitBuffer 8
      resultCounter := removal.resultCounter + 8
      bitBuffer := 0
      bitCounter := 0 }
  else removal

theorem Keeps.next {nth counter : ℕ} (h : removal.Keeps data position
      (keptBits (fun i => bitLibGetBit data (position + i)) nth counter))
    (hlt : removal.bitCounter < 8) (hroom : position + (counter + 1) ≤ 8 * n) :
    (removal.next position nth counter).Keeps data position
        (keptBits (fun i => bitLibGetBit data (position + i)) nth (counter + 1)) ∧
      (removal.next position nth counter).bitCounter < 8 := by
  have hcount := h.count
  have hlength := length_keptBits_le (fun i => bitLibGetBit data (position + i)) nth counter
  -- what is read is behind everything that has been written
  have hread : bitLibGetBit removal.data (position + counter) =
      bitLibGetBit data (position + counter) := by
    rw [h.written _ (by omega), if_neg (by omega)]
  rw [keptBits_succ, BitLibRemoval.next, hread]
  by_cases hkeep : (counter + 1) % nth ≠ 0
  · rw [if_pos hkeep, if_pos hkeep]
    have hpush := h.push hlt (bitLibGetBit data (position + counter))
    by_cases hfull : removal.bitCounter + 1 = 8
    · rw [if_pos hfull]
      have hflush := hpush.flush (by rw [List.length_append, List.length_singleton]; omega)
      rw [hfull] at hflush
      exact ⟨hflush, by norm_num⟩
    · rw [if_neg hfull]
      exact ⟨hpush, by dsimp only; omega⟩
  · rw [if_neg hkeep, if_neg hkeep, if_neg (by omega), List.append_nil]
    exact ⟨h, hlt⟩

end BitLibRemoval

theorem foldl_range_of_step {σ : Type} {P : ℕ → σ → Prop} {f : σ → ℕ → σ} {s : σ} (h : P 0 s) :
    ∀ {count : ℕ}, (∀ i < count, ∀ s, P i s → P (i + 1) (f s i)) →
      P count ((List.range count).foldl f s)
  | 0, _ => h
  | count + 1, hstep => by
    rw [List.range_succ, List.foldl_append]
    exact hstep count (Nat.lt_succ_self count) _
      (foldl_range_of_step h fun i hi => hstep i (Nat.lt_succ_of_lt hi))

/-- Without every nth bit the others are moved together, and nothing else is touched. -/
theorem removeBitEveryNth_eq (data : Vector UInt8 n) {position length : ℕ} (nth : ℕ)
    (h : position + length ≤ 8 * n) {kept : List Bool}
    (hkept : keptBits (fun i => bitLibGetBit data (position + i)) nth length = kept) :
    (bitLibRemoveBitEveryNth data position length nth).2 = kept.length ∧
      ∀ i < 8 * n, bitLibGetBit (bitLibRemoveBitEveryNth data position length nth).1 i =
        if position ≤ i ∧ i < position + kept.length then kept.getD (i - position) false
        else bitLibGetBit data i := by
  obtain ⟨removal, hremoval⟩ : ∃ removal, (List.range length).foldl
      (BitLibRemoval.next position nth) ⟨data, 0, 0, 0⟩ = removal := ⟨_, rfl⟩
  have hloop : removal.Keeps data position kept ∧ removal.bitCounter < 8 := by
    rw [← hremoval, ← hkept]
    exact foldl_range_of_step (P := fun count (removal : BitLibRemoval n) =>
        removal.Keeps data position
          (keptBits (fun i => bitLibGetBit data (position + i)) nth count) ∧
        removal.bitCounter < 8)
      ⟨BitLibRemoval.keeps_start, by norm_num⟩
      fun counter hcounter removal hkeeps => hkeeps.1.next hkeeps.2 (by omega)
  have hresult : bitLibRemoveBitEveryNth data position length nth =
      if removal.bitCounter ≠ 0 then
        (bitLibSetBits removal.data (position + removal.resultCounter) removal.bitBuffer
          removal.bitCounter, removal.resultCounter + removal.bitCounter)
      else (removal.data, removal.resultCounter) := by
    rw [← hremoval]
    rfl
  have hlength := length_keptBits_le (fun i => bitLibGetBit data (position + i)) nth length
  have hcount := hloop.1.count
  rw [hkept] at hlength
  rw [hresult, hcount]
  by_cases hleft : removal.bitCounter ≠ 0
  · rw [if_pos hleft]
    exact ⟨rfl, (hloop.1.flush (by omega)).written⟩
  · have hzero : removal.bitCounter = 0 := not_not.1 hleft
    rw [if_neg hleft, hzero]
    exact ⟨rfl, hloop.1.written⟩

/-! ## Parities added -/

theorem testBit_bool_32 (bit : Bool) (j : ℕ) :
    bit.toUInt32.toNat.testBit j = (decide (j = 0) && bit) := by
  cases bit with
  | false =>
    rw [Bool.and_false]
    exact Nat.zero_testBit j
  | true =>
    rw [Bool.and_true]
    cases j with
    | zero => rfl
    | succ j => exact Nat.testBit_lt_two_pow (Nat.one_lt_two_pow (Nat.succ_ne_zero j))

theorem count_true_mod_two (bits : List Bool) : bits.count true % 2 = (parityOf bits).toNat := by
  induction bits with
  | nil => rfl
  | cons bit bits ih =>
    have hcons : parityOf (bit :: bits) = (bit ^^ parityOf bits) := rfl
    rw [hcons]
    cases bit <;> cases hparity : parityOf bits <;> simp [hparity] at ih ⊢ <;> omega

namespace BitLibAddition

variable {destPosition : ℕ}

/-- The first bits of a group are written, and the last 32 of them are in the word. -/
structure Writes (addition before : BitLibAddition m) (destPosition : ℕ) (bits : ℕ → Bool)
    (count : ℕ) : Prop where
  j : addition.j = before.j + count
  bitCount : addition.bitCount = before.bitCount
  parityWord : ∀ i < 32, addition.parityWord.toNat.testBit i =
    (decide (i < count) && bits (count - 1 - i))
  dest : ∀ i < 8 * m, bitLibGetBit addition.dest i =
    if destPosition + before.j ≤ i ∧ i < destPosition + before.j + count then
      bits (i - (destPosition + before.j))
    else bitLibGetBit before.dest i

theorem Writes.addBit {addition before : BitLibAddition m} {bits : ℕ → Bool} {count : ℕ}
    (h : addition.Writes before destPosition bits count)
    (hroom : destPosition + before.j + (count + 1) ≤ 8 * m) :
    (addition.addBit destPosition (bits count)).Writes before destPosition bits (count + 1) where
  j := by rw [BitLibAddition.addBit, h.j, Nat.add_assoc]
  bitCount := h.bitCount
  parityWord := fun i hi => by
    rw [BitLibAddition.addBit]
    dsimp only
    rw [UInt32.toNat_or, Nat.testBit_or, testBit_bool_32, UInt32.toNat_shiftLeft,
      Nat.testBit_mod_two_pow, Nat.testBit_shiftLeft, decide_eq_true hi]
    cases i with
    | zero => simp
    | succ i =>
      have hword := h.parityWord i (by omega)
      have hone : (1 : UInt32).toNat % 32 = 1 := rfl
      rw [hone, Nat.add_sub_cancel, hword, decide_eq_false (Nat.succ_ne_zero i), Bool.false_and,
        Bool.or_false, decide_eq_true (by omega : i + 1 ≥ 1), Bool.true_and, Bool.true_and]
      by_cases hin : i < count
      · rw [decide_eq_true hin, decide_eq_true (by omega)]
        exact congrArg (true && bits ·) (by omega)
      · rw [decide_eq_false hin, decide_eq_false (by omega), Bool.false_and, Bool.false_and]
  dest := fun i hi => by
    have hj := h.j
    rw [BitLibAddition.addBit]
    dsimp only
    rw [getBit_setBit (by omega) _ hi, h.dest i hi]
    by_cases hlast : i = destPosition + addition.j
    · rw [if_pos hlast, if_pos (by omega)]
      exact congrArg bits (by omega)
    · rw [if_neg hlast]
      exact if_congr (by omega) rfl rfl

theorem addBits_writes {before : BitLibAddition m} (hword : before.parityWord = 0)
    (bits : ℕ → Bool) {count : ℕ} (hroom : destPosition + before.j + count ≤ 8 * m) :
    ((List.range count).foldl (fun addition bit => addition.addBit destPosition (bits bit))
      before).Writes before destPosition bits count := by
  refine foldl_range_of_step
    (P := fun count (addition : BitLibAddition m) =>
      addition.Writes before destPosition bits count) ?_
    fun i hi addition hwrites => hwrites.addBit (by omega)
  exact
    { j := rfl
      bitCount := rfl
      parityWord := fun i _ => by simp [hword]
      dest := fun i _ => (if_neg (by omega)).symm }

/-- The parity of the last 32 bits of so many. -/
def lastParity (bits : ℕ → Bool) (count : ℕ) : Bool :=
  parityOf ((List.range 32).map fun i => decide (i < count) && bits (count - 1 - i))

theorem lastParity_eq (bits : ℕ → Bool) {count : ℕ} (h : count ≤ 32) :
    lastParity bits count = parityOf ((List.range count).map bits) :=
  parityOf_reversed h fun _ _ => rfl

/-- The bit behind bits of which an odd number is set or not. -/
def bitFor (parity : BitLibParity) (odd : Bool) : Bool :=
  match parity with
  | .even => odd
  | .odd => !odd
  | .always0 => false
  | .always1 => true

theorem parityBit_eq (addition : BitLibAddition m) (parity : BitLibParity) :
    addition.parityBit parity = bitFor parity (builtinParity addition.parityWord) := by
  unfold parityBit bitFor bitLibTestParity32
  generalize builtinParity addition.parityWord = odd
  cases parity <;> cases odd <;> rfl

theorem Writes.builtinParity_eq {addition before : BitLibAddition m} {bits : ℕ → Bool}
    {count : ℕ} (h : addition.Writes before destPosition bits count) :
    builtinParity addition.parityWord = lastParity bits count := by
  rw [builtinParity, foldl_xor, lastParity]
  refine congrArg parityOf (List.map_congr_left fun i hi => ?_)
  exact h.parityWord i (List.mem_range.1 hi)

theorem group_div_mod (group : ℕ) {nth i : ℕ} (hi : i < nth) :
    (group * nth + i) / nth = group ∧ (group * nth + i) % nth = i := by
  rw [Nat.add_comm, Nat.add_mul_div_right _ _ (by omega), Nat.div_eq_of_lt hi, Nat.zero_add,
    Nat.add_mul_mod_self_right, Nat.mod_eq_of_lt hi]
  exact ⟨rfl, rfl⟩

/-- So many groups of bits are written, each with its parity. -/
structure Groups (addition : BitLibAddition m) (dest : Vector UInt8 m) (destPosition : ℕ)
    (encoded : ℕ → Bool) (nth groups : ℕ) : Prop where
  j : addition.j = groups * nth
  bitCount : addition.bitCount = groups * nth
  parityWord : addition.parityWord = 0
  dest : ∀ i < 8 * m, bitLibGetBit addition.dest i =
    if destPosition ≤ i ∧ i < destPosition + groups * nth then encoded (i - destPosition)
    else bitLibGetBit dest i

/-- The bits at the place of a group: those of it and its parity. -/
def encodedBit (bits : ℕ → Bool) (parity : BitLibParity) (nth i : ℕ) : Bool :=
  if i % nth < nth - 1 then bits (i / nth * (nth - 1) + i % nth)
  else bitFor parity (lastParity (fun bit => bits (i / nth * (nth - 1) + bit)) (nth - 1))

theorem Groups.addGroup {data : Vector UInt8 n} {position nth groups : ℕ} {dest : Vector UInt8 m}
    {bits : ℕ → Bool} {parity : BitLibParity} {addition : BitLibAddition m} (hnth : 2 ≤ nth)
    (hbits : ∀ i, bitLibGetBit data (position + i) = bits i)
    (h : addition.Groups dest destPosition (encodedBit bits parity nth) nth groups)
    (hroom : destPosition + (groups + 1) * nth ≤ 8 * m) :
    (addition.addGroup data position destPosition nth (groups * (nth - 1)) parity).Groups dest
      destPosition (encodedBit bits parity nth) nth (groups + 1) := by
  have hj := h.j
  rw [Nat.add_mul, Nat.one_mul] at hroom
  obtain ⟨written, hwritten⟩ : ∃ written, (List.range (nth - 1)).foldl (fun addition bit =>
      addition.addBit destPosition
        (bitLibGetBit data (position + groups * (nth - 1) + bit))) addition = written := ⟨_, rfl⟩
  have hwrites : written.Writes addition destPosition
      (fun bit => bits (groups * (nth - 1) + bit)) (nth - 1) := by
    rw [← hwritten]
    simp only [Nat.add_assoc, hbits]
    exact addBits_writes h.parityWord _ (by omega)
  have hj' := hwrites.j
  rw [BitLibAddition.addGroup, hwritten, parityBit_eq, hwrites.builtinParity_eq]
  exact
    { j := by dsimp only; rw [Nat.add_mul]; omega
      bitCount := by dsimp only; rw [hwrites.bitCount, h.bitCount, Nat.add_mul, Nat.one_mul]
      parityWord := rfl
      dest := fun i hi => by
        rw [getBit_setBit (by omega) _ hi, hwrites.dest i hi, h.dest i hi]
        have hmul : (groups + 1) * nth = groups * nth + nth := by rw [Nat.add_mul, Nat.one_mul]
        rw [hmul]
        by_cases hold : i < destPosition + groups * nth
        · rw [if_neg (by omega), if_neg (by omega)]
          exact if_congr (by omega) rfl rfl
        by_cases hnew : i < destPosition + groups * nth + nth
        · obtain ⟨bit, hbit⟩ : ∃ bit, i - destPosition = groups * nth + bit :=
            ⟨i - destPosition - groups * nth, by omega⟩
          obtain ⟨hdiv, hmod⟩ := @group_div_mod groups nth bit (by omega)
          rw [← hbit] at hdiv hmod
          rw [if_pos (by omega : destPosition ≤ i ∧ i < destPosition + (groups * nth + nth)),
            encodedBit, hdiv, hmod]
          by_cases hlast : i = destPosition + written.j
          · rw [if_pos hlast, if_neg (by omega)]
          · rw [if_neg hlast, if_pos (by omega), if_pos (by omega)]
            exact congrArg bits (by omega)
        · rw [if_neg (by omega), if_neg (by omega), if_neg (by omega), if_neg (by omega)] }

end BitLibAddition

namespace BitLibParity

/-- What is asked of the bits of a group by a parity. -/
def Holds (parity : BitLibParity) (group : List Bool) : Prop :=
  match parity with
  | .even => group.count true % 2 = 0
  | .odd => group.count true % 2 = 1
  | .always0 => group.getLast? = some false
  | .always1 => group.getLast? = some true

/-- A word has room for the bits of which the parity is taken. -/
def Fits (parity : BitLibParity) (parityLength : ℕ) : Prop :=
  match parity with
  | .even | .odd => parityLength ≤ 33
  | .always0 | .always1 => True

theorem holds_bitFor (parity : BitLibParity) (bits : List Bool) :
    parity.Holds (bits ++ [BitLibAddition.bitFor parity (parityOf bits)]) := by
  cases parity with
  | even =>
    have hsum : (parityOf bits ^^ (parityOf bits ^^ false)) = false := by
      rw [Bool.xor_false, Bool.xor_self]
    rw [Holds, count_true_mod_two, parityOf_append]
    exact congrArg Bool.toNat hsum
  | odd => exact (count_true_mod_two _).trans (congrArg Bool.toNat (parityOf_append_not bits))
  | always0 => simp [Holds, BitLibAddition.bitFor]
  | always1 => simp [Holds, BitLibAddition.bitFor]

theorem holds_last {parity : BitLibParity} {nth : ℕ} {bits : ℕ → Bool} (h : parity.Fits nth) :
    parity.Holds ((List.range (nth - 1)).map bits ++
      [BitLibAddition.bitFor parity (BitLibAddition.lastParity bits (nth - 1))]) := by
  have hbits := holds_bitFor parity ((List.range (nth - 1)).map bits)
  cases parity with
  | even =>
    rwa [← BitLibAddition.lastParity_eq bits (by rw [Fits] at h; omega)] at hbits
  | odd =>
    rwa [← BitLibAddition.lastParity_eq bits (by rw [Fits] at h; omega)] at hbits
  | always0 => exact hbits
  | always1 => exact hbits

end BitLibParity

/-- Parities have been added to groups of bits, nothing else has been touched, and the bits are
there again when each last bit of a group is removed. -/
structure AddsParity (data : Vector UInt8 n) (position : ℕ) (dest : Vector UInt8 m)
    (destPosition groups nth : ℕ) (parity : BitLibParity) (result : Vector UInt8 m × ℕ) : Prop where
  count : result.2 = groups * nth
  bits : ∀ group < groups, ∀ i < nth - 1,
    bitLibGetBit result.1 (destPosition + (group * nth + i)) =
      bitLibGetBit data (position + (group * (nth - 1) + i))
  parity : parity.Fits nth → ∀ group < groups, parity.Holds ((List.range nth).map fun i =>
    bitLibGetBit result.1 (destPosition + (group * nth + i)))
  others : ∀ i < 8 * m, i < destPosition ∨ destPosition + groups * nth ≤ i →
    bitLibGetBit result.1 i = bitLibGetBit dest i
  removed : (bitLibRemoveBitEveryNth result.1 destPosition (groups * nth) nth).2 =
    groups * (nth - 1)
  restored : ∀ i < groups * (nth - 1),
    bitLibGetBit (bitLibRemoveBitEveryNth result.1 destPosition (groups * nth) nth).1
      (destPosition + i) = bitLibGetBit data (position + i)

theorem addParity_groups (data : Vector UInt8 n) (position : ℕ) (dest : Vector UInt8 m)
    {destPosition groups nth : ℕ} (parity : BitLibParity) (hnth : 2 ≤ nth)
    (h : destPosition + groups * nth ≤ 8 * m) : ∃ addition : BitLibAddition m,
    addition.Groups dest destPosition
      (BitLibAddition.encodedBit (fun i => bitLibGetBit data (position + i)) parity nth) nth
      groups ∧
    bitLibAddParity data position dest destPosition (groups * (nth - 1)) nth parity =
      (addition.dest, addition.bitCount) := by
  have hwords : (groups * (nth - 1) + (nth - 2)) / (nth - 1) = groups := by
    rw [Nat.add_comm, Nat.add_mul_div_right _ _ (by omega), Nat.div_eq_of_lt (by omega),
      Nat.zero_add]
  refine ⟨_, ?_, by rw [bitLibAddParity, hwords]⟩
  refine foldl_range_of_step (P := fun groups (addition : BitLibAddition m) =>
    addition.Groups dest destPosition
      (BitLibAddition.encodedBit (fun i => bitLibGetBit data (position + i)) parity nth) nth
      groups) ?_ fun group hgroup addition hadded => hadded.addGroup hnth (fun _ => rfl) ?_
  · exact
      { j := (Nat.zero_mul nth).symm
        bitCount := (Nat.zero_mul nth).symm
        parityWord := rfl
        dest := fun i _ => (if_neg (by omega)).symm }
  · have hmul : (group + 1) * nth ≤ groups * nth := Nat.mul_le_mul_right nth hgroup
    omega

/-- A parity length of up to 33 has its parities right; with longer ones it is the parity of the
last 32 bits alone that is added. -/
theorem addParity_adds (data : Vector UInt8 n) (position : ℕ) (dest : Vector UInt8 m)
    {destPosition groups nth : ℕ} (parity : BitLibParity) (hnth : 2 ≤ nth)
    (h : destPosition + groups * nth ≤ 8 * m) :
    AddsParity data position dest destPosition groups nth parity
      (bitLibAddParity data position dest destPosition (groups * (nth - 1)) nth parity) := by
  obtain ⟨addition, hadded, hresult⟩ :=
    addParity_groups data position dest parity hnth h
  rw [hresult]
  obtain ⟨source, hsource⟩ : ∃ source : ℕ → Bool,
      (fun i => bitLibGetBit data (position + i)) = source := ⟨_, rfl⟩
  rw [hsource] at hadded
  have hgroup : ∀ group < groups, ∀ i < nth, bitLibGetBit addition.dest
      (destPosition + (group * nth + i)) =
        if i < nth - 1 then source (group * (nth - 1) + i)
        else BitLibAddition.bitFor parity (BitLibAddition.lastParity
          (fun bit => source (group * (nth - 1) + bit)) (nth - 1)) := by
    intro group hgroup i hi
    have hmul : (group + 1) * nth ≤ groups * nth := Nat.mul_le_mul_right nth hgroup
    rw [Nat.add_mul, Nat.one_mul] at hmul
    rw [hadded.dest _ (by omega), if_pos (by omega), Nat.add_sub_cancel_left,
      BitLibAddition.encodedBit, (BitLibAddition.group_div_mod group hi).1,
      (BitLibAddition.group_div_mod group hi).2]
  have hbits : ∀ group < groups, ∀ i < nth - 1, bitLibGetBit addition.dest
      (destPosition + (group * nth + i)) = source (group * (nth - 1) + i) := by
    intro group hlt i hi
    rw [hgroup group hlt i (by omega), if_pos hi]
  have hkept := @keptBits_groups (fun i => bitLibGetBit addition.dest (destPosition + i)) source nth
    hnth groups hbits
  obtain ⟨hcount, hremoved⟩ := removeBitEveryNth_eq addition.dest nth h hkept
  rw [List.length_map, List.length_range] at hcount hremoved
  exact
    { count := hadded.bitCount
      bits := fun group hlt i hi => by
        rw [hbits group hlt i hi, ← hsource]
      parity := fun hfits group hlt => by
        have hlast : (List.range nth).map (fun i => bitLibGetBit addition.dest
            (destPosition + (group * nth + i))) =
              ((List.range (nth - 1)).map fun i => source (group * (nth - 1) + i)) ++
                [BitLibAddition.bitFor parity (BitLibAddition.lastParity
                  (fun bit => source (group * (nth - 1) + bit)) (nth - 1))] := by
          rw [show List.range nth = List.range (nth - 1) ++ [nth - 1] by
            rw [← List.range_succ, Nat.succ_eq_add_one, Nat.sub_add_cancel (by omega)],
            List.map_append,
            List.map_singleton, hgroup group hlt _ (by omega), if_neg (lt_irrefl _)]
          congr 1
          exact List.map_congr_left fun i hi => hbits group hlt i (List.mem_range.1 hi)
        rw [hlast]
        exact BitLibParity.holds_last hfits
      others := fun i hi hout => by
        rw [hadded.dest i hi, if_neg (by omega)]
      removed := hcount
      restored := fun i hi => by
        have hle : groups * (nth - 1) ≤ groups * nth := Nat.mul_le_mul_left groups (Nat.sub_le _ _)
        rw [hremoved _ (by omega), if_pos (by omega), Nat.add_sub_cancel_left,
          List.getD_eq_getElem _ _ (by simpa using hi), List.getElem_map, List.getElem_range,
          ← hsource] }

/-- Two groups of four bits, of each of which the parity is odd. -/
theorem addParity_adds_two : AddsParity #v[0xB7] 0 #v[0, 0] 3 2 5 .odd
    (bitLibAddParity #v[0xB7] 0 #v[0, 0] 3 8 5 .odd) :=
  @addParity_adds 1 2 #v[0xB7] 0 #v[0, 0] 3 2 5 .odd (by decide) (by decide)

/-- Of 33 bits the first one does not count. -/
theorem not_addParity_even :
    ¬BitLibParity.Holds .even ((List.range 34).map fun i =>
      bitLibGetBit (bitLibAddParity #v[0x80, 0, 0, 0, 0] 0 #v[0, 0, 0, 0, 0] 0 33 34 .even).1 i) := by
  rw [BitLibParity.Holds]
  decide +kernel

end KiisuFirmware
