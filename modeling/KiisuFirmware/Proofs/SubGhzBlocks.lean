import KiisuFirmware.SubGhzBlocks

/-!
# The bits of words
-/

namespace KiisuFirmware

variable {w : ℕ}

theorem getLsbD_bitRead (value : BitVec w) (bit i : ℕ) :
    (bitRead value bit).getLsbD i = (decide (i = 0) && value.getLsbD bit) := by
  have hone : (1 : BitVec w).getLsbD i = (decide (0 < w) && decide (i = 0)) := BitVec.getLsbD_one
  rw [bitRead, BitVec.getLsbD_and, BitVec.getLsbD_ushiftRight, hone]
  by_cases hi : i = 0
  · subst hi
    by_cases hw : 0 < w
    · simp [hw]
    · obtain rfl : w = 0 := by omega
      simp
  · simp [hi]

theorem getLsbD_reverseKey (key : BitVec 64) : ∀ (bitCount : ℕ) (i : ℕ), i < 64 →
    (subghzProtocolBlocksReverseKey key bitCount).getLsbD i =
      (decide (i < bitCount) && key.getLsbD (bitCount - 1 - i))
  | 0, i, _ => by
    rw [decide_eq_false (by omega), Bool.false_and]
    exact BitVec.getLsbD_zero
  | bitCount + 1, i, hi => by
    have hstep : subghzProtocolBlocksReverseKey key (bitCount + 1) =
        subghzProtocolBlocksReverseKey key bitCount <<< 1 ||| bitRead key bitCount := by
      rw [subghzProtocolBlocksReverseKey, List.range_succ, List.foldl_append]
      rfl
    rw [hstep, BitVec.getLsbD_or, BitVec.getLsbD_shiftLeft, getLsbD_bitRead]
    cases i with
    | zero => simp
    | succ i =>
      rw [Nat.add_sub_cancel, getLsbD_reverseKey key bitCount i (by omega), decide_eq_true hi,
        decide_eq_false (by omega : ¬i + 1 < 1), decide_eq_false (by omega : ¬i + 1 = 0),
        show bitCount + 1 - 1 - (i + 1) = bitCount - 1 - i by omega]
      simp

theorem reverseKey_reverseKey (key : BitVec 64) :
    subghzProtocolBlocksReverseKey (subghzProtocolBlocksReverseKey key 64) 64 = key := by
  refine BitVec.eq_of_getLsbD_eq fun i hi => ?_
  rw [getLsbD_reverseKey _ _ _ hi, getLsbD_reverseKey _ _ _ (by omega), decide_eq_true hi,
    decide_eq_true (by omega), Bool.true_and, Bool.true_and, show 64 - 1 - (64 - 1 - i) = i by omega]

theorem getLsbD_of_toNat_lt {x : BitVec w} {n i : ℕ} (h : x.toNat < 2 ^ n) (hi : n ≤ i) :
    x.getLsbD i = false :=
  Nat.testBit_lt_two_pow (h.trans_le (Nat.pow_le_pow_right (by norm_num) hi))

theorem getLsbD_joinWords (high low : BitVec 32) {i : ℕ} (h : i < 64) :
    (joinWords high low).getLsbD i = if i < 32 then low.getLsbD i else high.getLsbD (i - 32) := by
  rw [joinWords, BitVec.getLsbD_or, BitVec.getLsbD_shiftLeft, BitVec.getLsbD_setWidth,
    BitVec.getLsbD_setWidth, decide_eq_true h]
  split_ifs with hlow
  · simp [hlow]
  · rw [BitVec.getLsbD_of_ge low i (by omega)]
    simp [hlow, show i - 32 < 64 by omega]

theorem joinWords_high (high low : BitVec 32) : (joinWords high low >>> 32).setWidth 32 = high := by
  refine BitVec.eq_of_getLsbD_eq fun i hi => ?_
  rw [BitVec.getLsbD_setWidth, BitVec.getLsbD_ushiftRight, getLsbD_joinWords _ _ (by omega),
    if_neg (by omega), show 32 + i - 32 = i by omega, decide_eq_true hi, Bool.true_and]

theorem joinWords_low (high low : BitVec 32) : (joinWords high low).setWidth 32 = low := by
  refine BitVec.eq_of_getLsbD_eq fun i hi => ?_
  rw [BitVec.getLsbD_setWidth, getLsbD_joinWords _ _ (by omega), if_pos hi, decide_eq_true hi,
    Bool.true_and]

theorem joinWords_inj {high low low' : BitVec 32} : joinWords high low = joinWords high low' ↔
    low = low' := by
  refine ⟨fun h => ?_, fun h => by rw [h]⟩
  have hlow := congrArg (fun word : BitVec 64 => word.setWidth 32) h
  rwa [joinWords_low, joinWords_low] at hlow

/-- The word that has these bits behind its own ones. -/
def pushBits (word : BitVec 64) (bits : List Bool) : BitVec 64 :=
  bits.foldl (fun word bit => word <<< 1 ||| (BitVec.ofBool bit).setWidth 64) word

theorem getLsbD_ofBool (bit : Bool) (i : ℕ) :
    ((BitVec.ofBool bit).setWidth 64).getLsbD i = (decide (i = 0) && bit) := by
  cases bit
  · simp
  · rw [BitVec.getLsbD_setWidth]
    show (decide (i < 64) && (1#1).getLsbD i) = _
    rw [BitVec.getLsbD_one]
    by_cases hi : i = 0
    · subst hi
      rfl
    · simp [hi]

theorem getLsbD_pushBits_keyBits (data : BitVec 64) (count : ℕ) {i : ℕ} (hi : i < 64) :
    (pushBits 0 (keyBits data count)).getLsbD i = (decide (i < count) && data.getLsbD i) := by
  have hpush : ∀ n ≤ count, ∀ i < 64, (pushBits 0 ((List.range n).map fun k =>
      data.getLsbD (count - 1 - k))).getLsbD i =
        (decide (i < n) && data.getLsbD (count - n + i)) := by
    intro n
    induction n with
    | zero =>
      intro _ i _
      rw [decide_eq_false (Nat.not_lt_zero i), Bool.false_and]
      exact BitVec.getLsbD_zero
    | succ n ih =>
      intro hn i hi
      rw [List.range_succ, List.map_append, pushBits, List.foldl_append, List.map_singleton,
        List.foldl_cons, List.foldl_nil, ← pushBits, BitVec.getLsbD_or, BitVec.getLsbD_shiftLeft,
        getLsbD_ofBool]
      rcases Nat.eq_zero_or_pos i with rfl | hpos
      · simp [show count - 1 - n = count - (n + 1) by omega]
      · rw [ih (by omega) (i - 1) (by omega),
          show count - n + (i - 1) = count - (n + 1) + i by omega,
          (decide_eq_decide.2 (by omega) : decide (i - 1 < n) = decide (i < n + 1))]
        simp [hi, show ¬i < 1 by omega, show ¬i = 0 by omega]
  rw [keyBits, hpush count le_rfl i hi, Nat.sub_self, Nat.zero_add]

theorem pushBits_keyBits_lt (data : BitVec 64) (count : ℕ) :
    (pushBits 0 (keyBits data count)).toNat < 2 ^ count := by
  refine Nat.lt_pow_two_of_testBit _ fun i hi => ?_
  change (pushBits 0 (keyBits data count)).getLsbD i = false
  by_cases hlt : i < 64
  · rw [getLsbD_pushBits_keyBits data count hlt, decide_eq_false (by omega), Bool.false_and]
  · exact BitVec.getLsbD_of_ge _ i (by omega)

theorem pushBits_keyBits_iff {data : BitVec 64} {count : ℕ} :
    pushBits 0 (keyBits data count) = data ↔ data.toNat < 2 ^ count := by
  constructor
  · intro h
    have hlt := pushBits_keyBits_lt data count
    rwa [h] at hlt
  · intro h
    refine BitVec.eq_of_getLsbD_eq fun i hi => ?_
    rw [getLsbD_pushBits_keyBits data count hi]
    by_cases hbit : i < count
    · rw [decide_eq_true hbit, Bool.true_and]
    · rw [decide_eq_false hbit, Bool.false_and, getLsbD_of_toNat_lt h (not_lt.1 hbit)]

/-- What a decoder has read of a key, and how many bits it has counted, with one more. -/
def pushBit (read : BitVec 64 × BitVec 8) (bit : Bool) : BitVec 64 × BitVec 8 :=
  (pushBits read.1 [bit], read.2 + 1)

theorem foldl_pushBit : ∀ (bits : List Bool) (read : BitVec 64 × BitVec 8),
    bits.foldl pushBit read = (pushBits read.1 bits, read.2 + BitVec.ofNat 8 bits.length)
  | [], read => by
    rw [List.length_nil, BitVec.add_zero]
    rfl
  | bit :: bits, read => by
    rw [List.foldl_cons, foldl_pushBit bits, List.length_cons, Nat.add_comm bits.length,
      BitVec.ofNat_add, ← BitVec.add_assoc]
    rfl

theorem length_keyBits (data : BitVec 64) (count : ℕ) : (keyBits data count).length = count := by
  rw [keyBits, List.length_map, List.length_range]

theorem SubGhzBlockGeneric.deserializeCheckCountBit_ok {generic generic' : SubGhzBlockGeneric}
    {file : SubGhzKeyFile} {countBit : ℕ}
    (h : generic.deserializeCheckCountBit file countBit = .ok generic') :
    ∃ key, file.key = some key ∧ generic' = { generic with dataCountBit := countBit, data := key } := by
  rw [deserializeCheckCountBit, deserialize] at h
  rcases hbit : file.bit with _ | bit <;> rcases hkey : file.key with _ | key <;>
    rw [hbit, hkey] at h
  · cases h
  · cases h
  · cases h
  · change (if bit.toNat % 2 ^ 16 ≠ countBit then _ else _) = _ at h
    split_ifs at h with hcount
    cases h
    exact ⟨key, rfl, by rw [← not_not.1 hcount]⟩

/-! ## What an encoder sends -/

namespace SubGhzProtocolBlockEncoder

theorem emission_done {encoder : SubGhzProtocolBlockEncoder} (h : encoder.repeats = 0) :
    ∀ count, encoder.emission count = []
  | 0 => rfl
  | count + 1 => by rw [emission, yield, if_pos (.inl h)]

theorem emission_left : ∀ (count : ℕ) {encoder : SubGhzProtocolBlockEncoder}
    {sent left : List LevelDuration}, encoder.isRunning = true → encoder.repeats ≠ 0 →
    encoder.sizeUpload = encoder.upload.length → encoder.upload = sent ++ left →
    encoder.front = sent.length → left ≠ [] →
    encoder.repeats * encoder.sizeUpload ≤ count + encoder.front →
    encoder.emission count = left ++ (List.replicate (encoder.repeats - 1) encoder.upload).flatten
  | count, encoder, sent, [], _, _, _, _, _, hleft, _ => absurd rfl hleft
  | 0, encoder, sent, pulse :: left, _, hrepeats, hsize, hupload, hfront, _, hcount => by
    rw [hupload, List.length_append, List.length_cons] at hsize
    have hmul := Nat.le_mul_of_pos_left encoder.sizeUpload (Nat.pos_of_ne_zero hrepeats)
    omega
  | count + 1, encoder, sent, pulse :: left, hrunning, hrepeats, hsize, hupload, hfront, _,
      hcount => by
    have hret : encoder.upload.getD encoder.front ⟨false, 0⟩ = pulse := by
      rw [hupload, hfront]
      simp
    have hsize' := hsize
    rw [hupload, List.length_append, List.length_cons] at hsize'
    have hyield : ¬(encoder.repeats = 0 ∨ encoder.isRunning = false) := by
      rw [hrunning]
      simp [hrepeats]
    rw [emission, yield, if_neg hyield, hret]
    by_cases hlast : encoder.front + 1 = encoder.sizeUpload
    · obtain rfl : left = [] := List.length_eq_zero_iff.1 (by omega)
      rw [if_pos hlast]
      dsimp only
      rw [List.singleton_append]
      congr 1
      obtain ⟨repeats, hrepeats'⟩ := Nat.exists_eq_succ_of_ne_zero hrepeats
      rw [hrepeats', Nat.succ_sub_one]
      cases repeats with
      | zero => exact emission_done rfl count
      | succ repeats =>
        have hnext := @emission_left count { encoder with front := 0, repeats := repeats + 1 } []
          encoder.upload hrunning (Nat.succ_ne_zero _) hsize rfl rfl (by rw [hupload]; simp) (by
            show (repeats + 1) * encoder.sizeUpload ≤ count + 0
            rw [hrepeats', Nat.succ_mul] at hcount
            omega)
        exact hnext
    · rw [if_neg hlast]
      dsimp only
      rw [List.cons_append]
      congr 1
      exact @emission_left count { encoder with front := encoder.front + 1 } (sent ++ [pulse]) left
        hrunning hrepeats hsize (by rw [List.append_assoc]; exact hupload)
        (by rw [List.length_append, hfront]; rfl) (by rintro rfl; simp at hsize'; omega)
        (by
          show encoder.repeats * encoder.sizeUpload ≤ count + (encoder.front + 1)
          omega)

theorem emission_eq {count : ℕ} {encoder : SubGhzProtocolBlockEncoder}
    (hrunning : encoder.isRunning = true) (hfront : encoder.front = 0)
    (hsize : encoder.sizeUpload = encoder.upload.length) (hupload : encoder.upload ≠ [])
    (hcount : encoder.repeats * encoder.sizeUpload ≤ count) :
    encoder.emission count = (List.replicate encoder.repeats encoder.upload).flatten := by
  by_cases hrepeats : encoder.repeats = 0
  · rw [emission_done hrepeats, hrepeats]
    rfl
  · rw [@emission_left count encoder [] encoder.upload hrunning hrepeats hsize rfl hfront hupload
      (by omega)]
    obtain ⟨repeats, hrepeats'⟩ := Nat.exists_eq_succ_of_ne_zero hrepeats
    rw [hrepeats', Nat.succ_sub_one, List.replicate_succ, List.flatten_cons]

theorem emitted_repeats {encoder : SubGhzProtocolBlockEncoder} (hrunning : encoder.isRunning = true)
    (hfront : encoder.front = 0) (hsize : encoder.sizeUpload = encoder.upload.length)
    (hupload : encoder.upload ≠ []) (repeats : ℕ) :
    { encoder with repeats := repeats }.emitted =
      (List.replicate repeats encoder.upload).flatten :=
  @emission_eq _ { encoder with repeats := repeats } hrunning hfront hsize hupload le_rfl

end SubGhzProtocolBlockEncoder

/-! ## What a decoder reads -/

theorem SubGhzBlockGeneric.deserialize_serialize (generic generic' : SubGhzBlockGeneric)
    (h : generic.dataCountBit < 2 ^ 16) : generic'.deserialize generic.serialize =
      .ok { generic' with dataCountBit := generic.dataCountBit, data := generic.data } := by
  have hmod : generic.dataCountBit % 2 ^ 32 % 2 ^ 16 = generic.dataCountBit := by omega
  rw [SubGhzBlockGeneric.deserialize, SubGhzBlockGeneric.serialize]
  dsimp only
  rw [BitVec.toNat_ofNat, hmod]

namespace SubGhzProtocol

variable {π φ : Type} {protocol : SubGhzProtocol π φ}

theorem readings_of_false {p q : π} {pulse : LevelDuration} (h : protocol.feed p pulse = (false, q))
    (pulses : List LevelDuration) :
    protocol.readings p (pulse :: pulses) = protocol.readings q pulses := by
  rw [readings, reads, h]
  rfl

theorem readings_of_true {p q : π} {pulse : LevelDuration} (h : protocol.feed p pulse = (true, q))
    (pulses : List LevelDuration) : protocol.readings p (pulse :: pulses) =
      ((protocol.generic q).data, (protocol.generic q).dataCountBit) ::
        protocol.readings q pulses := by
  rw [readings, reads, h]
  rfl

theorem readings_ignored {p : π} {pulses : List LevelDuration}
    (h : ∀ pulse ∈ pulses, protocol.feed p pulse = (false, p)) (rest : List LevelDuration) :
    protocol.readings p (pulses ++ rest) = protocol.readings p rest := by
  induction pulses with
  | nil => rfl
  | cons pulse pulses ih =>
    rw [List.cons_append, readings_of_false (h pulse List.mem_cons_self)]
    exact ih fun pulse hpulse => h pulse (List.mem_cons_of_mem _ hpulse)

theorem readings_flatMap {α σ : Type} {State : π → σ → Prop} {push : σ → α → σ}
    {pulses : α → List LevelDuration} (rest : List LevelDuration) : ∀ {parts : List α},
    (∀ part ∈ parts, ∀ {p : π} {s : σ}, State p s → ∃ q, State q (push s part) ∧
      ∀ rest, protocol.readings p (pulses part ++ rest) = protocol.readings q rest) →
    ∀ {p : π} {s : σ}, State p s → ∃ q, State q (parts.foldl push s) ∧
      protocol.readings p (parts.flatMap pulses ++ rest) = protocol.readings q rest
  | [], _, p, s, h => ⟨p, h, rfl⟩
  | part :: parts, hparts, p, s, h => by
    obtain ⟨next, hnext, hpart⟩ := hparts part List.mem_cons_self h
    obtain ⟨q, hq, hrest⟩ := readings_flatMap rest
      (fun part hpart => hparts part (List.mem_cons_of_mem _ hpart)) hnext
    refine ⟨q, hq, ?_⟩
    rw [List.flatMap_cons, List.append_assoc, hpart, hrest]

theorem replays_iff {atLeast : ℕ} {p : π} {encoder : SubGhzProtocolBlockEncoder}
    {reading : BitVec 64 × ℕ} (times : ℕ → ℕ)
    (hload : protocol.load (protocol.serialize p) = some encoder)
    (htimes : ∀ repeats ≥ atLeast, times repeats ≠ 0)
    (hread : ∀ (q : π) (repeats : ℕ), protocol.readings (protocol.reset q)
      { encoder with repeats := repeats }.emitted = List.replicate (times repeats) reading) :
    protocol.Replays atLeast p ↔
      reading = ((protocol.generic p).data, (protocol.generic p).dataCountBit) := by
  constructor
  · rintro ⟨encoder', hload', h⟩
    obtain rfl : encoder = encoder' := Option.some.inj (hload.symm.trans hload')
    obtain ⟨-, hall⟩ := h p atLeast le_rfl
    rw [hread] at hall
    exact hall reading (List.mem_replicate.2 ⟨htimes atLeast le_rfl, rfl⟩)
  · rintro hreading
    refine ⟨encoder, hload, fun q repeats hrepeats => ?_⟩
    rw [hread]
    refine ⟨?_, fun other hother => ?_⟩
    · rw [Ne, List.replicate_eq_nil_iff]
      exact htimes repeats hrepeats
    · rw [List.eq_of_mem_replicate hother, hreading]

theorem not_replays {atLeast : ℕ} {p : π} {encoder : SubGhzProtocolBlockEncoder}
    (hload : protocol.load (protocol.serialize p) = some encoder) (q : π)
    (hread : protocol.readings (protocol.reset q)
      { encoder with repeats := atLeast }.emitted = []) : ¬protocol.Replays atLeast p := by
  rintro ⟨encoder', hload', h⟩
  obtain rfl : encoder = encoder' := Option.some.inj (hload.symm.trans hload')
  exact (h q atLeast le_rfl).1 hread

end SubGhzProtocol

end KiisuFirmware
