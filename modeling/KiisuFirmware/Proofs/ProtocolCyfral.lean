import KiisuFirmware.ProtocolCyfral
import KiisuFirmware.Proofs.Protocol

/-!
# Cyfral keys are read as what they are

A decoder that has lost its place takes the next bit for a start nibble, reads eight nibbles and finds
that what follows is no stop nibble, and so begins one bit later in the frame until it begins where
the start nibble ends.
-/

namespace KiisuFirmware

namespace ProtocolCyfral

/-! ## What is sent -/

/-- Two bits of the data. -/
def digit (data : UInt16) (t : ℕ) : ℕ := data.toNat / 4 ^ (7 - t) % 4

theorem digit_lt (data : UInt16) (t : ℕ) : digit data t < 4 := Nat.mod_lt _ (by norm_num)

/-- A bit of the frames that are sent one after the other. -/
def bit (data : UInt16) (n : ℕ) : Bool :=
  if n % 36 < 4 then decide (n % 36 = 3)
  else decide (n % 4 ≠ digit data ((n % 36) / 4 - 1))

theorem testBit_encodeBits : ∀ d < 4, ∀ r < 4, (encodeBits d).testBit r = decide (r ≠ d) := by
  decide

theorem encodeBits_lt : ∀ d < 4, encodeBits d < 2 ^ 4 := by decide

theorem testBit_foldl_encodeBits (d : ℕ → ℕ) (hd : ∀ i, d i < 4) {r : ℕ} (hr : r < 4) :
    ∀ count t, t < count →
      ((List.range count).foldl (fun value i => 16 * value + encodeBits (d i)) 0).testBit
        (4 * t + r) = decide (r ≠ d (count - 1 - t))
  | 0, t, ht => absurd ht (Nat.not_lt_zero t)
  | count + 1, t, ht => by
    rw [List.range_succ, List.foldl_append, List.foldl_cons, List.foldl_nil]
    have hsplit := fun value => @Nat.testBit_two_pow_mul_add value (encodeBits (d count)) 4
      (encodeBits_lt _ (hd count)) (4 * t + r)
    norm_num only at hsplit
    rw [hsplit]
    cases t with
    | zero =>
      rw [if_pos (by omega), Nat.mul_zero, Nat.zero_add, testBit_encodeBits _ (hd _) _ hr]
      rfl
    | succ t =>
      rw [if_neg (by omega), show 4 * (t + 1) + r - 4 = 4 * t + r by omega,
        testBit_foldl_encodeBits d hd hr count t (by omega)]
      congr 3
      omega

theorem testBit_encoderEncode (data : UInt16) {k : ℕ} (hk : k < 32) :
    (encoderEncode data).testBit k = decide (k % 4 ≠ digit data (k / 4)) := by
  have hbit := testBit_foldl_encodeBits (fun i => data.toNat / 2 ^ (i * 2) % 4)
    (fun i => Nat.mod_lt _ (by norm_num)) (Nat.mod_lt k (by norm_num)) 8 (k / 4) (by omega)
  rw [Nat.div_add_mod] at hbit
  rw [encoderEncode, hbit, digit, Nat.mul_comm, pow_mul]
  norm_num only

/-- The half of a bit. -/
def pulse (data : UInt16) (i : ℕ) : LevelDuration := halfBit (bit data (i / 2)) (i % 2 = 1)

theorem encoderYield_eq (proto : ProtocolCyfral) (data : UInt16) (i : ℕ) :
    encoderYield { proto with encoder := ⟨encoderEncode data, i % 72⟩ } =
      (pulse data i, { proto with encoder := ⟨encoderEncode data, (i + 1) % 72⟩ }) := by
  have hbit : (if i % 72 < 8 then halfBit (decide (6 ≤ i % 72)) (i % 72 % 2 = 1)
      else halfBit ((encoderEncode data).testBit ((i % 72 - 8) % 2 ^ 8 / 2))
        ((i % 72 - 8) % 2 ^ 8 % 2 = 1)) = pulse data i := by
    unfold pulse bit
    by_cases hstart : i % 72 < 8
    · rw [if_pos hstart, if_pos (by omega)]
      congr 1 <;> exact decide_eq_decide.2 (by omega)
    · rw [if_neg hstart, if_neg (by omega), testBit_encoderEncode data (by omega)]
      congr 1
      · rw [show (i % 72 - 8) % 2 ^ 8 / 2 / 4 = i / 2 % 36 / 4 - 1 by omega,
          show (i % 72 - 8) % 2 ^ 8 / 2 % 4 = i / 2 % 4 by omega]
      · exact decide_eq_decide.2 (by omega)
  have hnext : (if i % 72 + 1 ≥ 9 * 4 * 2 then 0 else i % 72 + 1) = (i + 1) % 72 := by
    split_ifs <;> omega
  unfold encoderYield
  simp only [hbit, hnext]

theorem pulse_level (data : UInt16) (i : ℕ) : (pulse data i).level = decide (i % 2 = 1) := by
  unfold pulse halfBit
  rcases Nat.mod_two_eq_zero_or_one i with h | h <;> rw [h] <;> cases bit data (i / 2) <;> rfl

theorem levelsOver_yields (proto : ProtocolCyfral) (data : UInt16) (count : ℕ) :
    levelsOver (yields encoderYield count (encoderStart { proto with data })) =
      (List.range (count - 1)).map (pulse data) := by
  have hyields := yields_eq_map (encoderYield_eq { proto with data } data) count 0
  have hstart : encoderStart { proto with data } =
      { proto with data, encoder := ⟨encoderEncode data, 0 % 72⟩ } := rfl
  rw [hstart, hyields]
  cases count with
  | zero => rfl
  | succ count =>
    rw [List.range'_succ, List.map_cons, levelsOver, dropLast_joinTo_alternate, List.range_eq_range']
    · rfl
    · intro i
      rw [pulse_level, pulse_level, Ne, decide_eq_decide]
      omega

/-! ## Which nibbles are stop nibbles -/

variable {data : UInt16}

theorem bit_start {n : ℕ} (h : n % 36 < 4) : bit data n = decide (n % 36 = 3) := if_pos h

theorem bit_or_bit_succ {n : ℕ} (h : 4 ≤ n % 36) (hsame : n % 4 ≠ 3) :
    bit data n = true ∨ bit data (n + 1) = true := by
  unfold bit
  rw [if_neg (by omega), if_neg (by omega), show (n + 1) % 36 / 4 - 1 = n % 36 / 4 - 1 by omega]
  simp only [decide_eq_true_eq]
  omega

theorem stop_iff (n : ℕ) : bitsValue (bit data) n 4 = 1 ↔ n % 36 = 0 := by
  have hvalue : bitsValue (bit data) n 4 = 1 ↔ bit data n = false ∧ bit data (n + 1) = false ∧
      bit data (n + 2) = false ∧ bit data (n + 3) = true := by
    simp only [bitsValue, Nat.add_zero]
    cases bit data n <;> cases bit data (n + 1) <;> cases bit data (n + 2) <;>
      cases bit data (n + 3) <;> decide
  rw [hvalue]
  constructor
  · rintro ⟨hfirst, hsecond, hthird, hlast⟩
    by_contra hne
    have hpair : ∀ m, bit data m = false → bit data (m + 1) = false → 4 ≤ m % 36 → m % 4 = 3 := by
      intro m hm hm' hle
      by_contra hsame
      rcases @bit_or_bit_succ data m hle hsame with h | h
      · cases h.symm.trans hm
      · cases h.symm.trans hm'
    by_cases hdata : 4 ≤ n % 36
    · by_cases hend : n % 36 = 35
      · rw [bit_start (by omega)] at hlast
        simp only [decide_eq_true_eq] at hlast
        omega
      · have hleft := hpair n hfirst hsecond hdata
        have hright := hpair (n + 1) hsecond hthird (by omega)
        omega
    · have hthree : ∀ m, bit data m = false → m % 36 < 4 → m % 36 ≠ 3 := by
        intro m hm hlt
        rw [bit_start hlt, decide_eq_false_iff_not] at hm
        exact hm
      have h0 := hthree n hfirst (by omega)
      have h1 := hthree (n + 1) hsecond
      have h2 := hthree (n + 2) hthird
      omega
  · intro h
    rw [bit_start (by omega), bit_start (by omega), bit_start (by omega), bit_start (by omega)]
    simp only [decide_eq_false_iff_not, decide_eq_true_eq]
    omega

theorem nibbleBits_bitsValue {n : ℕ} (h : 4 ≤ n % 36) (hstart : n % 4 = 0) :
    nibbleBits (bitsValue (bit data) n 4) = some (digit data (n % 36 / 4 - 1)).toUInt16 := by
  have hbit : ∀ r < 4, bit data (n + r) = decide (r ≠ digit data (n % 36 / 4 - 1)) := by
    intro r hr
    unfold bit
    rw [if_neg (by omega), show (n + r) % 4 = r by omega,
      show (n + r) % 36 / 4 - 1 = n % 36 / 4 - 1 by omega]
  have hzero : bit data n = decide (0 ≠ digit data (n % 36 / 4 - 1)) := hbit 0 (by norm_num)
  simp only [bitsValue, Nat.add_zero, hzero, hbit 1 (by norm_num), hbit 2 (by norm_num),
    hbit 3 (by norm_num)]
  have hlt := digit_lt data (n % 36 / 4 - 1)
  generalize digit data (n % 36 / 4 - 1) = d at hlt
  interval_cases d <;> rfl

end ProtocolCyfral

namespace ProtocolCyfral

/-! ## What is read -/

variable {data : UInt16}

/-- A decoder that waits for a start nibble, whatever the encoder beside it does. -/
def Started (proto : ProtocolCyfral) : Prop := proto.decoder = .start ∧ proto.data = 0

/-- The bit at `p` has been taken for the end of a start nibble, and so many bits behind it have been
read. From the third bit of a frame on these are its data. -/
structure Reading (data : UInt16) (p j : ℕ) (proto : ProtocolCyfral) : Prop where
  bitState : proto.decoder.bitState = .waitFrontHigh
  maxPeriod : proto.decoder.maxPeriod = CyfralDecoder.start.maxPeriod
  state : proto.decoder.state = if j < 32 then .readNibble else .readStopNibble
  index : j < 32 → proto.decoder.index = j / 4
  bitIndex : proto.decoder.bitIndex = j % 4
  nibble : proto.decoder.nibble = bitsValue (bit data) (p + 1 + 4 * (j / 4)) (j % 4)
  right : p % 36 = 3 → proto.decoder.dataValid = true ∧
    proto.data.toNat = data.toNat / 4 ^ (8 - j / 4)

/-- A stop nibble has been read. -/
structure Finished (proto : ProtocolCyfral) : Prop where
  bitState : proto.decoder.bitState = .waitFrontHigh
  maxPeriod : proto.decoder.maxPeriod = CyfralDecoder.start.maxPeriod
  state : proto.decoder.state = .readStopNibble
  bitIndex : proto.decoder.bitIndex = 4

/-- Both halves of a bit are fed to a decoder. -/
def feedBit (proto : ProtocolCyfral) (bitValue : Bool) : Bool × ProtocolCyfral :=
  (proto.decoderFeed (halfBit bitValue false)).2.decoderFeed (halfBit bitValue true)

theorem decoderFeed_low (proto : ProtocolCyfral) (bitValue : Bool) :
    (proto.decoderFeed (halfBit bitValue false)).1 = false := by
  have hlow : (halfBit bitValue false).level = false := by cases bitValue <;> rfl
  unfold decoderFeed CyfralDecoder.processBit
  rw [hlow]
  cases proto.decoder.bitState <;> rfl

theorem halfBit_eq (bitValue clockPolarity : Bool) : halfBit bitValue clockPolarity =
    ⟨clockPolarity, if bitValue = clockPolarity then 5280 else 2640⟩ := by
  cases bitValue <;> cases clockPolarity <;> rfl

theorem decoderFeed_high (proto : ProtocolCyfral)
    (hstate : proto.decoder.bitState = .waitFrontLow)
    (hperiod : proto.decoder.maxPeriod = CyfralDecoder.start.maxPeriod) (bitValue : Bool)
    (hlow : proto.decoder.periodTime ≤ 5280) :
    proto.decoderFeed (halfBit bitValue true) =
      takeBit { proto with decoder := { proto.decoder with
        periodTime := proto.decoder.periodTime + if bitValue then 5280 else 2640
        bitState := .waitFrontHigh } }
        (decide (proto.decoder.periodTime ≤ if bitValue then 5281 else 2641)) := by
  have hmax : CyfralDecoder.start.maxPeriod = 14720 := rfl
  unfold decoderFeed CyfralDecoder.processBit
  rw [halfBit_eq, hstate, hperiod, hmax]
  have hmod : (proto.decoder.periodTime + if bitValue = true then 5280 else 2640) % 2 ^ 32 =
      proto.decoder.periodTime + if bitValue = true then 5280 else 2640 :=
    Nat.mod_eq_of_lt (by split_ifs <;> omega)
  have hle : (proto.decoder.periodTime + if bitValue = true then 5280 else 2640) ≤ 14720 := by
    split_ifs <;> omega
  have hhalf : (if (proto.decoder.periodTime + if bitValue = true then 5280 else 2640) / 2 >
      (if bitValue = true then 5280 else 2640) then false else true) =
      decide (proto.decoder.periodTime ≤ if bitValue = true then 5281 else 2641) := by
    split_ifs <;> simp only [Bool.false_eq, Bool.true_eq, decide_eq_false_iff_not,
      decide_eq_true_eq] <;> omega
  simp only [if_true, hmod, if_pos hle, hhalf, hperiod, hmax]

theorem feedBit_eq {proto : ProtocolCyfral} (hstate : proto.decoder.bitState = .waitFrontHigh)
    (hperiod : proto.decoder.maxPeriod = CyfralDecoder.start.maxPeriod) (bitValue : Bool) :
    proto.feedBit bitValue =
      takeBit { proto with decoder := { proto.decoder with periodTime := 7920 } } bitValue := by
  have hlow : proto.decoderFeed (halfBit bitValue false) = (false, { proto with decoder :=
      { proto.decoder with
        periodTime := if bitValue then 2640 else 5280
        bitState := .waitFrontLow } }) := by
    unfold decoderFeed CyfralDecoder.processBit
    rw [halfBit_eq, hstate]
    cases bitValue <;> rfl
  have hhigh := decoderFeed_high { proto with decoder := { proto.decoder with
      periodTime := if bitValue then 2640 else 5280
      bitState := .waitFrontLow } } rfl hperiod bitValue (by simp only; split_ifs <;> norm_num)
  unfold feedBit
  rw [hlow]
  refine hhigh.trans ?_
  cases bitValue <;> simp [hstate]

theorem Started.feedBit {proto : ProtocolCyfral} (h : Started proto) (p : ℕ) (bitValue : Bool) :
    (proto.feedBit bitValue).1 = false ∧ Reading data p 0 (proto.feedBit bitValue).2 := by
  obtain ⟨protoData, decoder, encoder⟩ := proto
  obtain ⟨rfl, rfl⟩ := h
  have hlow : decoderFeed ⟨0, .start, encoder⟩ (halfBit bitValue false) =
      (false, ⟨0, .start, encoder⟩) := by
    unfold decoderFeed CyfralDecoder.processBit
    rw [halfBit_eq]
    rfl
  have htrue : decide (CyfralDecoder.start.periodTime ≤ if bitValue then 5281 else 2641) = true :=
    decide_eq_true (Nat.zero_le _)
  have hhigh := decoderFeed_high ⟨0, .start, encoder⟩ rfl rfl bitValue (Nat.zero_le _)
  rw [htrue] at hhigh
  unfold ProtocolCyfral.feedBit
  rw [hlow]
  simp only [hhigh]
  have hzero : (0 : UInt16).toNat = data.toNat / 4 ^ 8 := by
    have hlt := data.toNat_lt
    rw [Nat.div_eq_of_lt (by omega)]
    rfl
  exact ⟨rfl, rfl, rfl, rfl, fun _ => rfl, rfl, rfl, fun _ => ⟨rfl, hzero⟩⟩

theorem toNat_shiftLeft_or {x : UInt16} (hx : x.toNat < 2 ^ 14) {d : ℕ} (hd : d < 4) :
    ((x <<< 2) ||| d.toUInt16).toNat = 4 * x.toNat + d := by
  have hsmall : (d.toUInt16).toNat = d := by
    rw [Nat.toUInt16, UInt16.toNat_ofNat']
    omega
  have hshift : (x <<< 2).toNat = x.toNat <<< 2 := by
    rw [UInt16.toNat_shiftLeft, Nat.mod_eq_of_lt]
    · rfl
    · have htwo : (2 : UInt16).toNat % 16 = 2 := rfl
      rw [htwo, Nat.shiftLeft_eq]
      omega
  rw [UInt16.toNat_or, hshift, hsmall, ← Nat.shiftLeft_add_eq_or_of_lt (by omega),
    Nat.shiftLeft_eq]
  omega

theorem div_pow_succ (data : UInt16) {t : ℕ} (ht : t < 8) :
    data.toNat / 4 ^ (8 - (t + 1)) = 4 * (data.toNat / 4 ^ (8 - t)) + digit data t := by
  unfold digit
  rw [show 8 - t = (7 - t) + 1 by omega, pow_succ, ← Nat.div_div_eq_div_mul,
    show 8 - (t + 1) = 7 - t by omega]
  omega

theorem Reading.nibbles {proto : ProtocolCyfral} {p j : ℕ} (h : Reading data p j proto)
    (hj : j < 32) :
    (proto.feedBit (bit data (p + 1 + j))).1 = false ∧
      Reading data p (j + 1) (proto.feedBit (bit data (p + 1 + j))).2 := by
  obtain ⟨hbitState, hmaxPeriod, hstate, hindex, hbitIndex, hnibble, hright⟩ := h
  rw [feedBit_eq hbitState hmaxPeriod]
  obtain ⟨protoData, ⟨state, bitState, periodTime, nibble, dataValid, index, bitIndex, maxPeriod⟩,
    encoder⟩ := proto
  simp only at hbitState hmaxPeriod hstate hindex hbitIndex hnibble hright
  rw [if_pos hj] at hstate
  replace hindex := hindex hj
  subst hbitState hmaxPeriod hstate hindex hbitIndex
  have hvalue : (2 * nibble + (bit data (p + 1 + j)).toNat) % 2 ^ 8 =
      bitsValue (bit data) (p + 1 + 4 * (j / 4)) (j % 4 + 1) := by
    have hlt := bitsValue_lt (bit data) (p + 1 + 4 * (j / 4)) (j % 4 + 1)
    have hpow : 2 ^ (j % 4 + 1) ≤ 2 ^ 4 := Nat.pow_le_pow_right (by norm_num) (by omega)
    rw [bitsValue] at hlt ⊢
    rw [show p + 1 + 4 * (j / 4) + j % 4 = p + 1 + j by omega] at hlt ⊢
    rw [hnibble, Nat.mod_eq_of_lt (by omega)]
  unfold takeBit
  simp only [hvalue]
  by_cases hfour : j % 4 + 1 = 4
  · have hnext : (j + 1) / 4 = j / 4 + 1 := by omega
    have hend : (j / 4 + 1 = 8) = ¬(j + 1 < 32) := by
      rw [eq_iff_iff]
      omega
    rw [if_pos hfour, hfour]
    cases hbits : nibbleBits (bitsValue (bit data) (p + 1 + 4 * (j / 4)) 4) with
    | none =>
      refine ⟨rfl, rfl, rfl, ?_, fun _ => hnext.symm, by simp only; omega, ?_, fun hp => ?_⟩
      · simp only [hend, ite_not]
      · simp only [show (j + 1) % 4 = 0 by omega, bitsValue]
      · rw [nibbleBits_bitsValue (by omega) (by omega)] at hbits
        cases hbits
    | some bits =>
      refine ⟨rfl, rfl, rfl, ?_, fun _ => hnext.symm, by simp only; omega, ?_, fun hp => ?_⟩
      · simp only [hend, ite_not]
      · simp only [show (j + 1) % 4 = 0 by omega, bitsValue]
      · rw [nibbleBits_bitsValue (by omega) (by omega),
          show (p + 1 + 4 * (j / 4)) % 36 / 4 - 1 = j / 4 by omega] at hbits
        cases hbits
        obtain ⟨hvalid, hdata⟩ := hright hp
        have hsmall : protoData.toNat < 2 ^ 14 := by
          have hlt := data.toNat_lt
          rw [hdata, Nat.div_lt_iff_lt_mul (by positivity)]
          have hpow : 4 ^ 1 ≤ 4 ^ (8 - j / 4) := Nat.pow_le_pow_right (by norm_num) (by omega)
          omega
        refine ⟨hvalid, ?_⟩
        simp only
        rw [toNat_shiftLeft_or hsmall (digit_lt _ _), hdata, hnext, div_pow_succ data (by omega)]
  · rw [if_neg hfour]
    have hsame : (j + 1) / 4 = j / 4 := by omega
    have hless : ¬j / 4 = 8 := by omega
    refine ⟨rfl, rfl, rfl, ?_, fun _ => hsame.symm, by simp only; omega, ?_, fun hp => ?_⟩
    · simp only [if_neg hless, if_pos (show j + 1 < 32 by omega)]
    · simp only [hsame, show (j + 1) % 4 = j % 4 + 1 by omega]
    · rw [hsame]
      exact hright hp

theorem Reading.stop {proto : ProtocolCyfral} {p j : ℕ} (h : Reading data p j proto)
    (hj : 32 ≤ j) (hj' : j < 35) :
    (proto.feedBit (bit data (p + 1 + j))).1 = false ∧
      Reading data p (j + 1) (proto.feedBit (bit data (p + 1 + j))).2 := by
  obtain ⟨hbitState, hmaxPeriod, hstate, -, hbitIndex, hnibble, hright⟩ := h
  rw [feedBit_eq hbitState hmaxPeriod]
  obtain ⟨protoData, ⟨state, bitState, periodTime, nibble, dataValid, index, bitIndex, maxPeriod⟩,
    encoder⟩ := proto
  simp only at hbitState hmaxPeriod hstate hbitIndex hnibble hright
  rw [if_neg (by omega)] at hstate
  subst hbitState hmaxPeriod hstate hbitIndex
  have hvalue : (2 * nibble + (bit data (p + 1 + j)).toNat) % 16 =
      bitsValue (bit data) (p + 1 + 4 * (j / 4)) (j % 4 + 1) := by
    have hlt := bitsValue_lt (bit data) (p + 1 + 4 * (j / 4)) (j % 4 + 1)
    have hpow : 2 ^ (j % 4 + 1) ≤ 2 ^ 4 := Nat.pow_le_pow_right (by norm_num) (by omega)
    rw [bitsValue] at hlt ⊢
    rw [show p + 1 + 4 * (j / 4) + j % 4 = p + 1 + j by omega] at hlt ⊢
    rw [hnibble, Nat.mod_eq_of_lt (by omega)]
  unfold takeBit
  simp only [hvalue]
  rw [if_pos (by omega)]
  refine ⟨rfl, rfl, rfl, ?_, fun h => absurd h (by omega), by simp only; omega, ?_, fun hp => ?_⟩
  · simp only [if_neg (show ¬j + 1 < 32 by omega)]
  · simp only [show (j + 1) / 4 = j / 4 by omega, show (j + 1) % 4 = j % 4 + 1 by omega]
  · rw [show (j + 1) / 4 = j / 4 by omega]
    exact hright hp

/-- The last bit ends a stop nibble if the data began at the first bit of a frame's data. -/
theorem Reading.last {proto : ProtocolCyfral} {p : ℕ} (h : Reading data p 35 proto) :
    if p % 36 = 3 then (proto.feedBit (bit data (p + 36))).1 = true ∧
      (proto.feedBit (bit data (p + 36))).2.data = data ∧
      Finished (proto.feedBit (bit data (p + 36))).2
    else (proto.feedBit (bit data (p + 36))).1 = false ∧
      Started (proto.feedBit (bit data (p + 36))).2 := by
  obtain ⟨hbitState, hmaxPeriod, hstate, -, hbitIndex, hnibble, hright⟩ := h
  rw [feedBit_eq hbitState hmaxPeriod]
  obtain ⟨protoData, ⟨state, bitState, periodTime, nibble, dataValid, index, bitIndex, maxPeriod⟩,
    encoder⟩ := proto
  simp only at hbitState hmaxPeriod hstate hbitIndex hnibble hright
  rw [if_neg (by omega)] at hstate
  subst hbitState hmaxPeriod hstate hbitIndex
  have hvalue : (2 * nibble + (bit data (p + 36)).toNat) % 16 = bitsValue (bit data) (p + 33) 4 := by
    have hlt := bitsValue_lt (bit data) (p + 33) 4
    rw [bitsValue] at hlt ⊢
    rw [hnibble]
    exact Nat.mod_eq_of_lt hlt
  have hstop := @stop_iff data (p + 33)
  unfold takeBit
  simp only [hvalue, hstop]
  split_ifs with hp hfour hboth hfinal
  · omega
  · obtain ⟨-, hdata⟩ := hright hp
    refine ⟨rfl, ?_, rfl, rfl, rfl, rfl⟩
    rw [← UInt16.toNat_inj, hdata]
    simp
  · exact absurd ⟨rfl, by omega, (hright hp).1⟩ hboth
  · omega
  · omega
  · exact ⟨rfl, rfl, rfl⟩

theorem Finished.feedBit {proto : ProtocolCyfral} (h : Finished proto) (bitValue : Bool) :
    (proto.feedBit bitValue).1 = false ∧ Started (proto.feedBit bitValue).2 := by
  obtain ⟨hbitState, hmaxPeriod, hstate, hbitIndex⟩ := h
  rw [feedBit_eq hbitState hmaxPeriod]
  unfold takeBit
  simp only [hstate, hbitIndex]
  exact ⟨rfl, rfl, rfl⟩

end ProtocolCyfral

namespace ProtocolCyfral

/-! ## Runs -/

section Runs

variable {data : UInt16}

/-- Where a decoder is after so many bits. -/
inductive Place (data : UInt16) : ℕ → ProtocolCyfral → Prop
  | started {n : ℕ} {proto : ProtocolCyfral} (h : Started proto) : Place data n proto
  | reading {p j : ℕ} {proto : ProtocolCyfral} (hj : j ≤ 35) (h : Reading data p j proto) :
      Place data (p + 1 + j) proto
  | finished {n : ℕ} {proto : ProtocolCyfral} (h : Finished proto) : Place data n proto

theorem Place.feedBit {n : ℕ} {proto : ProtocolCyfral} (h : Place data n proto) :
    ((proto.feedBit (bit data n)).1 = true → (proto.feedBit (bit data n)).2.data = data) ∧
      Place data (n + 1) (proto.feedBit (bit data n)).2 := by
  rcases h with ⟨hstarted⟩ | @⟨p, j, _, hj, hreading⟩ | ⟨hfinished⟩
  · obtain ⟨hfalse, hnext⟩ := @Started.feedBit data proto hstarted n (bit data n)
    exact ⟨fun htrue => Bool.noConfusion (hfalse.symm.trans htrue), .reading (by omega) hnext⟩
  · by_cases hnibbles : j < 32
    · obtain ⟨hfalse, hnext⟩ := hreading.nibbles hnibbles
      exact ⟨fun htrue => Bool.noConfusion (hfalse.symm.trans htrue), .reading (by omega) hnext⟩
    · by_cases hstop : j < 35
      · obtain ⟨hfalse, hnext⟩ := hreading.stop (by omega) hstop
        exact ⟨fun htrue => Bool.noConfusion (hfalse.symm.trans htrue), .reading (by omega) hnext⟩
      · obtain rfl : j = 35 := by omega
        have hlast := hreading.last
        split_ifs at hlast
        · exact ⟨fun _ => hlast.2.1, .finished hlast.2.2⟩
        · exact ⟨fun htrue => Bool.noConfusion (hlast.1.symm.trans htrue), .started hlast.2⟩
  · obtain ⟨hfalse, hnext⟩ := hfinished.feedBit (bit data n)
    exact ⟨fun htrue => Bool.noConfusion (hfalse.symm.trans htrue), .started hnext⟩

/-- The decoder after so many bits of a key with this data. -/
def afterBits (data : UInt16) (proto : ProtocolCyfral) (n : ℕ) : ProtocolCyfral :=
  stateAfter decoderFeed proto.decoderStart ((List.range (2 * n)).map (pulse data))

variable (proto : ProtocolCyfral)

theorem pulse_even (n : ℕ) : pulse data (2 * n) = halfBit (bit data n) false := by
  unfold pulse
  rw [show 2 * n / 2 = n by omega, show 2 * n % 2 = 0 by omega]
  rfl

theorem pulse_odd (n : ℕ) : pulse data (2 * n + 1) = halfBit (bit data n) true := by
  unfold pulse
  rw [show (2 * n + 1) / 2 = n by omega, show (2 * n + 1) % 2 = 1 by omega]
  rfl

theorem afterBits_succ (n : ℕ) :
    afterBits data proto (n + 1) = ((afterBits data proto n).feedBit (bit data n)).2 := by
  unfold afterBits
  rw [show 2 * (n + 1) = 2 * n + 1 + 1 by omega, stateAfter_range_succ, stateAfter_range_succ,
    pulse_even, pulse_odd]
  rfl

theorem started_afterBits : Started (afterBits data proto 0) := ⟨rfl, rfl⟩

theorem place_afterBits : ∀ n, Place data n (afterBits data proto n)
  | 0 => .started (started_afterBits proto)
  | n + 1 => by
    rw [afterBits_succ]
    exact (place_afterBits n).feedBit.2

theorem reading_afterBits {p : ℕ} (h : Started (afterBits data proto p)) :
    ∀ j ≤ 35, Reading data p j (afterBits data proto (p + 1 + j))
  | 0, _ => by
    rw [Nat.add_zero, afterBits_succ]
    exact (h.feedBit p _).2
  | j + 1, hj => by
    have hreading := reading_afterBits h j (by omega)
    rw [← Nat.add_assoc, afterBits_succ]
    by_cases hnibbles : j < 32
    · exact (hreading.nibbles hnibbles).2
    · exact (hreading.stop (by omega) (by omega)).2

theorem started_later {p : ℕ} (h : Started (afterBits data proto p)) (hp : p % 36 ≠ 3) :
    Started (afterBits data proto (p + 37)) := by
  have hlast := (reading_afterBits proto h 35 le_rfl).last
  rw [if_neg hp] at hlast
  rw [show p + 37 = p + 1 + 35 + 1 by omega, afterBits_succ]
  exact hlast.2

theorem answered_last {p : ℕ} (h : Started (afterBits data proto p)) (hp : p % 36 = 3) :
    ((afterBits data proto (p + 36)).feedBit (bit data (p + 36))).1 = true := by
  have hlast := (reading_afterBits proto h 35 le_rfl).last
  rw [if_pos hp] at hlast
  exact hlast.1

theorem mem_reads_pulse {count : ℕ} {d : UInt16} :
    d ∈ reads decoderFeed ProtocolCyfral.data proto.decoderStart
      ((List.range count).map (pulse data)) ↔
    ∃ n, 2 * n + 1 < count ∧ ((afterBits data proto n).feedBit (bit data n)).1 = true ∧
      ((afterBits data proto n).feedBit (bit data n)).2.data = d := by
  rw [mem_reads_range]
  constructor
  · rintro ⟨t, ht, hresult, hdata⟩
    obtain ⟨n, rfl | rfl⟩ := Nat.even_or_odd' t
    · rw [pulse_even, decoderFeed_low] at hresult
      cases hresult
    · refine ⟨n, ht, ?_⟩
      rw [stateAfter_range_succ, pulse_even, pulse_odd] at hresult hdata
      exact ⟨hresult, hdata⟩
  · rintro ⟨n, hn, hresult, hdata⟩
    refine ⟨2 * n + 1, hn, ?_⟩
    rw [stateAfter_range_succ, pulse_even, pulse_odd]
    exact ⟨hresult, hdata⟩

theorem roundTrips (data : UInt16) (decoding encoding : ProtocolCyfral) :
    base.RoundTrips decoding encoding data (5 * 72) := by
  have hreceived : ∀ count, base.received decoding encoding data count =
      reads decoderFeed ProtocolCyfral.data decoding.decoderStart
        ((List.range (count - 1)).map (pulse data)) :=
    fun count => congrArg _ (levelsOver_yields encoding data count)
  refine ⟨fun count reading hreading => ?_, fun hempty => ?_⟩
  · rw [hreceived, mem_reads_pulse] at hreading
    obtain ⟨n, -, hresult, rfl⟩ := hreading
    exact (place_afterBits decoding n).feedBit.1 hresult
  · have hfirst := started_later decoding (@started_afterBits data decoding) (by norm_num)
    have hsecond := started_later decoding hfirst (by norm_num)
    have hthird := started_later decoding hsecond (by norm_num)
    have hanswered := answered_last decoding hthird (by norm_num)
    have hmem := (@mem_reads_pulse data decoding (5 * 72 - 1) _).2
      ⟨147, by norm_num, hanswered, rfl⟩
    rw [hreceived] at hempty
    rw [hempty] at hmem
    cases hmem

end Runs

/-! ## Starts -/

theorem decoderFeed_encoder (data : UInt16) (decoder : CyfralDecoder)
    (encoder encoder' : CyfralEncoder) (pulse : LevelDuration) :
    decoderFeed ⟨data, decoder, encoder⟩ pulse =
      ((decoderFeed ⟨data, decoder, encoder'⟩ pulse).1,
        { (decoderFeed ⟨data, decoder, encoder'⟩ pulse).2 with encoder }) := by
  unfold decoderFeed takeBit
  obtain ⟨bit, decoder'⟩ := decoder.processBit pulse.level pulse.duration
  rcases bit with _ | _ | bitValue
  · rfl
  · rfl
  · simp only
    cases decoder'.state with
    | waitStartNibble =>
      simp only
      split_ifs <;> rfl
    | readNibble =>
      simp only
      by_cases hfour : decoder'.bitIndex + 1 = 4
      · rw [if_pos hfour, if_pos hfour]
        cases nibbleBits ((2 * decoder'.nibble + bitValue.toNat) % 2 ^ 8) <;> rfl
      · rw [if_neg hfour, if_neg hfour]
    | readStopNibble =>
      simp only
      split_ifs <;> rfl

theorem answers_decoderStart (proto proto' : ProtocolCyfral) (pulses : List LevelDuration) :
    decoderAnswers decoderFeed ProtocolCyfral.data proto.decoderStart pulses =
      decoderAnswers decoderFeed ProtocolCyfral.data proto'.decoderStart pulses := by
  refine answers_congr (R := fun p q => p.data = q.data ∧ p.decoder = q.decoder) ?_ pulses _ _
    ⟨rfl, rfl⟩
  rintro ⟨data, decoder, encoder⟩ ⟨_, _, encoder'⟩ pulse ⟨rfl, rfl⟩
  rw [decoderFeed_encoder data decoder encoder encoder' pulse]
  exact ⟨rfl, rfl, rfl, rfl⟩

end ProtocolCyfral

end KiisuFirmware
