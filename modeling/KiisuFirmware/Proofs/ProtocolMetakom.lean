import KiisuFirmware.ProtocolMetakom
import KiisuFirmware.Proofs.Protocol
import KiisuFirmware.Proofs.ProtocolCyfral

/-!
# Metakom keys are read as what they are

Wherever in a frame ten bits are measured, their period tells the long level at the end of a frame
from the others, and the bits of a key from each other.
-/

namespace KiisuFirmware

namespace ProtocolMetakom

/-! ## What is sent -/

/-- A bit of the frames that are sent one after the other. -/
def bit (data : UInt32) (n : ℕ) : Bool :=
  if n % 35 < 3 then decide (n % 35 = 1) else data.toNat.testBit (34 - n % 35)

/-- What is sent, level by level. -/
def pulse (data : UInt32) (i : ℕ) : LevelDuration :=
  if i % 71 = 0 then ⟨false, METAKOM_PERIOD⟩
  else halfBit (bit data (35 * (i / 71) + (i % 71 - 1) / 2)) (i % 2 = i / 71 % 2)

/-- The second half of a bit, which the last one of a frame shares with the level that follows. -/
def secondHalf (data : UInt32) (n : ℕ) : LevelDuration :=
  ⟨false, (halfBit (bit data n) true).duration + if n % 35 = 34 then METAKOM_PERIOD else 0⟩

/-- The levels on the line. -/
def edge (data : UInt32) : ℕ → LevelDuration
  | 0 => ⟨false, METAKOM_PERIOD⟩
  | e + 1 => if e % 2 = 0 then halfBit (bit data (e / 2)) false else secondHalf data (e / 2)

theorem halfBit_eq (bitValue clockPolarity : Bool) : halfBit bitValue clockPolarity =
    ⟨!clockPolarity, if bitValue = clockPolarity then 2640 else 5280⟩ := by
  cases bitValue <;> cases clockPolarity <;> rfl

theorem encoderYield_eq (proto : ProtocolMetakom) (data : UInt32) (i : ℕ) :
    encoderYield { proto with data, encoderIndex := i % 71 } =
      (pulse data i, { proto with data, encoderIndex := (i + 1) % 71 }) := by
  have hbit : (if i % 71 = 0 then ⟨false, METAKOM_PERIOD⟩
      else if i % 71 ≤ 6 then halfBit (i % 71 = 3 || i % 71 = 4) (i % 71 % 2 = 0)
      else halfBit (data.toNat.testBit (32 - 1 - (i % 71 - 7) % 2 ^ 8 / 2))
        ((i % 71 - 7) % 2 ^ 8 % 2 = 1)) = pulse data i := by
    unfold pulse bit
    by_cases hsync : i % 71 = 0
    · rw [if_pos hsync, if_pos hsync]
    rw [if_neg hsync, if_neg hsync]
    by_cases hstart : i % 71 ≤ 6
    · rw [if_pos hstart, if_pos (by omega)]
      congr 1
      · rw [← Bool.decide_or]
        exact decide_eq_decide.2 (by omega)
      · exact decide_eq_decide.2 (by omega)
    · rw [if_neg hstart, if_neg (by omega)]
      congr 1
      · congr 1
        omega
      · exact decide_eq_decide.2 (by omega)
  have hnext : (if i % 71 + 1 ≥ 1 + 3 * 2 + 32 * 2 then 0 else i % 71 + 1) = (i + 1) % 71 := by
    split_ifs <;> omega
  unfold encoderYield
  simp only [hbit, hnext]

/-- The level on the line that goes on when so many were sent. -/
def carry (data : UInt32) (i : ℕ) : LevelDuration :=
  if i % 71 = 0 then edge data (i - i / 71) else pulse data i

theorem pulse_eq_edge (data : UInt32) {i : ℕ} (h : i % 71 ≠ 0) (h' : i % 71 ≠ 70) :
    pulse data i = edge data (i - i / 71) := by
  obtain ⟨e, he⟩ : ∃ e, i - i / 71 = e + 1 := ⟨i - i / 71 - 1, by omega⟩
  rw [he, edge, pulse, if_neg h, show e / 2 = 35 * (i / 71) + (i % 71 - 1) / 2 by omega]
  split_ifs with heven
  · congr 1
    exact decide_eq_false (by omega)
  · unfold secondHalf
    rw [if_neg (by omega), show decide (i % 2 = i / 71 % 2) = true from decide_eq_true (by omega),
      halfBit_eq]
    rfl

theorem pulse_level (data : UInt32) (i : ℕ) :
    (pulse data i).level = (decide (i % 71 ≠ 0) && decide (i % 2 ≠ i / 71 % 2)) := by
  unfold pulse
  split_ifs with h
  · simp [h]
  · rw [halfBit_eq]
    simp [h]

theorem dropLast_joinTo_carry (data : UInt32) : ∀ count i,
    (joinTo (carry data i) ((List.range' (i + 1) count).map (pulse data))).dropLast =
      (List.range' (i - i / 71) (count - ((i + count) / 71 - i / 71))).map (edge data)
  | 0, i => by simp [joinTo]
  | count + 1, i => by
    rw [List.range'_succ, List.map_cons]
    have ih := dropLast_joinTo_carry data count (i + 1)
    by_cases hsync : (i + 1) % 71 = 0
    · have hcarry : carry data i = pulse data i := if_neg (by omega)
      have hnext : pulse data (i + 1) = ⟨false, METAKOM_PERIOD⟩ := if_pos hsync
      have hlevel : (pulse data i).level = false := by
        rw [pulse_level, Bool.and_eq_false_iff]
        exact .inr (decide_eq_false (by omega))
      have hjoined : (⟨(pulse data i).level, (pulse data i).duration + METAKOM_PERIOD⟩ :
          LevelDuration) = carry data (i + 1) := by
        obtain ⟨e, he⟩ : ∃ e, i + 1 - (i + 1) / 71 = e + 1 := ⟨i + 1 - (i + 1) / 71 - 1, by omega⟩
        rw [carry, if_pos hsync, he, edge, if_neg (by omega), hlevel, pulse, if_neg (by omega),
          secondHalf, if_pos (by omega), show decide (i % 2 = i / 71 % 2) = true from
          decide_eq_true (by omega), show e / 2 = 35 * (i / 71) + (i % 71 - 1) / 2 by omega]
      rw [hcarry, hnext, dropLast_joinTo_same (by rw [hlevel]), hjoined, ih]
      congr 2 <;> omega
    · have hcarry : carry data i = edge data (i - i / 71) := by
        unfold carry
        split_ifs with hzero
        · rfl
        · exact pulse_eq_edge data hzero (by omega)
      have hnext : carry data (i + 1) = pulse data (i + 1) := if_neg hsync
      have hlevel : (pulse data (i + 1)).level ≠ (carry data i).level := by
        have hthis : (carry data i).level = (pulse data i).level := by
          unfold carry
          split_ifs with hzero
          · rw [pulse_level, decide_eq_false (by omega), Bool.false_and]
            cases hi : i - i / 71 with
            | zero => rfl
            | succ e =>
              rw [edge, if_neg (by omega)]
              rfl
          · rfl
        have hframe : (i + 1) / 71 = i / 71 := by omega
        rw [hthis, pulse_level, pulse_level, hframe, Ne, Bool.eq_iff_iff]
        simp only [Bool.and_eq_true, decide_eq_true_eq]
        have hsplit := Nat.div_add_mod i 71
        by_cases hzero : i % 71 = 0
        · omega
        · omega
      rw [dropLast_joinTo_ne hlevel, ← hnext, ih, hcarry,
        show count + 1 - ((i + (count + 1)) / 71 - i / 71) =
          (count - ((i + 1 + count) / 71 - (i + 1) / 71)) + 1 by omega, List.range'_succ,
        List.map_cons, show i + 1 - (i + 1) / 71 = i - i / 71 + 1 by omega]

theorem levelsOver_yields (proto : ProtocolMetakom) (data : UInt32) (count : ℕ) :
    levelsOver (yields encoderYield count (encoderStart { proto with data })) =
      (List.range (count - 1 - (count - 1) / 71)).map (edge data) := by
  have hyields := yields_eq_map (encoderYield_eq proto data) count 0
  have hstart : encoderStart { proto with data } = { proto with data, encoderIndex := 0 % 71 } := rfl
  rw [hstart, hyields]
  cases count with
  | zero => rfl
  | succ count =>
    have hjoin := dropLast_joinTo_carry data count 0
    have hfirst : carry data 0 = pulse data 0 := rfl
    rw [hfirst] at hjoin
    rw [List.range'_succ, List.map_cons, levelsOver, hjoin, List.range_eq_range']
    simp

end ProtocolMetakom

namespace ProtocolMetakom

/-! ## What a bit does -/

variable {data : UInt32}

/-- All bytes have an even number of ones. -/
def EvenBytes (data : UInt32) : Prop :=
  ∀ t < 4, Even ((List.range 8).countP fun i => data.toNat.testBit (8 * t + i))

/-- How long the low level of a bit is, with that at the end of a frame. -/
def lowDuration (data : UInt32) (n : ℕ) : ℕ := (secondHalf data n).duration

theorem lowDuration_eq (data : UInt32) (n : ℕ) : lowDuration data n =
    (if bit data n then 2640 else 5280) + if n % 35 = 34 then 8000 else 0 := by
  unfold lowDuration secondHalf
  rw [halfBit_eq]
  rfl

/-- Both halves of a bit are fed to a decoder. -/
def feedBit (data : UInt32) (proto : ProtocolMetakom) (n : ℕ) : Bool × ProtocolMetakom :=
  (proto.decoderFeed (halfBit (bit data n) false)).2.decoderFeed (secondHalf data n)

theorem decoderFeed_high (proto : ProtocolMetakom) (bitValue : Bool) :
    (proto.decoderFeed (halfBit bitValue false)).1 = false := by
  unfold decoderFeed MetakomDecoder.processBit
  rw [halfBit_eq]
  cases proto.decoder.bitState <;> rfl

/-- The first half of a bit has been fed. -/
def heard (data : UInt32) (proto : ProtocolMetakom) (n : ℕ) : ProtocolMetakom :=
  { proto with decoder := { proto.decoder with
    lowTimeStorage := if bit data n then 5280 else 2640 } }

theorem feedBit_eq {proto : ProtocolMetakom} (hstate : proto.decoder.bitState = .waitFrontHigh)
    (n : ℕ) : feedBit data proto n =
      (heard data proto n).takeBit (lowDuration data n) (if bit data n then 5280 else 2640) := by
  obtain ⟨protoData, ⟨periodTime, lowTimeStorage, periodSampleIndex, periodSampleData, tmpData,
    tmpCounter, keyDataIndex, bitState, state⟩, encoderIndex⟩ := proto
  simp only at hstate
  subst hstate
  unfold feedBit heard decoderFeed MetakomDecoder.processBit
  rw [halfBit_eq]
  cases bit data n <;> rfl

/-- A decoder that waits for ten bits, whatever the encoder beside it does. -/
def Started (proto : ProtocolMetakom) : Prop := proto.decoder = .start ∧ proto.data = 0

theorem feedBit_started {proto : ProtocolMetakom} (h : Started proto) (n : ℕ) :
    feedBit data proto n = takeBit { proto with decoder := { MetakomDecoder.start with
      bitState := .waitFrontHigh } } (lowDuration data n) 0 := by
  obtain ⟨protoData, decoder, encoderIndex⟩ := proto
  obtain ⟨rfl, rfl⟩ := h
  unfold feedBit decoderFeed MetakomDecoder.processBit
  rw [halfBit_eq]
  rfl

theorem toNat_shiftLeft_or_bit {x : UInt8} (hx : x.toNat < 2 ^ 7) (b : Bool) :
    ((x <<< 1) ||| (if b then 1 else 0)).toNat = 2 * x.toNat + b.toNat := by
  have hshift : (x <<< 1).toNat = x.toNat <<< 1 := by
    rw [UInt8.toNat_shiftLeft, Nat.mod_eq_of_lt]
    · rfl
    · have hone : (1 : UInt8).toNat % 8 = 1 := rfl
      rw [hone, Nat.shiftLeft_eq]
      omega
  have hbit : (if b then 1 else 0 : UInt8).toNat = b.toNat := by cases b <;> rfl
  rw [UInt8.toNat_or, hshift, hbit, ← Nat.shiftLeft_add_eq_or_of_lt (by cases b <;> decide),
    Nat.shiftLeft_eq]
  omega

theorem toNat_shiftLeft_or_byte {x : UInt32} (hx : x.toNat < 2 ^ 24) (byte : UInt8) :
    ((x <<< 8) ||| byte.toUInt32).toNat = 2 ^ 8 * x.toNat + byte.toNat := by
  have hshift : (x <<< 8).toNat = x.toNat <<< 8 := by
    rw [UInt32.toNat_shiftLeft, Nat.mod_eq_of_lt]
    · rfl
    · have height : (8 : UInt32).toNat % 32 = 8 := rfl
      rw [height, Nat.shiftLeft_eq]
      omega
  have hbyte := byte.toNat_lt
  rw [UInt32.toNat_or, hshift, UInt8.toNat_toUInt32,
    ← Nat.shiftLeft_add_eq_or_of_lt (by omega), Nat.shiftLeft_eq]
  omega

/-- A period that tells the levels from each other. -/
def Tells (periodTime : ℕ) : Prop := 7392 ≤ periodTime ∧ periodTime ≤ 8720

/-- A decoder that has put a bit behind those before it. -/
structure Pushed (data : UInt32) (metakom : MetakomDecoder) (position count : ℕ)
    (pushed : MetakomDecoder) : Prop where
  bitState : pushed.bitState = metakom.bitState
  state : pushed.state = metakom.state
  periodTime : pushed.periodTime = metakom.periodTime
  keyDataIndex : pushed.keyDataIndex = metakom.keyDataIndex
  tmpData : pushed.tmpData.toNat = bitsValue (bit data) position (count + 1)
  tmpCounter : pushed.tmpCounter.toNat = count + 1

theorem Pushed.of_heard {proto : ProtocolMetakom} (hperiod : Tells proto.decoder.periodTime)
    {n count : ℕ} (hcount : count < 8) (hn : count ≤ n)
    (htmpData : proto.decoder.tmpData.toNat = bitsValue (bit data) (n - count) count)
    (htmpCounter : proto.decoder.tmpCounter.toNat = count) :
    Pushed data proto.decoder (n - count) count
      ((heard data proto n).decoder.pushBit (if bit data n then 5280 else 2640)) := by
  have hlt := bitsValue_lt (bit data) (n - count) count
  have hpow : 2 ^ count ≤ 2 ^ 7 := Nat.pow_le_pow_right (by norm_num) (by omega)
  have hbit : (if (if bit data n then 5280 else 2640) < (heard data proto n).decoder.periodTime / 2
      then 0 else 1 : UInt8) = if bit data n then 1 else 0 := by
    obtain ⟨hlow, hhigh⟩ : Tells (heard data proto n).decoder.periodTime := hperiod
    cases bit data n
    · simp only [Bool.false_eq_true, if_false]
      rw [if_pos (by omega)]
    · simp only [if_true]
      rw [if_neg (by omega)]
  unfold MetakomDecoder.pushBit
  rw [hbit]
  refine ⟨rfl, rfl, rfl, rfl, ?_, ?_⟩
  · have hshift := toNat_shiftLeft_or_bit (show proto.decoder.tmpData.toNat < 2 ^ 7 by omega)
      (bit data n)
    rw [htmpData] at hshift
    rw [bitsValue, Nat.sub_add_cancel hn]
    exact hshift
  · have hcounter : (proto.decoder.tmpCounter + 1).toNat = count + 1 := by
      rw [UInt8.toNat_add, htmpCounter]
      exact Nat.mod_eq_of_lt (by omega : count + 1 < 256)
    exact hcounter

theorem bitsValue_bit {p i : ℕ} (hp : p % 35 = 3 + i) : ∀ count, i + count ≤ 32 →
    bitsValue (bit data) p count = data.toNat / 2 ^ (32 - i - count) % 2 ^ count
  | 0, _ => by simp [bitsValue, Nat.mod_one]
  | count + 1, hcount => by
    have hbit : (bit data (p + count)).toNat = data.toNat / 2 ^ (32 - i - (count + 1)) % 2 := by
      unfold bit
      rw [if_neg (by omega), Nat.toNat_testBit,
        show 34 - (p + count) % 35 = 32 - i - (count + 1) by omega]
    rw [bitsValue, bitsValue_bit hp count (by omega), hbit,
      show 32 - i - count = 32 - i - (count + 1) + 1 by omega, pow_succ 2 (32 - i - (count + 1)),
      ← Nat.div_div_eq_div_mul, pow_succ', Nat.mod_mul]
    omega

theorem parityCheck_byte (heven : EvenBytes data) {t : ℕ} (ht : t < 4) {byte : UInt8}
    (hbyte : byte.toNat = data.toNat / 2 ^ (8 * t) % 2 ^ 8) : parityCheck byte = true := by
  have hcount : ((List.range 8).filter fun i => byte.toNat.testBit i).length =
      (List.range 8).countP fun i => data.toNat.testBit (8 * t + i) := by
    rw [List.countP_eq_length_filter]
    congr 1
    refine List.filter_congr fun i hi => ?_
    rw [hbyte, Nat.testBit_mod_two_pow, Nat.testBit_div_two_pow,
      decide_eq_true (List.mem_range.1 hi), Bool.true_and, Nat.add_comm]
  unfold parityCheck
  rw [hcount, beq_iff_eq]
  exact Nat.even_iff.1 (heven t ht)

end ProtocolMetakom

namespace ProtocolMetakom

/-! ## What is read -/

variable {data : UInt32}

/-- Some bits have been measured; at most one of them ends a frame. -/
structure Sync (n k : ℕ) (proto : ProtocolMetakom) : Prop where
  bitState : proto.decoder.bitState = .waitFrontHigh
  state : proto.decoder.state = .waitPeriodSync
  idle : proto.decoder.periodTime = 0 ∧ proto.decoder.tmpData = 0 ∧ proto.decoder.tmpCounter = 0 ∧
    proto.decoder.keyDataIndex = 0 ∧ proto.data = 0
  index : proto.decoder.periodSampleIndex = k
  samples : ∃ samples : List ℕ, samples.length = k ∧
    proto.decoder.periodSampleData.toList = samples ++ List.replicate (10 - k) 0 ∧
    7920 * k ≤ samples.sum + 5280 ∧
    samples.sum ≤ 7920 * k + if n % 35 < k then 8000 else 0

/-- The period is known, and the end of the frame has not come yet. -/
structure Wait (n c : ℕ) (proto : ProtocolMetakom) : Prop where
  bitState : proto.decoder.bitState = .waitFrontHigh
  state : proto.decoder.state = .waitStartBit
  period : Tells proto.decoder.periodTime
  idle : proto.decoder.tmpData = 0 ∧ proto.decoder.keyDataIndex = 0 ∧ proto.data = 0
  counter : proto.decoder.tmpCounter.toNat = c
  inFrame : c ≤ n % 35

/-- A part of a start word has been read, at the beginning of a frame. -/
structure StartWord (data : UInt32) (n c : ℕ) (proto : ProtocolMetakom) : Prop where
  bitState : proto.decoder.bitState = .waitFrontHigh
  state : proto.decoder.state = .waitStartWord
  period : Tells proto.decoder.periodTime
  idle : proto.decoder.keyDataIndex = 0 ∧ proto.data = 0
  place : n % 35 = c
  tmpCounter : proto.decoder.tmpCounter.toNat = c
  tmpData : proto.decoder.tmpData.toNat = bitsValue (bit data) (n - c) c

/-- So many bits of the data have been read. -/
structure ReadWord (data : UInt32) (n i : ℕ) (proto : ProtocolMetakom) : Prop where
  bitState : proto.decoder.bitState = .waitFrontHigh
  state : proto.decoder.state = .readWord
  period : Tells proto.decoder.periodTime
  place : n % 35 = 3 + i
  keyDataIndex : proto.decoder.keyDataIndex = i / 8
  tmpCounter : proto.decoder.tmpCounter.toNat = i % 8
  tmpData : proto.decoder.tmpData.toNat = bitsValue (bit data) (n - i % 8) (i % 8)
  known : proto.data.toNat = data.toNat / 2 ^ (32 - 8 * (i / 8))

/-- The data has been read. -/
structure ReadStop (data : UInt32) (proto : ProtocolMetakom) : Prop where
  bitState : proto.decoder.bitState = .waitFrontHigh
  state : proto.decoder.state = .readStopWord
  known : proto.data = data

/-- And a part of the stop word. -/
structure StopWord (data : UInt32) (n c : ℕ) (proto : ProtocolMetakom) : Prop where
  period : Tells proto.decoder.periodTime
  place : n % 35 = c
  tmpCounter : proto.decoder.tmpCounter.toNat = c
  tmpData : proto.decoder.tmpData.toNat = bitsValue (bit data) (n - c) c

theorem bitsValue_start {n : ℕ} (hn : n % 35 = 0) : bitsValue (bit data) n 3 = 0b010 := by
  have hbit : ∀ i < 3, bit data (n + i) = decide (i = 1) := by
    intro i hi
    unfold bit
    rw [if_pos (by omega)]
    exact decide_eq_decide.2 (by omega)
  simp only [bitsValue, hbit 0 (by norm_num), hbit 1 (by norm_num), hbit 2 (by norm_num)]
  rfl

theorem foldl_samples {M : ℕ} : ∀ (samples : List ℕ) (start : ℕ), start + samples.sum < M →
    samples.foldl (fun sum sample => (sum + sample) % M) start = start + samples.sum
  | [], start, _ => rfl
  | sample :: samples, start, h => by
    rw [List.sum_cons] at h
    rw [List.foldl_cons, Nat.mod_eq_of_lt (by omega), foldl_samples samples _ (by omega),
      List.sum_cons, Nat.add_assoc]

theorem Sync.takeBit {n k : ℕ} {proto : ProtocolMetakom} (h : Sync n k proto) (hk : k < 10)
    {highTime lowTime : ℕ} (hsum : ∀ sum, 7920 * k ≤ sum + 5280 →
      sum ≤ 7920 * k + (if n % 35 < k then 8000 else 0) →
      7920 * (k + 1) ≤ sum + (highTime + lowTime) + 5280 ∧
      sum + (highTime + lowTime) ≤ 7920 * (k + 1) + if (n + 1) % 35 < k + 1 then 8000 else 0) :
    (proto.takeBit highTime lowTime).1 = false ∧
      if k + 1 = 10 then Wait (n + 1) 0 (proto.takeBit highTime lowTime).2
      else Sync (n + 1) (k + 1) (proto.takeBit highTime lowTime).2 := by
  obtain ⟨hbitState, hstate, ⟨hperiod, htmpData, htmpCounter, hkey, hdata⟩, hindex, samples,
    hlength, hlist, hle, hge⟩ := h
  obtain ⟨hle', hge'⟩ := hsum _ hle hge
  have hsmall : samples.sum + (highTime + lowTime) < 2 ^ 32 := by
    split_ifs at hge' <;> omega
  have hset : (proto.decoder.periodSampleData.setIfInBounds k
      ((highTime + lowTime) % 2 ^ 32)).toList =
      (samples ++ [highTime + lowTime]) ++ List.replicate (10 - (k + 1)) 0 := by
    rw [Nat.mod_eq_of_lt (by omega), Vector.toList_setIfInBounds, hlist,
      show 10 - k = 10 - (k + 1) + 1 by omega, List.replicate_succ, ← hlength,
      List.set_append_right _ _ le_rfl, Nat.sub_self, List.set_cons_zero, List.append_assoc]
    rfl
  have hsums : (samples ++ [highTime + lowTime]).sum = samples.sum + (highTime + lowTime) := by
    rw [List.sum_append, List.sum_singleton]
  unfold ProtocolMetakom.takeBit
  simp only [hstate, hindex]
  split_ifs with hten hten' hten'
  · refine ⟨rfl, hbitState, rfl, ?_, ⟨htmpData, hkey, hdata⟩, ?_, Nat.zero_le _⟩
    · have hall : 10 - (k + 1) = 0 := by
        simp only [METAKOM_PERIOD_SAMPLE_COUNT] at hten
        omega
      simp only [METAKOM_PERIOD_SAMPLE_COUNT, hset, hperiod, hall, List.replicate_zero,
        List.append_nil]
      rw [foldl_samples _ _ (by rw [hsums]; omega), hsums]
      unfold Tells
      split_ifs at hge' <;> omega
    · simp only [htmpCounter]
      rfl
  · exact absurd hten hten'
  · exact absurd hten' hten
  · refine ⟨rfl, hbitState, rfl, ⟨hperiod, htmpData, htmpCounter, hkey, hdata⟩, rfl,
      samples ++ [highTime + lowTime], ?_, hset, ?_, ?_⟩
    · rw [List.length_append, hlength, List.length_singleton]
    · rw [hsums]
      exact hle'
    · rw [hsums]
      exact hge'

theorem Sync.feedBit {n k : ℕ} {proto : ProtocolMetakom} (h : Sync n k proto) (hk : k < 10) :
    (feedBit data proto n).1 = false ∧
      if k + 1 = 10 then Wait (n + 1) 0 (feedBit data proto n).2
      else Sync (n + 1) (k + 1) (feedBit data proto n).2 := by
  rw [feedBit_eq h.bitState]
  have hsum : lowDuration data n + (if bit data n then 5280 else 2640) =
      7920 + if n % 35 = 34 then 8000 else 0 := by
    rw [lowDuration_eq]
    cases bit data n <;> simp only [Bool.false_eq_true, if_true, if_false] <;> omega
  have hsync : Sync n k (heard data proto n) :=
    ⟨h.bitState, h.state, h.idle, h.index, h.samples⟩
  refine hsync.takeBit hk fun sum hle hge => ?_
  rw [hsum]
  split_ifs at hge ⊢ <;> omega

theorem Started.feedBit {n : ℕ} {proto : ProtocolMetakom} (h : Started proto) :
    (feedBit data proto n).1 = false ∧ Sync (n + 1) 1 (feedBit data proto n).2 := by
  rw [feedBit_started h]
  have hsync : Sync n 0 { proto with decoder := { MetakomDecoder.start with
      bitState := .waitFrontHigh } } :=
    ⟨rfl, rfl, ⟨rfl, rfl, rfl, rfl, h.2⟩, rfl, [], rfl, rfl, Nat.zero_le _, Nat.zero_le _⟩
  have htaken := @Sync.takeBit n 0 _ hsync (by norm_num) (lowDuration data n) 0
    fun sum hle hge => by
      rw [lowDuration_eq]
      simp only [Nat.not_lt_zero, if_false] at hge
      split_ifs <;> omega
  rwa [if_neg (by norm_num)] at htaken

theorem Wait.feedBit {n c : ℕ} {proto : ProtocolMetakom} (h : Wait n c proto) :
    (feedBit data proto n).1 = false ∧
      if n % 35 = 34 then StartWord data (n + 1) 0 (feedBit data proto n).2
      else Wait (n + 1) (c + 1) (feedBit data proto n).2 := by
  obtain ⟨hbitState, hstate, hperiod, ⟨htmpData, hkey, hdata⟩, hcounter, hinFrame⟩ := h
  obtain ⟨hperiodLow, hperiodHigh⟩ := hperiod
  have hmod : n % 35 < 35 := Nat.mod_lt n (by norm_num)
  rw [feedBit_eq hbitState]
  unfold takeBit heard
  simp only [hstate]
  refine ⟨trivial, ?_⟩
  have hduration := lowDuration_eq data n
  by_cases hend : n % 35 = 34
  · rw [if_pos hend] at hduration ⊢
    have hlong : lowDuration data n > proto.decoder.periodTime := by
      split_ifs at hduration <;> omega
    simp only [if_pos hlong]
    rw [if_neg (by decide)]
    refine ⟨hbitState, rfl, ⟨hperiodLow, hperiodHigh⟩, ⟨hkey, hdata⟩, by omega, rfl, ?_⟩
    simp only [htmpData]
    rfl
  · rw [if_neg hend] at hduration ⊢
    have hshort : ¬lowDuration data n > proto.decoder.periodTime := by
      split_ifs at hduration <;> omega
    have hnext : (proto.decoder.tmpCounter + 1).toNat = c + 1 := by
      rw [UInt8.toNat_add, hcounter]
      exact Nat.mod_eq_of_lt (by omega : c + 1 < 256)
    have hfew : ¬proto.decoder.tmpCounter + 1 > 40 := by
      rw [gt_iff_lt, UInt8.lt_iff_toNat_lt, hnext]
      exact Nat.not_lt.2 (by omega : c + 1 ≤ 40)
    simp only [if_neg hshort, if_neg hfew]
    exact ⟨hbitState, rfl, ⟨hperiodLow, hperiodHigh⟩, ⟨htmpData, hkey, hdata⟩, hnext, by omega⟩

end ProtocolMetakom

namespace ProtocolMetakom

section Words

variable {data : UInt32}

theorem counter_eq_iff {x m : UInt8} {c : ℕ} (hx : x.toNat = c) : x = m ↔ c = m.toNat := by
  rw [← UInt8.toNat_inj, hx]

theorem takeBit_startWord {proto : ProtocolMetakom} (hstate : proto.decoder.state = .waitStartWord)
    {highTime lowTime : ℕ} {pushed : MetakomDecoder}
    (hpushed : proto.decoder.pushBit lowTime = pushed) : proto.takeBit highTime lowTime =
      if pushed.tmpCounter = 3 then
        if pushed.tmpData = 0b010 then (false, { proto with decoder :=
          { pushed with tmpCounter := 0, tmpData := 0, state := .readWord } })
        else (false, decoderStart { proto with decoder := pushed })
      else (false, { proto with decoder := pushed }) := by
  subst hpushed
  unfold takeBit
  simp only [hstate]

theorem takeBit_readWord {proto : ProtocolMetakom} (hstate : proto.decoder.state = .readWord)
    {highTime lowTime : ℕ} {pushed : MetakomDecoder}
    (hpushed : proto.decoder.pushBit lowTime = pushed) : proto.takeBit highTime lowTime =
      if pushed.tmpCounter = 8 then
        if parityCheck pushed.tmpData then
          if pushed.keyDataIndex + 1 = 4 then
            if highTime > pushed.periodTime then (false, { proto with
              data := (proto.data <<< 8) ||| pushed.tmpData.toUInt32
              decoder := { pushed with
                keyDataIndex := pushed.keyDataIndex + 1, tmpData := 0, tmpCounter := 0
                state := .readStopWord } })
            else (false, decoderStart { proto with decoder := pushed })
          else (false, { proto with
            data := (proto.data <<< 8) ||| pushed.tmpData.toUInt32
            decoder := { pushed with
              keyDataIndex := pushed.keyDataIndex + 1, tmpData := 0, tmpCounter := 0 } })
        else (false, decoderStart { proto with decoder := pushed })
      else (false, { proto with decoder := pushed }) := by
  subst hpushed
  unfold takeBit
  simp only [hstate]
  rfl

theorem takeBit_readStopWord {proto : ProtocolMetakom}
    (hstate : proto.decoder.state = .readStopWord) {highTime lowTime : ℕ} {pushed : MetakomDecoder}
    (hpushed : proto.decoder.pushBit lowTime = pushed) : proto.takeBit highTime lowTime =
      if pushed.tmpCounter = 3 then
        if pushed.tmpData = 0b010 then (true, { proto with decoder := pushed })
        else (false, decoderStart { proto with decoder := pushed })
      else (false, { proto with decoder := pushed }) := by
  subst hpushed
  unfold takeBit
  simp only [hstate]

theorem StartWord.feedBit {n c : ℕ} {proto : ProtocolMetakom} (h : StartWord data n c proto)
    (hc : c < 3) : (feedBit data proto n).1 = false ∧
      if c = 2 then ReadWord data (n + 1) 0 (feedBit data proto n).2
      else StartWord data (n + 1) (c + 1) (feedBit data proto n).2 := by
  obtain ⟨hbitState, hstate, hperiod, ⟨hkey, hdata⟩, hplace, htmpCounter, htmpData⟩ := h
  have hpush := Pushed.of_heard hperiod (by omega) (hplace ▸ Nat.mod_le n 35) htmpData htmpCounter
  obtain ⟨pushed, hpushed⟩ : ∃ pushed, (heard data proto n).decoder.pushBit
      (if bit data n then 5280 else 2640) = pushed := ⟨_, rfl⟩
  have hheard : (heard data proto n).decoder.state = .waitStartWord := hstate
  rw [feedBit_eq hbitState, takeBit_startWord hheard hpushed]
  rw [hpushed] at hpush
  have hthree : pushed.tmpCounter = 3 ↔ c + 1 = 3 := counter_eq_iff hpush.tmpCounter
  by_cases hlast : c = 2
  · subst hlast
    have hword : pushed.tmpData = 0b010 := by
      rw [← UInt8.toNat_inj, hpush.tmpData, bitsValue_start (by omega)]
      rfl
    rw [if_pos (hthree.2 rfl), if_pos hword, if_pos rfl]
    refine ⟨rfl, hpush.bitState.trans hbitState, rfl, hpush.periodTime.symm ▸ hperiod, by omega,
      hpush.keyDataIndex.trans hkey, rfl, rfl, ?_⟩
    have hlt := data.toNat_lt
    have hzero : (heard data proto n).data = 0 := hdata
    simp only [hzero]
    rw [Nat.div_eq_of_lt (by omega)]
    rfl
  · rw [if_neg (fun h => hlast (by have := hthree.1 h; omega)), if_neg hlast]
    refine ⟨rfl, hpush.bitState.trans hbitState, hpush.state.trans hstate,
      hpush.periodTime.symm ▸ hperiod, ⟨hpush.keyDataIndex.trans hkey, hdata⟩, by omega,
      hpush.tmpCounter, ?_⟩
    rw [show n + 1 - (c + 1) = n - c by omega]
    exact hpush.tmpData

theorem ReadWord.feedBit {n i : ℕ} {proto : ProtocolMetakom} (h : ReadWord data n i proto)
    (hi : i < 32) (heven : EvenBytes data) : (feedBit data proto n).1 = false ∧
      if i = 31 then ReadStop data (feedBit data proto n).2 ∧
        StopWord data (n + 1) 0 (feedBit data proto n).2
      else ReadWord data (n + 1) (i + 1) (feedBit data proto n).2 := by
  obtain ⟨hbitState, hstate, hperiod, hplace, hkey, htmpCounter, htmpData, hknown⟩ := h
  have hle : i % 8 ≤ n := (Nat.mod_le i 8).trans (by have := Nat.mod_le n 35; omega)
  have hpush := Pushed.of_heard hperiod (by omega) hle htmpData htmpCounter
  obtain ⟨pushed, hpushed⟩ : ∃ pushed, (heard data proto n).decoder.pushBit
      (if bit data n then 5280 else 2640) = pushed := ⟨_, rfl⟩
  have hheard : (heard data proto n).decoder.state = .readWord := hstate
  rw [feedBit_eq hbitState, takeBit_readWord hheard hpushed]
  rw [hpushed] at hpush
  have height : pushed.tmpCounter = 8 ↔ i % 8 + 1 = 8 := counter_eq_iff hpush.tmpCounter
  have hpushKey : pushed.keyDataIndex = i / 8 := hpush.keyDataIndex.trans hkey
  by_cases hfull : i % 8 + 1 = 8
  · have hbyte : pushed.tmpData.toNat = data.toNat / 2 ^ (8 * (3 - i / 8)) % 2 ^ 8 := by
      rw [hpush.tmpData, hfull,
        @bitsValue_bit data (n - i % 8) (8 * (i / 8)) (by omega) 8 (by omega)]
      congr 3
      omega
    have hnext : (((heard data proto n).data <<< 8) ||| pushed.tmpData.toUInt32).toNat =
        data.toNat / 2 ^ (32 - 8 * (i / 8 + 1)) := by
      have hsmall : proto.data.toNat < 2 ^ 24 := by
        have hlt := data.toNat_lt
        rw [hknown, Nat.div_lt_iff_lt_mul (by positivity), ← pow_add]
        have hpow : 2 ^ 32 ≤ 2 ^ (24 + (32 - 8 * (i / 8))) :=
          Nat.pow_le_pow_right (by norm_num) (by omega)
        omega
      have hheard : (heard data proto n).data = proto.data := rfl
      rw [hheard, toNat_shiftLeft_or_byte hsmall, hknown, hbyte,
        show 32 - 8 * (i / 8) = 8 * (3 - i / 8) + 8 by omega, pow_add, ← Nat.div_div_eq_div_mul,
        Nat.div_add_mod, show 32 - 8 * (i / 8 + 1) = 8 * (3 - i / 8) by omega]
    rw [if_pos (height.2 hfull), if_pos (parityCheck_byte heven (by omega) hbyte)]
    by_cases hlast : i = 31
    · have hlong : lowDuration data n > pushed.periodTime := by
        have hduration := lowDuration_eq data n
        rw [if_pos (show n % 35 = 34 by omega)] at hduration
        obtain ⟨-, hperiodHigh⟩ := hperiod
        rw [hpush.periodTime]
        split_ifs at hduration <;> omega
      rw [if_pos (by omega), if_pos hlong, if_pos hlast]
      subst hlast
      refine ⟨rfl, ⟨hpush.bitState.trans hbitState, rfl, ?_⟩, hpush.periodTime.symm ▸ hperiod,
        by omega, rfl, rfl⟩
      rw [← UInt32.toNat_inj, hnext]
      simp
    · rw [if_neg (by omega), if_neg hlast]
      have hmod : (i + 1) % 8 = 0 := by omega
      have hdiv : (i + 1) / 8 = i / 8 + 1 := by omega
      refine ⟨rfl, hpush.bitState.trans hbitState, hpush.state.trans hstate,
        hpush.periodTime.symm ▸ hperiod, by omega, ?_, ?_, ?_, ?_⟩
      · rw [hdiv, ← hpushKey]
      · rw [hmod]
        rfl
      · rw [hmod]
        rfl
      · rw [hnext, hdiv]
  · have hmod : (i + 1) % 8 = i % 8 + 1 := by omega
    have hdiv : (i + 1) / 8 = i / 8 := by omega
    rw [if_neg (fun h => hfull (height.1 h)), if_neg (by omega)]
    refine ⟨rfl, hpush.bitState.trans hbitState, hpush.state.trans hstate,
      hpush.periodTime.symm ▸ hperiod, by omega, ?_, ?_, ?_, ?_⟩
    · rw [hdiv]
      exact hpushKey
    · rw [hmod]
      exact hpush.tmpCounter
    · rw [hmod, show n + 1 - (i % 8 + 1) = n - i % 8 by omega]
      exact hpush.tmpData
    · rw [hdiv]
      exact hknown

theorem ReadStop.feedBit {n : ℕ} {proto : ProtocolMetakom} (h : ReadStop data proto) :
    ((feedBit data proto n).1 = true → (feedBit data proto n).2.data = data) ∧
      (ReadStop data (feedBit data proto n).2 ∨ Started (feedBit data proto n).2) := by
  obtain ⟨hbitState, hstate, hknown⟩ := h
  have hheard : (heard data proto n).decoder.state = .readStopWord := hstate
  rw [feedBit_eq hbitState, takeBit_readStopWord hheard rfl]
  generalize (if bit data n then 5280 else 2640 : ℕ) = lowTime
  split_ifs
  · exact ⟨fun _ => hknown, .inl ⟨hbitState, hstate, hknown⟩⟩
  · exact ⟨nofun, .inr ⟨rfl, rfl⟩⟩
  · exact ⟨nofun, .inl ⟨hbitState, hstate, hknown⟩⟩

theorem StopWord.feedBit {n c : ℕ} {proto : ProtocolMetakom} (h : StopWord data n c proto)
    (hread : ReadStop data proto) (hc : c < 3) :
    if c = 2 then (feedBit data proto n).1 = true
    else ReadStop data (feedBit data proto n).2 ∧
      StopWord data (n + 1) (c + 1) (feedBit data proto n).2 := by
  obtain ⟨hperiod, hplace, htmpCounter, htmpData⟩ := h
  obtain ⟨hbitState, hstate, hknown⟩ := hread
  have hpush := Pushed.of_heard hperiod (by omega) (hplace ▸ Nat.mod_le n 35) htmpData htmpCounter
  obtain ⟨pushed, hpushed⟩ : ∃ pushed, (heard data proto n).decoder.pushBit
      (if bit data n then 5280 else 2640) = pushed := ⟨_, rfl⟩
  have hheard : (heard data proto n).decoder.state = .readStopWord := hstate
  rw [feedBit_eq hbitState, takeBit_readStopWord hheard hpushed]
  rw [hpushed] at hpush
  have hthree : pushed.tmpCounter = 3 ↔ c + 1 = 3 := counter_eq_iff hpush.tmpCounter
  by_cases hlast : c = 2
  · subst hlast
    have hword : pushed.tmpData = 0b010 := by
      rw [← UInt8.toNat_inj, hpush.tmpData, bitsValue_start (by omega)]
      rfl
    rw [if_pos rfl, if_pos (hthree.2 rfl), if_pos hword]
  · rw [if_neg hlast, if_neg (fun h => hlast (by have := hthree.1 h; omega))]
    refine ⟨⟨hpush.bitState.trans hbitState, hpush.state.trans hstate, hknown⟩,
      hpush.periodTime.symm ▸ hperiod, by omega, hpush.tmpCounter, ?_⟩
    rw [show n + 1 - (c + 1) = n - c by omega]
    exact hpush.tmpData

end Words

end ProtocolMetakom

namespace ProtocolMetakom

/-! ## Runs -/

section Runs

variable {data : UInt32}

/-- Where a decoder is in front of a bit. -/
inductive Place (data : UInt32) : ℕ → ProtocolMetakom → Prop
  | started {n : ℕ} {proto : ProtocolMetakom} (h : Started proto) : Place data n proto
  | sync {n k : ℕ} {proto : ProtocolMetakom} (hk : k < 10) (h : Sync n k proto) : Place data n proto
  | wait {n c : ℕ} {proto : ProtocolMetakom} (h : Wait n c proto) : Place data n proto
  | startWord {n c : ℕ} {proto : ProtocolMetakom} (hc : c < 3) (h : StartWord data n c proto) :
      Place data n proto
  | readWord {n i : ℕ} {proto : ProtocolMetakom} (hi : i < 32) (h : ReadWord data n i proto) :
      Place data n proto
  | readStop {n : ℕ} {proto : ProtocolMetakom} (h : ReadStop data proto) : Place data n proto

theorem Place.feedBit (heven : EvenBytes data) {n : ℕ} {proto : ProtocolMetakom}
    (h : Place data n proto) :
    ((feedBit data proto n).1 = true → (feedBit data proto n).2.data = data) ∧
      Place data (n + 1) (feedBit data proto n).2 := by
  rcases h with ⟨h⟩ | ⟨hk, h⟩ | ⟨h⟩ | ⟨hc, h⟩ | ⟨hi, h⟩ | ⟨h⟩
  · obtain ⟨hfalse, hnext⟩ := @Started.feedBit data n proto h
    exact ⟨fun htrue => Bool.noConfusion (hfalse.symm.trans htrue), .sync (by norm_num) hnext⟩
  · obtain ⟨hfalse, hnext⟩ := @Sync.feedBit data _ _ _ h hk
    refine ⟨fun htrue => Bool.noConfusion (hfalse.symm.trans htrue), ?_⟩
    split_ifs at hnext
    · exact .wait hnext
    · exact .sync (by omega) hnext
  · obtain ⟨hfalse, hnext⟩ := @Wait.feedBit data _ _ _ h
    refine ⟨fun htrue => Bool.noConfusion (hfalse.symm.trans htrue), ?_⟩
    split_ifs at hnext
    · exact .startWord (by norm_num) hnext
    · exact .wait hnext
  · obtain ⟨hfalse, hnext⟩ := h.feedBit hc
    refine ⟨fun htrue => Bool.noConfusion (hfalse.symm.trans htrue), ?_⟩
    split_ifs at hnext
    · exact .readWord (by norm_num) hnext
    · exact .startWord (by omega) hnext
  · obtain ⟨hfalse, hnext⟩ := h.feedBit hi heven
    refine ⟨fun htrue => Bool.noConfusion (hfalse.symm.trans htrue), ?_⟩
    split_ifs at hnext
    · exact .readStop hnext.1
    · exact .readWord (by omega) hnext
  · obtain ⟨hknown, hnext⟩ := @ReadStop.feedBit data n proto h
    exact ⟨hknown, hnext.elim .readStop .started⟩

/-- The decoder after the first level and so many bits of a key with this data. -/
def afterBits (data : UInt32) (proto : ProtocolMetakom) (n : ℕ) : ProtocolMetakom :=
  stateAfter decoderFeed proto.decoderStart ((List.range (2 * n + 1)).map (edge data))

variable (proto : ProtocolMetakom)

theorem edge_odd (n : ℕ) : edge data (2 * n + 1) = halfBit (bit data n) false := by
  rw [edge, if_pos (by omega), show 2 * n / 2 = n by omega]

theorem edge_even (n : ℕ) : edge data (2 * n + 1 + 1) = secondHalf data n := by
  rw [edge, if_neg (by omega), show (2 * n + 1) / 2 = n by omega]

theorem afterBits_succ (n : ℕ) :
    afterBits data proto (n + 1) = (feedBit data (afterBits data proto n) n).2 := by
  unfold afterBits
  rw [show 2 * (n + 1) + 1 = 2 * n + 1 + 1 + 1 by omega, stateAfter_range_succ,
    stateAfter_range_succ, edge_odd, edge_even]
  rfl

theorem sync_afterBits_zero : Sync 0 1 (afterBits data proto 0) :=
  ⟨rfl, rfl, ⟨rfl, rfl, rfl, rfl, rfl⟩, rfl, [8000], rfl, rfl, by norm_num, by norm_num⟩

theorem place_afterBits (heven : EvenBytes data) : ∀ n, Place data n (afterBits data proto n)
  | 0 => .sync (by norm_num) (sync_afterBits_zero proto)
  | n + 1 => by
    rw [afterBits_succ]
    exact ((place_afterBits heven n).feedBit heven).2

theorem sync_afterBits : ∀ n ≤ 8, Sync n (n + 1) (afterBits data proto n)
  | 0, _ => sync_afterBits_zero proto
  | n + 1, hn => by
    have hnext := (@Sync.feedBit data _ _ _ (sync_afterBits n (by omega)) (by omega)).2
    rw [if_neg (by omega), ← afterBits_succ] at hnext
    exact hnext

theorem wait_afterBits : ∀ c ≤ 25, Wait (9 + c) c (afterBits data proto (9 + c))
  | 0, _ => by
    have hnext := (@Sync.feedBit data _ _ _ (@sync_afterBits data proto 8 le_rfl) (by norm_num)).2
    rw [if_pos rfl, ← afterBits_succ] at hnext
    exact hnext
  | c + 1, hc => by
    have hnext := (@Wait.feedBit data _ _ _ (wait_afterBits c (by omega))).2
    rw [if_neg (by omega), ← afterBits_succ] at hnext
    exact hnext

theorem startWord_afterBits : ∀ c ≤ 2, StartWord data (35 + c) c (afterBits data proto (35 + c))
  | 0, _ => by
    have hnext := (@Wait.feedBit data _ _ _ (@wait_afterBits data proto 25 le_rfl)).2
    rw [if_pos (by norm_num), ← afterBits_succ] at hnext
    exact hnext
  | c + 1, hc => by
    have hnext := ((startWord_afterBits c (by omega)).feedBit (by omega)).2
    rw [if_neg (by omega), ← afterBits_succ] at hnext
    exact hnext

theorem readWord_afterBits (heven : EvenBytes data) :
    ∀ i ≤ 31, ReadWord data (38 + i) i (afterBits data proto (38 + i))
  | 0, _ => by
    have hnext := ((@startWord_afterBits data proto 2 le_rfl).feedBit (by norm_num)).2
    rw [if_pos rfl, ← afterBits_succ] at hnext
    exact hnext
  | i + 1, hi => by
    have hnext := ((readWord_afterBits heven i (by omega)).feedBit (by omega) heven).2
    rw [if_neg (by omega), ← afterBits_succ] at hnext
    exact hnext

theorem stopWord_afterBits (heven : EvenBytes data) :
    ∀ c ≤ 2, ReadStop data (afterBits data proto (70 + c)) ∧
      StopWord data (70 + c) c (afterBits data proto (70 + c))
  | 0, _ => by
    have hnext := ((readWord_afterBits proto heven 31 le_rfl).feedBit (by norm_num) heven).2
    rw [if_pos rfl, ← afterBits_succ] at hnext
    exact hnext
  | c + 1, hc => by
    have hstop := stopWord_afterBits heven c (by omega)
    have hnext := hstop.2.feedBit hstop.1 (by omega)
    rw [if_neg (by omega), ← afterBits_succ] at hnext
    exact hnext

theorem mem_reads_edge {count : ℕ} {d : UInt32} :
    d ∈ reads decoderFeed ProtocolMetakom.data proto.decoderStart
      ((List.range count).map (edge data)) ↔
    ∃ n, 2 * n + 2 < count ∧ (feedBit data (afterBits data proto n) n).1 = true ∧
      (feedBit data (afterBits data proto n) n).2.data = d := by
  rw [mem_reads_range]
  constructor
  · rintro ⟨t, ht, hresult, hdata⟩
    obtain ⟨n, rfl | rfl⟩ := Nat.even_or_odd' t
    · cases n with
      | zero => exact Bool.noConfusion (show false = true from hresult)
      | succ n =>
        refine ⟨n, ht, ?_⟩
        rw [show 2 * (n + 1) = 2 * n + 1 + 1 by omega, stateAfter_range_succ, edge_odd,
          edge_even] at hresult hdata
        exact ⟨hresult, hdata⟩
    · rw [edge_odd, decoderFeed_high] at hresult
      cases hresult
  · rintro ⟨n, hn, hresult, hdata⟩
    refine ⟨2 * n + 1 + 1, hn, ?_⟩
    rw [stateAfter_range_succ, edge_odd, edge_even]
    exact ⟨hresult, hdata⟩

theorem roundTrips (heven : EvenBytes data) (decoding encoding : ProtocolMetakom) :
    base.RoundTrips decoding encoding data (3 * 71) := by
  have hreceived : ∀ count, base.received decoding encoding data count =
      reads decoderFeed ProtocolMetakom.data decoding.decoderStart
        ((List.range (count - 1 - (count - 1) / 71)).map (edge data)) :=
    fun count => congrArg _ (levelsOver_yields encoding data count)
  refine ⟨fun count reading hreading => ?_, fun hempty => ?_⟩
  · rw [hreceived, mem_reads_edge] at hreading
    obtain ⟨n, -, hresult, rfl⟩ := hreading
    exact ((place_afterBits decoding heven n).feedBit heven).1 hresult
  · have hstop := stopWord_afterBits decoding heven 2 le_rfl
    have hanswered := hstop.2.feedBit hstop.1 (by norm_num)
    rw [if_pos rfl] at hanswered
    have hmem := (@mem_reads_edge data decoding (3 * 71 - 1 - (3 * 71 - 1) / 71) _).2
      ⟨72, by norm_num, hanswered, rfl⟩
    rw [hreceived] at hempty
    rw [hempty] at hmem
    cases hmem

end Runs

/-! ## Starts -/

theorem decoderFeed_encoder (data : UInt32) (decoder : MetakomDecoder)
    (encoderIndex encoderIndex' : ℕ) (pulse : LevelDuration) :
    decoderFeed ⟨data, decoder, encoderIndex⟩ pulse =
      ((decoderFeed ⟨data, decoder, encoderIndex'⟩ pulse).1,
        { (decoderFeed ⟨data, decoder, encoderIndex'⟩ pulse).2 with encoderIndex }) := by
  unfold decoderFeed takeBit
  obtain ⟨bit, decoder'⟩ := decoder.processBit pulse.level pulse.duration
  rcases bit with _ | ⟨highTime, lowTime⟩
  · rfl
  · simp only
    cases decoder'.state with
    | waitPeriodSync =>
      simp only
      split_ifs <;> rfl
    | waitStartBit =>
      simp only
      split_ifs <;> rfl
    | waitStartWord =>
      simp only
      split_ifs <;> rfl
    | readWord =>
      simp only
      split_ifs <;> rfl
    | readStopWord =>
      simp only
      split_ifs <;> rfl

theorem answers_decoderStart (proto proto' : ProtocolMetakom) (pulses : List LevelDuration) :
    decoderAnswers decoderFeed ProtocolMetakom.data proto.decoderStart pulses =
      decoderAnswers decoderFeed ProtocolMetakom.data proto'.decoderStart pulses := by
  refine answers_congr (R := fun p q => p.data = q.data ∧ p.decoder = q.decoder) ?_ pulses _ _
    ⟨rfl, rfl⟩
  rintro ⟨data, decoder, encoderIndex⟩ ⟨_, _, encoderIndex'⟩ pulse ⟨rfl, rfl⟩
  rw [decoderFeed_encoder data decoder encoderIndex encoderIndex' pulse]
  exact ⟨rfl, rfl, rfl, rfl⟩

end ProtocolMetakom

/-- Cyfral keys, and Metakom keys whose bytes have an even number of ones, are read a few frames
after a decoder has been started, always as what they are, and nothing from before the start is
seen. -/
theorem misc_roundTrips :
    (∀ (data : UInt16) (decoding encoding : ProtocolCyfral),
      ProtocolCyfral.base.RoundTrips decoding encoding data (5 * 72)) ∧
    (∀ (data : UInt32), ProtocolMetakom.EvenBytes data → ∀ decoding encoding : ProtocolMetakom,
      ProtocolMetakom.base.RoundTrips decoding encoding data (3 * 71)) ∧
    (∀ (proto proto' : ProtocolCyfral) (pulses : List LevelDuration),
      decoderAnswers ProtocolCyfral.decoderFeed ProtocolCyfral.data proto.decoderStart pulses =
        decoderAnswers ProtocolCyfral.decoderFeed ProtocolCyfral.data proto'.decoderStart pulses) ∧
    ∀ (proto proto' : ProtocolMetakom) (pulses : List LevelDuration),
      decoderAnswers ProtocolMetakom.decoderFeed ProtocolMetakom.data proto.decoderStart pulses =
        decoderAnswers ProtocolMetakom.decoderFeed ProtocolMetakom.data proto'.decoderStart
          pulses :=
  ⟨ProtocolCyfral.roundTrips, fun _ heven => ProtocolMetakom.roundTrips heven,
    ProtocolCyfral.answers_decoderStart, ProtocolMetakom.answers_decoderStart⟩

/-- A Metakom key whose bytes have an even number of ones. -/
theorem misc_roundTrips_even : ProtocolMetakom.base.RoundTrips ProtocolMetakom.alloc
    ProtocolMetakom.alloc 0x11223344 (3 * 71) :=
  misc_roundTrips.2.1 0x11223344 (by unfold ProtocolMetakom.EvenBytes; decide) _ _

end KiisuFirmware
