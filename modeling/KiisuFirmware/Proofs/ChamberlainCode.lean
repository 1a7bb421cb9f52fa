import KiisuFirmware.ChamberlainCode
import KiisuFirmware.Proofs.BinRaw
import KiisuFirmware.Proofs.SubGhzBlocks

/-!
# Sending what a Chamberlain remote has sent

A key of seven, eight or nine bits is sent as ten or eleven nibbles (`ChambCode`), each of which is
low at first and then high. The gap before a repetition ends the key of the one before it and does
not begin another, so of the repetitions every other one is read.
-/

namespace KiisuFirmware

open RunLength

/-! ## Nibbles -/

inductive ChambCode
  | stop
  | one
  | zero
  deriving DecidableEq, Repr

namespace ChambCode

def word : ChambCode → BitVec 64
  | stop => CHAMBERLAIN_CODE_BIT_STOP
  | one => CHAMBERLAIN_CODE_BIT_1
  | zero => CHAMBERLAIN_CODE_BIT_0

/-- How many of the four parts are high, and how many are low before them. -/
def high : ChambCode → ℕ
  | stop => 1
  | one => 2
  | zero => 3

def low : ChambCode → ℕ
  | stop => 3
  | one => 2
  | zero => 1

def bits (c : ChambCode) : List Bool := List.replicate c.low false ++ List.replicate c.high true

def pulses (c : ChambCode) : List LevelDuration :=
  [⟨false, c.low * CHAMB_CODE_TE_SHORT⟩, ⟨true, c.high * CHAMB_CODE_TE_SHORT⟩]

def ofBit (bit : Bool) : ChambCode := if bit then one else zero

end ChambCode

def pushCodes (word : BitVec 64) (codes : List ChambCode) : BitVec 64 :=
  codes.foldl (fun word code => word <<< 4 ||| code.word) word

/-- The nibbles behind the first one, which is a stop. -/
def codesBehind (data : BitVec 64) (count : ℕ) : List ChambCode :=
  let codes := (keyBits data count).map ChambCode.ofBit
  match count with
  | 7 => codes.take 6 ++ [.stop, .stop] ++ codes.drop 6 ++ [.stop]
  | 8 => codes.take 5 ++ [.stop] ++ codes.drop 6 ++ [.stop]
  | _ => codes ++ [.stop]

theorem keyBits_push (word : BitVec 64) (c : ChambCode) {count : ℕ} (hle : count + 4 ≤ 64) :
    keyBits (word <<< 4 ||| c.word) (count + 4) = keyBits word count ++ c.bits := by
  have hcode : ∀ j < 64, c.word.getLsbD j = (decide (j < 4) && c.word.getLsbD j) := by
    cases c <;> decide
  have hbefore : (List.range count).map (fun k =>
      (word <<< 4 ||| c.word).getLsbD (count + 4 - 1 - k)) = keyBits word count := by
    refine List.map_congr_left fun k hk => ?_
    have hlt := List.mem_range.1 hk
    rw [BitVec.getLsbD_or, BitVec.getLsbD_shiftLeft, hcode _ (by omega),
      decide_eq_false (by omega : ¬count + 4 - 1 - k < 4),
      decide_eq_true (by omega : count + 4 - 1 - k < 64),
      show count + 4 - 1 - k - 4 = count - 1 - k by omega]
    simp
  have hbit : ∀ i < 4, (word <<< 4 ||| c.word).getLsbD i = c.word.getLsbD i := by
    intro i hi
    rw [BitVec.getLsbD_or, BitVec.getLsbD_shiftLeft]
    simp [hi]
  have hbits : [c.word.getLsbD 3, c.word.getLsbD 2, c.word.getLsbD 1, c.word.getLsbD 0] =
      c.bits := by
    cases c <;> rfl
  rw [keyBits, List.range_add, List.map_append, hbefore, ← hbits, List.map_map]
  congr 1
  simp only [List.range_succ, List.range_zero, List.nil_append, List.cons_append, List.map_cons,
    List.map_nil, Function.comp_apply]
  rw [show count + 4 - 1 - (count + 0) = 3 by omega, show count + 4 - 1 - (count + 1) = 2 by omega,
    show count + 4 - 1 - (count + 2) = 1 by omega, show count + 4 - 1 - (count + 3) = 0 by omega,
    hbit 3 (by omega), hbit 2 (by omega), hbit 1 (by omega), hbit 0 (by omega)]

theorem keyBits_pushCodes : ∀ (codes : List ChambCode) (word : BitVec 64) (count : ℕ),
    count + 4 * codes.length ≤ 64 →
    keyBits (pushCodes word codes) (count + 4 * codes.length) =
      keyBits word count ++ codes.flatMap ChambCode.bits
  | [], word, count, _ => (List.append_nil _).symm
  | c :: codes, word, count, hle => by
    rw [List.length_cons] at hle ⊢
    have hrest := keyBits_pushCodes codes (word <<< 4 ||| c.word) (count + 4) (by omega)
    rw [show count + 4 * (codes.length + 1) = count + 4 + 4 * codes.length by omega]
    rw [keyBits_push word c (by omega), List.append_assoc] at hrest
    exact hrest

/-- The nibbles of a key are sent, and the key is read from them. -/
def Coded (data : BitVec 64) (count countBit : ℕ) : Prop :=
  SubGhzProtocolEncoderChambCode.code data count =
    some (pushCodes 0 (.stop :: codesBehind data count), countBit) ∧
  (codesBehind data count).length = countBit / 4 - 1 ∧
  (chambCodeParse (pushCodes 0 (.stop :: codesBehind data count))).bind (fun parsed =>
    (chambCodeToBit parsed.1 parsed.2).map fun data => (data, parsed.2)) = some (data, count)

instance (data : BitVec 64) (count countBit : ℕ) : Decidable (Coded data count countBit) :=
  inferInstanceAs (Decidable (_ ∧ _))

theorem coded_seven : ∀ v < 2 ^ 7, Coded (BitVec.ofNat 64 v) 7 44 := by
  decide +kernel

theorem coded_eight : ∀ v < 2 ^ 8, v.testBit 2 = false → Coded (BitVec.ofNat 64 v) 8 40 := by
  decide +kernel

theorem coded_nine : ∀ v < 2 ^ 9, Coded (BitVec.ofNat 64 v) 9 44 := by
  decide +kernel

/-- What a key that has been read is like. The third bit of eight is not in use. -/
def IsKey (data : BitVec 64) (count : ℕ) : Prop :=
  data.toNat < 2 ^ count ∧ (count = 7 ∨ count = 8 ∧ data.getLsbD 2 = false ∨ count = 9)

theorem IsKey.coded {data : BitVec 64} {count : ℕ} (h : IsKey data count) :
    ∃ countBit, (countBit = 40 ∨ countBit = 44) ∧ Coded data count countBit := by
  obtain ⟨hlt, rfl | ⟨rfl, hbit⟩ | rfl⟩ := h
  · refine ⟨44, .inr rfl, ?_⟩
    have hcoded := coded_seven data.toNat hlt
    rwa [BitVec.ofNat_toNat, BitVec.setWidth_eq] at hcoded
  · refine ⟨40, .inl rfl, ?_⟩
    have hcoded := coded_eight data.toNat hlt hbit
    rwa [BitVec.ofNat_toNat, BitVec.setWidth_eq] at hcoded
  · refine ⟨44, .inr rfl, ?_⟩
    have hcoded := coded_nine data.toNat hlt
    rwa [BitVec.ofNat_toNat, BitVec.setWidth_eq] at hcoded

/-! ## What has been read -/

theorem chambCodeToBitLoop_eq (data : BitVec 64) : ∀ (left : ℕ) {i : ℕ} {dataRes r : BitVec 64},
    i + left ≤ 64 → chambCodeToBitLoop left i (data >>> (4 * i)) dataRes = some r →
    ∀ j < 64, r.getLsbD j = if i ≤ j ∧ j < i + left then
      !decide (data >>> (4 * j) &&& 0xF = CHAMBERLAIN_CODE_BIT_0) else dataRes.getLsbD j
  | 0, i, dataRes, r, hle, h, j, hj => by
    obtain rfl : dataRes = r := Option.some.inj h
    rw [if_neg (by omega)]
  | left + 1, i, dataRes, r, hle, h, j, hj => by
    have hshift : data >>> (4 * i) >>> 4 = data >>> (4 * (i + 1)) := by
      rw [← BitVec.shiftRight_add, Nat.mul_succ]
    have hone : ∀ k < 64, ((1 : BitVec 64) <<< i).getLsbD k = decide (k = i) := by
      intro k hk
      rw [BitVec.getLsbD_shiftLeft]
      have hbit : (1 : BitVec 64).getLsbD (k - i) = decide (k - i = 0) := by
        rw [show (1 : BitVec 64) = 1#64 from rfl, BitVec.getLsbD_one]
        simp
      rw [hbit]
      by_cases hki : k = i
      · simp [hki]
        omega
      · by_cases hlt : k < i
        · simp [hki, hlt]
        · simp [hki, show ¬k - i = 0 by omega]
    rw [chambCodeToBitLoop, hshift] at h
    split_ifs at h with hzero hset
    · rw [chambCodeToBitLoop_eq data left (by omega) h j hj]
      by_cases hji : j = i
      · subst hji
        rw [if_neg (by omega), if_pos (by omega), decide_eq_true hzero, BitVec.getLsbD_and,
          BitVec.getLsbD_not, hone j hj]
        simp
      · by_cases hin : i + 1 ≤ j ∧ j < i + 1 + left
        · rw [if_pos hin, if_pos (by omega)]
        · rw [if_neg hin, if_neg (by omega), BitVec.getLsbD_and, BitVec.getLsbD_not, hone j hj]
          simp [hji, hj]
    · rw [chambCodeToBitLoop_eq data left (by omega) h j hj]
      by_cases hji : j = i
      · subst hji
        rw [if_neg (by omega), if_pos (by omega), decide_eq_false hzero, BitVec.getLsbD_or,
          hone j hj]
        simp
      · by_cases hin : i + 1 ≤ j ∧ j < i + 1 + left
        · rw [if_pos hin, if_pos (by omega)]
        · rw [if_neg hin, if_neg (by omega), BitVec.getLsbD_or, hone j hj]
          simp [hji]

theorem chambCodeToBit_eq {data r : BitVec 64} {size : ℕ} (hsize : size ≤ 64)
    (h : chambCodeToBit data size = some r) : ∀ j < 64, r.getLsbD j =
      (decide (j < size) && !decide (data >>> (4 * j) &&& 0xF = CHAMBERLAIN_CODE_BIT_0)) := by
  intro j hj
  have hshift : data >>> (4 * 0) = data := BitVec.ushiftRight_zero data
  rw [chambCodeToBit, ← hshift] at h
  rw [chambCodeToBitLoop_eq data size (by omega) h j hj, Nat.zero_add]
  by_cases hlt : j < size
  · rw [if_pos ⟨Nat.zero_le j, hlt⟩, decide_eq_true hlt, Bool.true_and]
  · rw [if_neg fun h => hlt h.2, decide_eq_false hlt, Bool.false_and]
    exact BitVec.getLsbD_zero

theorem unused_nibble (decodeData : BitVec 64) :
    ((decodeData &&& ~~~CHAMBERLAIN_8_CODE_MASK) >>> 4 ||| CHAMBERLAIN_CODE_BIT_0 <<< 8) >>>
      (4 * 2) &&& 0xF = CHAMBERLAIN_CODE_BIT_0 := by
  have hmask : ∀ i < 4, CHAMBERLAIN_8_CODE_MASK.getLsbD (4 + (4 * 2 + i)) = true := by decide
  have hzero : ∀ i < 4, (CHAMBERLAIN_CODE_BIT_0 <<< 8).getLsbD (4 * 2 + i) =
      CHAMBERLAIN_CODE_BIT_0.getLsbD i := by
    decide
  have hnibble : ∀ i < 64, (0xF : BitVec 64).getLsbD i = decide (i < 4) ∧
      (4 ≤ i → CHAMBERLAIN_CODE_BIT_0.getLsbD i = false) := by
    decide
  refine BitVec.eq_of_getLsbD_eq fun i hi => ?_
  obtain ⟨hfour, habove⟩ := hnibble i hi
  rw [BitVec.getLsbD_and, hfour, BitVec.getLsbD_ushiftRight, BitVec.getLsbD_or,
    BitVec.getLsbD_ushiftRight, BitVec.getLsbD_and, BitVec.getLsbD_not]
  by_cases hlow : i < 4
  · rw [hmask i hlow, hzero i hlow, decide_eq_true hlow]
    simp
  · rw [decide_eq_false hlow, Bool.and_false, habove (by omega)]

theorem isKey_of_parse {decodeData codes data : BitVec 64} {count : ℕ}
    (hparse : chambCodeParse decodeData = some (codes, count))
    (hbits : chambCodeToBit codes count = some data) : IsKey data count := by
  have hlt : ∀ {size : ℕ}, size ≤ 64 → chambCodeToBit codes size = some data →
      data.toNat < 2 ^ size := by
    intro size hsize h
    refine Nat.lt_pow_two_of_testBit _ fun j hj => ?_
    change data.getLsbD j = false
    by_cases hj' : j < 64
    · rw [chambCodeToBit_eq hsize h j hj', decide_eq_false (by omega), Bool.false_and]
    · exact BitVec.getLsbD_of_ge data j (by omega)
  rw [chambCodeParse] at hparse
  split_ifs at hparse <;> obtain ⟨rfl, rfl⟩ := Prod.mk.inj (Option.some.inj hparse)
  · exact ⟨hlt (by omega) hbits, .inl rfl⟩
  · refine ⟨hlt (by omega) hbits, .inr (.inl ⟨rfl, ?_⟩)⟩
    rw [chambCodeToBit_eq (by omega) hbits 2 (by omega)]
    rw [decide_eq_true (unused_nibble decodeData)]
    rfl
  · exact ⟨hlt (by omega) hbits, .inr (.inr rfl)⟩

namespace SubGhzProtocolDecoderChambCode

open SubGhzProtocolEncoderChambCode

variable {p : SubGhzProtocolDecoderChambCode}

theorem feed_true {pulse : LevelDuration} (h : (p.feed pulse).1 = true) :
    IsKey (p.feed pulse).2.generic.data (p.feed pulse).2.generic.dataCountBit := by
  rw [feed] at h ⊢
  cases hstep : p.decoder.parserStep <;> rw [hstep] at h <;> dsimp only at h ⊢
  · split_ifs at h
  · split_ifs at h
  · split_ifs at h with hlevel hgap hcount hparsed
    rw [if_pos hlevel, if_pos hgap, if_pos hcount, if_pos hparsed]
    rw [checkMaskAndParse] at hparsed ⊢
    dsimp only at hparsed ⊢
    split_ifs at hparsed ⊢ with hlong
    rcases hparse : chambCodeParse p.decoder.decodeData with _ | ⟨codes, count⟩
    · rw [hparse] at hparsed
      cases hparsed
    · rw [hparse] at hparsed
      rcases hbits : chambCodeToBit codes count with _ | data
      · simp only [hbits] at hparsed
        cases hparsed
      · have hkey := isKey_of_parse hparse hbits
        simp only [hbits]
        have hcountBit : (BitVec.ofNat 8 count).toNat = count := by
          rw [BitVec.toNat_ofNat]
          obtain ⟨-, rfl | ⟨rfl, -⟩ | rfl⟩ := hkey <;> rfl
        show IsKey data (BitVec.ofNat 8 count).toNat
        rw [hcountBit]
        exact hkey
  · split_ifs at h

/-! ## What is read -/

/-- The decoder between two nibbles, with these so far. -/
structure Between (p : SubGhzProtocolDecoderChambCode) (codes : List ChambCode) : Prop where
  parserStep : p.decoder.parserStep = .saveDuration
  decodeData : p.decoder.decodeData = pushCodes 0 codes
  decodeCountBit : p.decoder.decodeCountBit = BitVec.ofNat 8 codes.length

theorem feed_code_low (hstep : p.decoder.parserStep = .saveDuration) (c : ChambCode) :
    p.feed ⟨false, c.low * CHAMB_CODE_TE_SHORT⟩ =
      (false, { p with decoder := { p.decoder with
        teLast := c.low * CHAMB_CODE_TE_SHORT
        parserStep := .checkDuration } }) := by
  rw [feed, hstep]
  cases c <;> rfl

theorem feed_code_high (hstep : p.decoder.parserStep = .checkDuration) {c : ChambCode}
    (hte : p.decoder.teLast = c.low * CHAMB_CODE_TE_SHORT) :
    p.feed ⟨true, c.high * CHAMB_CODE_TE_SHORT⟩ = (false, p.addCode c.word) := by
  rw [feed, hstep]
  dsimp only
  rw [hte]
  cases c <;> rfl

theorem Between.readings_code {before : List ChambCode} (h : Between p before) (c : ChambCode) :
    ∃ q, Between q (before ++ [c]) ∧ ∀ rest,
      subghzProtocolChambCode.readings p (c.pulses ++ rest) =
        subghzProtocolChambCode.readings q rest := by
  obtain ⟨hstep, hdata, hcount⟩ := h
  set low : SubGhzProtocolDecoderChambCode := { p with decoder := { p.decoder with
    teLast := c.low * CHAMB_CODE_TE_SHORT
    parserStep := .checkDuration } } with hlow
  refine ⟨low.addCode c.word, ⟨rfl, ?_, ?_⟩, fun rest => ?_⟩
  · show p.decoder.decodeData <<< 4 ||| c.word = _
    rw [hdata, pushCodes, pushCodes, List.foldl_append]
    rfl
  · show p.decoder.decodeCountBit + 1 = _
    rw [hcount, List.length_append, BitVec.ofNat_add]
    rfl
  · rw [ChambCode.pulses, List.cons_append,
      SubGhzProtocol.readings_of_false (feed_code_low hstep c), List.cons_append,
      SubGhzProtocol.readings_of_false (feed_code_high (p := low) rfl rfl)]
    rfl

/-- What is sent of a key: the gap, and all behind it. -/
def header : LevelDuration := ⟨false, 39 * CHAMB_CODE_TE_SHORT⟩

def frame (codes : List ChambCode) : List LevelDuration :=
  ⟨true, CHAMB_CODE_TE_SHORT⟩ :: codes.flatMap ChambCode.pulses

theorem feed_header (hstep : p.decoder.parserStep = .reset) :
    p.feed header = (false, p.setStep .foundStartBit) := by
  rw [feed, hstep]
  rfl

theorem readings_frame (hstep : p.decoder.parserStep = .foundStartBit) (codes : List ChambCode)
    (rest : List LevelDuration) : ∃ q, Between q (.stop :: codes) ∧
      subghzProtocolChambCode.readings p (frame codes ++ rest) =
        subghzProtocolChambCode.readings q rest := by
  set start : SubGhzProtocolDecoderChambCode := { p with decoder := { p.decoder with
    decodeData := 0, decodeCountBit := 0 } }.addCode CHAMBERLAIN_CODE_BIT_STOP with hstart
  have hfeed : p.feed ⟨true, CHAMB_CODE_TE_SHORT⟩ = (false, start) := by
    rw [feed, hstep]
    rfl
  have hbetween : Between start [.stop] := ⟨rfl, rfl, rfl⟩
  obtain ⟨q, hq, hrest⟩ := SubGhzProtocol.readings_flatMap rest
    (fun c (_ : c ∈ codes) => fun {p before} (h : Between p before) => h.readings_code c) hbetween
  refine ⟨q, ?_, ?_⟩
  · rw [List.foldl_append_eq_append, ← List.flatMap_def, List.flatMap_singleton'] at hq
    exact hq
  · rw [frame, List.cons_append, SubGhzProtocol.readings_of_false hfeed]
    exact hrest

theorem readings_missed (hstep : p.decoder.parserStep = .reset) (codes : List ChambCode)
    (rest : List LevelDuration) : subghzProtocolChambCode.readings p (frame codes ++ rest) =
      subghzProtocolChambCode.readings p rest := by
  refine SubGhzProtocol.readings_ignored (fun pulse hpulse => ?_) rest
  show p.feed pulse = (false, p)
  have hignored : ¬(pulse.level = false ∧
      durationDiff pulse.duration (CHAMB_CODE_TE_SHORT * 39) < CHAMB_CODE_TE_DELTA * 20) := by
    rcases List.mem_cons.1 hpulse with rfl | hpulse
    · decide
    · obtain ⟨c, -, hc⟩ := List.mem_flatMap.1 hpulse
      rcases List.mem_cons.1 hc with rfl | hc
      · cases c <;> decide
      · rw [List.mem_singleton.1 hc]
        cases c <;> decide
  rw [feed, hstep]
  exact if_neg hignored

theorem readings_gap {data : BitVec 64} {count countBit : ℕ} (hkey : IsKey data count)
    (hcountBit : countBit = 40 ∨ countBit = 44) (hcoded : Coded data count countBit)
    (h : Between p (.stop :: codesBehind data count)) (rest : List LevelDuration) :
    ∃ q : SubGhzProtocolDecoderChambCode, q.decoder.parserStep = .reset ∧
      subghzProtocolChambCode.readings p (header :: rest) =
        (data, count) :: subghzProtocolChambCode.readings q rest := by
  obtain ⟨-, hlength, hread⟩ := hcoded
  obtain ⟨⟨codes, count'⟩, hparse, hbits⟩ := Option.bind_eq_some_iff.1 hread
  obtain ⟨data', hdata', hpair⟩ := Option.map_eq_some_iff.1 hbits
  obtain ⟨rfl, rfl⟩ := Prod.mk.inj hpair
  have hlong : p.decoder.decodeCountBit.toNat = countBit / 4 := by
    rw [h.decodeCountBit, List.length_cons, hlength]
    rcases hcountBit with rfl | rfl <;> rfl
  have hshort : (BitVec.ofNat 8 count').toNat = count' := by
    rw [BitVec.toNat_ofNat]
    obtain ⟨-, rfl | ⟨rfl, -⟩ | rfl⟩ := hkey <;> rfl
  set inst : SubGhzProtocolDecoderChambCode := { p with
    generic := { p.generic with serial := 0, btn := 0 } } with hinst
  have hparsed : inst.checkMaskAndParse = (true, { inst with decoder := { inst.decoder with
      decodeData := data', decodeCountBit := BitVec.ofNat 8 count' } }) := by
    rw [checkMaskAndParse, if_neg (by
      show ¬10 + 1 < p.decoder.decodeCountBit.toNat
      rcases hcountBit with rfl | rfl <;> omega)]
    have hdata : inst.decoder.decodeData = pushCodes 0 (.stop :: codesBehind data' count') :=
      h.decodeData
    rw [hdata, hparse]
    dsimp only at hdata' ⊢
    rw [hdata']
  set q : SubGhzProtocolDecoderChambCode := ({ inst with
    decoder := { inst.decoder with decodeData := data', decodeCountBit := BitVec.ofNat 8 count' }
    generic := { inst.generic with data := data', dataCountBit := count' } }).setStep .reset with hq
  have hfeed : p.feed header = (true, q) := by
    rw [feed, h.parserStep]
    dsimp only
    have hlevel : header.level = false := rfl
    have hgap : CHAMB_CODE_TE_SHORT * 5 < header.duration := by decide
    rw [if_pos hlevel, if_pos hgap, if_pos (by
      show 10 ≤ p.decoder.decodeCountBit.toNat
      rcases hcountBit with rfl | rfl <;> omega)]
    show (if inst.checkMaskAndParse.1 = true then
      (true, ({ inst.checkMaskAndParse.2 with generic := { inst.checkMaskAndParse.2.generic with
        data := inst.checkMaskAndParse.2.decoder.decodeData
        dataCountBit := inst.checkMaskAndParse.2.decoder.decodeCountBit.toNat } }).setStep .reset)
      else _) = (true, q)
    rw [hparsed]
    dsimp only
    rw [if_pos rfl, hshort]
  have hread := @SubGhzProtocol.readings_of_true _ _ subghzProtocolChambCode _ _ _ hfeed rest
  exact ⟨q, rfl, hread⟩

theorem readings_repeated {data : BitVec 64} {count countBit : ℕ} (hkey : IsKey data count)
    (hcountBit : countBit = 40 ∨ countBit = 44) (hcoded : Coded data count countBit) :
    ∀ (repeats : ℕ) {p : SubGhzProtocolDecoderChambCode}, p.decoder.parserStep = .reset →
      subghzProtocolChambCode.readings p (List.replicate repeats
        (header :: frame (codesBehind data count))).flatten =
          List.replicate (repeats / 2) (data, count)
  | 0, p, _ => rfl
  | 1, p, hstep => by
    obtain ⟨q, -, hframe⟩ := readings_frame (p := p.setStep .foundStartBit) rfl
      (codesBehind data count) []
    rw [List.replicate_one, List.flatten_singleton,
      SubGhzProtocol.readings_of_false (feed_header hstep)]
    rw [List.append_nil] at hframe
    rw [hframe]
    rfl
  | repeats + 2, p, hstep => by
    set rest := (List.replicate repeats (header :: frame (codesBehind data count))).flatten
      with hrest
    obtain ⟨q, hq, hframe⟩ := readings_frame (p := p.setStep .foundStartBit) rfl
      (codesBehind data count) (header :: (frame (codesBehind data count) ++ rest))
    obtain ⟨r, hr, hgap⟩ := readings_gap hkey hcountBit hcoded hq
      (frame (codesBehind data count) ++ rest)
    rw [List.replicate_succ, List.flatten_cons, List.replicate_succ, List.flatten_cons, ← hrest,
      List.cons_append, List.cons_append, SubGhzProtocol.readings_of_false (feed_header hstep),
      hframe, hgap, readings_missed hr, hrest,
      readings_repeated hkey hcountBit hcoded repeats hr, Nat.add_div_right _ (by omega),
      List.replicate_succ]

end SubGhzProtocolDecoderChambCode

/-! ## What is sent -/

theorem runsFrom_append_same {a : Bool} (rest : List Bool) : ∀ n m : ℕ,
    runsFrom a m (List.replicate n a ++ rest) = runsFrom a (m + n) rest
  | 0, m => rfl
  | n + 1, m => by
    rw [List.replicate_succ, List.cons_append, runsFrom, if_pos rfl, runsFrom_append_same rest n,
      show m + 1 + n = m + (n + 1) by omega]

theorem runsFrom_codes : ∀ (codes : List ChambCode) (m : ℕ),
    runsFrom true m (codes.flatMap ChambCode.bits) =
      (true, m) :: codes.flatMap fun c => [(false, c.low), (true, c.high)]
  | [], m => rfl
  | c :: codes, m => by
    have hbits : c.bits = false :: List.replicate (c.low - 1) false ++
        true :: List.replicate (c.high - 1) true := by
      cases c <;> rfl
    have hlow : 1 + (c.low - 1) = c.low := by cases c <;> rfl
    have hhigh : 1 + (c.high - 1) = c.high := by cases c <;> rfl
    rw [List.flatMap_cons, hbits, List.append_assoc, List.cons_append, runsFrom,
      if_neg (by decide), runsFrom_append_same, hlow, List.cons_append, runsFrom,
      if_neg (by decide), runsFrom_append_same, hhigh, runsFrom_codes codes, List.flatMap_cons]
    rfl

namespace SubGhzProtocolEncoderChambCode

open SubGhzProtocolDecoderChambCode

theorem insertBits_eq : ∀ (bits : List Bool) {countBit : ℕ}
    (data : Vector UInt8 UPLOAD_HEX_DATA_SIZE), countBit + bits.length ≤ 80 →
    ∃ data', insertBits bits data countBit = .ok (data', countBit + bits.length) ∧
      ∀ i < 80, bitLibGetBit data' i = if countBit ≤ i ∧ i < countBit + bits.length then
        bits.getD (i - countBit) false else bitLibGetBit data i
  | [], countBit, data, _ => ⟨data, rfl, fun i _ => by rw [if_neg (by simp)]⟩
  | bit :: bits, countBit, data, hle => by
    rw [List.length_cons] at hle ⊢
    obtain ⟨data', hinsert, hbits⟩ := @insertBits_eq bits (countBit + 1)
      (bitLibSetBit data countBit bit) (by omega)
    refine ⟨data', ?_, fun i hi => ?_⟩
    · rw [insertBits, subghzProtocolBlocksSetBitArray, if_pos (by show countBit < 10 * 8; omega),
        show countBit + (bits.length + 1) = countBit + 1 + bits.length by omega]
      exact hinsert
    · rw [hbits i hi, getBit_setBit (by show countBit < 8 * 10; omega) _
        (by show i < 8 * 10; omega)]
      by_cases hlater : countBit + 1 ≤ i ∧ i < countBit + 1 + bits.length
      · rw [if_pos hlater, if_pos (by omega), show i - countBit = i - (countBit + 1) + 1 by omega,
          List.getD_cons_succ]
      · rw [if_neg hlater]
        by_cases hfirst : i = countBit
        · rw [if_pos hfirst, if_pos (by omega), hfirst, Nat.sub_self, List.getD_cons_zero]
        · rw [if_neg hfirst, if_neg (by omega)]

theorem uploadHexData_eq {data : BitVec 64} {countBit : ℕ} (hle : countBit ≤ 44) :
    ∃ array, uploadHexData data countBit = .ok (array, 36 + countBit) ∧
      ∀ i < 36 + countBit, bitLibGetBit array i =
        (List.replicate 36 false ++ keyBits data countBit).getD i false := by
  have hlength := length_keyBits data countBit
  obtain ⟨gap, hgap, hgapBits⟩ := @insertBits_eq (List.replicate 36 false) 0
    (Vector.replicate UPLOAD_HEX_DATA_SIZE 0) (by simp)
  obtain ⟨array, harray, hbits⟩ := @insertBits_eq (keyBits data countBit) 36 gap (by omega)
  rw [hlength] at harray hbits
  refine ⟨array, ?_, fun i hi => ?_⟩
  · rw [uploadHexData, hgap]
    exact harray
  · rw [hbits i (by omega)]
    by_cases hkey : 36 ≤ i
    · rw [if_pos ⟨hkey, hi⟩, List.getD_append_right _ _ _ _ (by simpa using hkey),
        List.length_replicate]
    · rw [if_neg (by omega), hgapBits i (by omega), if_pos (by simp; omega), Nat.sub_zero,
        List.getD_append _ _ _ _ (by simpa using hkey)]

theorem runsFrom_upload (codes : List ChambCode) :
    runsFrom false 1 (List.replicate 35 false ++ (ChambCode.stop :: codes).flatMap ChambCode.bits) =
      (false, 39) :: (true, 1) :: codes.flatMap fun c => [(false, c.low), (true, c.high)] := by
  have hstop : ChambCode.stop.bits = List.replicate 3 false ++ [true] := rfl
  rw [runsFrom_append_same, List.flatMap_cons, hstop, List.append_assoc, runsFrom_append_same,
    List.singleton_append, runsFrom, if_neg (by decide), runsFrom_codes]

theorem map_runs (codes : List ChambCode) :
    (((false, 39) :: (true, 1) :: codes.flatMap fun c => [(false, c.low), (true, c.high)]).map
      fun r : Bool × ℕ => (⟨r.1, r.2 * CHAMB_CODE_TE_SHORT⟩ : LevelDuration)) =
        header :: frame codes := by
  rw [List.map_cons, List.map_cons, List.map_flatMap]
  rfl

theorem length_runs (codes : List ChambCode) :
    (codes.flatMap fun c => [(false, c.low), (true, c.high)]).length = 2 * codes.length := by
  induction codes with
  | nil => rfl
  | cons c codes ih =>
    rw [List.flatMap_cons, List.length_append, ih]
    simp only [List.length_cons, List.length_nil]
    omega

theorem runs_short (codes : List ChambCode) : ∀ r ∈ (false, 39) :: (true, 1) ::
    codes.flatMap fun c => [(false, c.low), (true, c.high)],
    r.2 * CHAMB_CODE_TE_SHORT < 2 ^ 30 := by
  intro r hr
  rcases List.mem_cons.1 hr with rfl | hr
  · decide
  · rcases List.mem_cons.1 hr with rfl | hr
    · decide
    · obtain ⟨c, -, hc⟩ := List.mem_flatMap.1 hr
      rcases List.mem_cons.1 hc with rfl | hc
      · cases c <;> decide
      · rw [List.mem_singleton.1 hc]
        cases c <;> decide

theorem getUpload_eq {inst : SubGhzProtocolEncoderChambCode} {countBit : ℕ}
    (hsize : inst.encoder.sizeUpload = 24) (hcountBit : countBit = 40 ∨ countBit = 44)
    (hcoded : Coded inst.generic.data inst.generic.dataCountBit countBit) :
    inst.getUpload = .ok (some { inst with encoder := { inst.encoder with
      sizeUpload := (header ::
        frame (codesBehind inst.generic.data inst.generic.dataCountBit)).length
      upload := header :: frame (codesBehind inst.generic.data inst.generic.dataCountBit) } }) := by
  obtain ⟨hcode, hlength, -⟩ := hcoded
  set codes := codesBehind inst.generic.data inst.generic.dataCountBit with hcodes
  have hcodesLength : 0 + 4 * (ChambCode.stop :: codes).length = countBit := by
    rw [List.length_cons, hlength]
    omega
  have hbits := keyBits_pushCodes (.stop :: codes) 0 0 (by omega)
  rw [hcodesLength] at hbits
  change _ = (ChambCode.stop :: codes).flatMap ChambCode.bits at hbits
  obtain ⟨array, harray, harrayBits⟩ :=
    @uploadHexData_eq (pushCodes 0 (.stop :: codes)) countBit (by omega)
  rw [hbits] at harrayBits
  have hflat : ((ChambCode.stop :: codes).flatMap ChambCode.bits).length = countBit := by
    rw [← hbits, length_keyBits]
  have hruns := runsFrom_upload codes
  have hmap := map_runs codes
  have hcount := length_runs codes
  set rest := List.replicate 35 false ++ (ChambCode.stop :: codes).flatMap ChambCode.bits with hrest
  have hrestLength : rest.length = 35 + countBit := by
    rw [hrest, List.length_append, List.length_replicate, hflat]
  have hall : List.replicate 36 false ++ (ChambCode.stop :: codes).flatMap ChambCode.bits =
      false :: rest := rfl
  rw [hall] at harrayBits
  have hrunsLength : (runsFrom false 1 rest).length ≤ 24 := by
    rw [hruns, List.length_cons, List.length_cons, hcount, hlength]
    omega
  have hupload := @uploadLoop_eq _ CHAMB_CODE_SIZE_UPLOAD inst.encoder.sizeUpload
    CHAMB_CODE_TE_SHORT array rest 1 1 false [] (by omega) (harrayBits 0 (by omega))
    (fun i hi => by
      rw [Nat.add_comm 1 i]
      exact harrayBits (i + 1) (by omega))
    (by rw [List.length_nil, Nat.zero_add]; exact hrunsLength)
    (by rw [List.length_nil, Nat.zero_add, hsize]; omega)
    (by rw [hruns]; exact runs_short codes)
  rw [hrestLength, Nat.one_mul, List.nil_append, hruns, hmap] at hupload
  have hfirst : subghzProtocolBlocksGetBitArray array 0 = false := harrayBits 0 (by omega)
  rw [getUpload, hcode]
  dsimp only
  rw [harray]
  dsimp only [bind, Except.bind]
  rw [subghzProtocolBlocksGetUploadFromBitArray]
  rw [if_neg (by simp), hfirst, show 36 + countBit - 1 = 35 + countBit by omega, Nat.zero_add,
    hupload]
  rfl

theorem load_serialize {generic : SubGhzBlockGeneric}
    (hkey : IsKey generic.data generic.dataCountBit) :
    ∃ encoder, load generic.serialize = some encoder ∧ ∀ repeats : ℕ,
      { encoder with repeats := repeats }.emitted = (List.replicate repeats
        (header :: frame (codesBehind generic.data generic.dataCountBit))).flatten := by
  obtain ⟨countBit, hcountBit, hcoded⟩ := hkey.coded
  have hle : generic.dataCountBit ≤ 9 := by
    obtain ⟨-, h | ⟨h, -⟩ | h⟩ := hkey <;> omega
  set loaded : SubGhzBlockGeneric := { alloc.generic with
    dataCountBit := generic.dataCountBit, data := generic.data } with hloaded
  have hgeneric : alloc.generic.deserialize generic.serialize = .ok loaded :=
    SubGhzBlockGeneric.deserialize_serialize generic _ (by omega)
  have hupload := @getUpload_eq { alloc with generic := loaded } countBit rfl hcountBit hcoded
  have hload : alloc.deserialize generic.serialize = .ok (.ok { alloc with
      generic := loaded
      encoder := { alloc.encoder with
        isRunning := true
        sizeUpload := (header ::
          frame (codesBehind generic.data generic.dataCountBit)).length
        upload := header :: frame (codesBehind generic.data generic.dataCountBit) } }) := by
    rw [deserialize, hgeneric]
    dsimp only
    rw [if_neg (by show ¬10 < generic.dataCountBit; omega)]
    change (getUpload { alloc with generic := loaded }).bind _ = _
    rw [hupload]
    rfl
  refine ⟨_, by rw [load, hload], fun repeats => ?_⟩
  exact SubGhzProtocolBlockEncoder.emitted_repeats rfl rfl rfl (List.cons_ne_nil _ _) repeats

end SubGhzProtocolEncoderChambCode

/-! ## What has been read is replayed -/

theorem SubGhzProtocolDecoderChambCode.replays {p : SubGhzProtocolDecoderChambCode}
    {pulse : LevelDuration} (h : (p.feed pulse).1 = true) :
    subghzProtocolChambCode.Replays 2 (p.feed pulse).2 := by
  have hkey := feed_true h
  set captured := (p.feed pulse).2 with hcaptured
  obtain ⟨countBit, hcountBit, hcoded⟩ := hkey.coded
  obtain ⟨encoder, hload, hemitted⟩ := SubGhzProtocolEncoderChambCode.load_serialize hkey
  have hread : ∀ (q : SubGhzProtocolDecoderChambCode) (repeats : ℕ),
      subghzProtocolChambCode.readings q.reset { encoder with repeats := repeats }.emitted =
        List.replicate (repeats / 2) (captured.generic.data, captured.generic.dataCountBit) := by
    intro q repeats
    rw [hemitted]
    exact readings_repeated hkey hcountBit hcoded repeats rfl
  rw [SubGhzProtocol.replays_iff (fun repeats => repeats / 2) hload
    (fun repeats hrepeats => Nat.div_ne_zero_iff.2 ⟨by omega, hrepeats⟩) hread]
  rfl

end KiisuFirmware
