import Mathlib.Data.List.GetD
import Mathlib.Data.List.TakeWhile
import KiisuFirmware.BinRaw
import KiisuFirmware.Run
import KiisuFirmware.Proofs.BitLib

/-!
# Which binary captures are sent as they are

What is wrong with a piece ends the loop over the pieces and no more than that, and the room for the
levels is not the one for the bits.
-/

namespace KiisuFirmware

open RunLength

namespace BinRaw

/-! ## Pieces of a file -/

/-- So many bits, at the end of the bytes. -/
structure Piece where
  bitCount : ℕ
  bytes : List UInt8
  length_bytes : bytes.length = (bitCount + 7) / 8

/-- A bit of bytes, the highest one of the first byte first. -/
def bitOf (bytes : List UInt8) (i : ℕ) : Bool := (bytes.getD (i / 8) 0).toNat.testBit (7 - i % 8)

def Piece.bits (p : Piece) : List Bool :=
  (List.range p.bitCount).map fun i => bitOf p.bytes (8 * p.bytes.length - p.bitCount + i)

def bits (ps : List Piece) : List Bool := ps.flatMap Piece.bits

/-- The piece whose bytes are in the next line of `Data_RAW`, which has to have all of them and to
be in front of the next line of `Bit_RAW`. -/
def pieceOf (bitCount : ℕ) : List FlipperLine → Option Piece
  | [] => none
  | line :: lines =>
    if line.key = bitRawKey then none
    else if line.key = dataRawKey then
      if h : (hexWords ((bitCount + 7) / 8) line.words).1.length = (bitCount + 7) / 8 then
        some ⟨bitCount, (hexWords ((bitCount + 7) / 8) line.words).1, h⟩
      else none
    else pieceOf bitCount lines

/-- One piece for every line of `Bit_RAW`. -/
def pieces : List FlipperLine → Option (List Piece)
  | [] => some []
  | line :: lines =>
    if line.key = bitRawKey then
      (uint32Word line.words).bind fun bitCount =>
        (pieceOf bitCount lines).bind fun p => (pieces lines).map (p :: ·)
    else pieces lines

/-- The markups of pieces that are stored one after the other. -/
def markups : ℕ → List Piece → List BinRawMarkup
  | _, [] => []
  | byteBias, p :: ps => ⟨byteBias, p.bitCount⟩ :: markups (byteBias + p.bytes.length) ps

/-- Alternating levels, each as long as its bits. -/
def levels (te : ℕ) (bits : List Bool) : List LevelDuration :=
  (runs bits).map fun r => ⟨r.1, r.2 * te⟩

end BinRaw

namespace SubGhzProtocolEncoderBinRaw

/-- The markups up to the first one without bits. -/
def stored (inst : SubGhzProtocolEncoderBinRaw) : List BinRawMarkup :=
  inst.dataMarkup.takeWhile (·.bitCount ≠ 0)

/-- The call returns, and if it is `Ok` then all pieces of the file are there and are sent. -/
def Loads (inst : SubGhzProtocolEncoderBinRaw) (lines : List FlipperLine) : Prop :=
  ∃ r, inst.deserialize lines = .ok r ∧ ∀ inst', r = .ok inst' →
    ∃ ps, BinRaw.pieces lines = some ps ∧ inst'.stored = BinRaw.markups 0 ps ∧
      inst'.encoder.upload = BinRaw.levels inst'.te (BinRaw.bits ps)

end SubGhzProtocolEncoderBinRaw

namespace BinRaw

/-- Pieces there is room for. -/
structure Fits (sizeUpload te : ℕ) (ps : List Piece) : Prop where
  ne_nil : ps ≠ []
  length_le : ps.length ≤ BIN_RAW_MAX_MARKUP_COUNT
  pos : ∀ p ∈ ps, 0 < p.bitCount
  bytes_le : (ps.map (·.bytes.length)).sum ≤ BIN_RAW_BUF_DATA_SIZE
  runs_le : (runs (bits ps)).length ≤ BIN_RAW_SIZE_UPLOAD
  runs_le_size : (runs (bits ps)).length ≤ sizeUpload + 2
  lt_duration : ∀ r ∈ runs (bits ps), r.2 * te < 2 ^ 30

/-! ## Lines -/

theorem readLine_eq_some {key : List UInt8} {words : List (List UInt8)} {rest : List FlipperLine} :
    ∀ {lines : List FlipperLine}, readLine key lines = some (words, rest) →
      ∃ skipped line, lines = skipped ++ line :: rest ∧ line.key = key ∧ line.words = words ∧
        ∀ l ∈ skipped, l.key ≠ key
  | line :: lines, h => by
    rw [readLine] at h
    split_ifs at h with hkey
    · obtain ⟨rfl, rfl⟩ := Prod.mk.inj (Option.some.inj h)
      exact ⟨[], line, rfl, hkey, rfl, by simp⟩
    · obtain ⟨skipped, l, rfl, hl, hwords, hskipped⟩ := readLine_eq_some h
      exact ⟨line :: skipped, l, rfl, hl, hwords, by simpa [hkey] using hskipped⟩

theorem readUint32_eq_some {key : List UInt8} {n : ℕ} {lines rest : List FlipperLine}
    (h : readUint32 key lines = some (n, rest)) : ∃ skipped line, lines = skipped ++ line :: rest ∧
      line.key = key ∧ uint32Word line.words = some n := by
  unfold readUint32 at h
  split at h
  · simp at h
  · rename_i words rest' hline
    obtain ⟨n', hn, hpair⟩ := Option.map_eq_some_iff.1 h
    obtain ⟨rfl, rfl⟩ := Prod.mk.inj hpair
    obtain ⟨skipped, line, hlines, hkey, rfl, -⟩ := readLine_eq_some hline
    exact ⟨skipped, line, hlines, hkey, hn⟩

/-- How many lines there are of `Bit_RAW`. -/
def count (lines : List FlipperLine) : ℕ := lines.countP (·.key = bitRawKey)

theorem count_append (lines lines' : List FlipperLine) :
    count (lines ++ lines') = count lines + count lines' := List.countP_append

theorem count_cons (line : FlipperLine) (lines : List FlipperLine) :
    count (line :: lines) = count lines + if line.key = bitRawKey then 1 else 0 := by
  simp [count, List.countP_cons]

theorem readUint32_count {n : ℕ} {lines rest : List FlipperLine}
    (h : readUint32 bitRawKey lines = some (n, rest)) : count rest + 1 ≤ count lines := by
  obtain ⟨skipped, line, rfl, hkey, -⟩ := readUint32_eq_some h
  rw [count_append, count_cons, if_pos hkey]
  omega

theorem readHex_count {size : ℕ} {lines rest : List FlipperLine}
    (h : (readHex dataRawKey size lines).2 = some rest) : count rest ≤ count lines := by
  unfold readHex at h
  split at h
  · simp at h
  · rename_i words rest' hline
    obtain ⟨skipped, line, rfl, -⟩ := readLine_eq_some hline
    dsimp only at h
    split_ifs at h
    obtain rfl := Option.some.inj h
    rw [count_append, count_cons]
    omega

theorem length_pieces : ∀ {lines : List FlipperLine} {ps : List Piece}, pieces lines = some ps →
    ps.length = count lines
  | [], ps, h => by
    obtain rfl := Option.some.inj h
    rfl
  | line :: lines, ps, h => by
    rw [pieces] at h
    rw [count_cons]
    split_ifs at h ⊢ with hkey
    · simp only [Option.bind_eq_some_iff, Option.map_eq_some_iff] at h
      obtain ⟨n, -, p, -, ps, hps, rfl⟩ := h
      rw [List.length_cons, length_pieces hps]
    · exact length_pieces h

theorem pieces_append {skipped : List FlipperLine} (h : count skipped = 0)
    (lines : List FlipperLine) : pieces (skipped ++ lines) = pieces lines := by
  induction skipped with
  | nil => rfl
  | cons line skipped ih =>
    rw [count_cons] at h
    split_ifs at h with hkey
    rw [List.cons_append, pieces, if_neg hkey, ih h]

theorem readUint32_cons {line : FlipperLine} {key : List UInt8} (h : line.key ≠ key)
    (lines : List FlipperLine) : readUint32 key (line :: lines) = readUint32 key lines := by
  rw [readUint32, readUint32, readLine, if_neg h]

theorem readHex_cons {line : FlipperLine} {key : List UInt8} (h : line.key ≠ key) (size : ℕ)
    (lines : List FlipperLine) : readHex key size (line :: lines) = readHex key size lines := by
  rw [readHex, readHex, readLine, if_neg h]

theorem hexWords_all : ∀ {size : ℕ} {words : List (List UInt8)},
    (hexWords size words).1.length = size → (hexWords size words).2 = true
  | 0, _, _ => rfl
  | size + 1, word :: words, h => by
    unfold hexWords at h ⊢
    split at h
    · simp at h
    · exact hexWords_all (by simpa using h)

theorem readHex_of_pieceOf {bitCount : ℕ} {p : Piece} {ps : List Piece} :
    ∀ {lines : List FlipperLine}, pieceOf bitCount lines = some p → pieces lines = some ps →
      p.bitCount = bitCount ∧ ∃ rest,
        readHex dataRawKey ((bitCount + 7) / 8) lines = (p.bytes, some rest) ∧ pieces rest = some ps
  | line :: lines, hp, hps => by
    rw [pieceOf] at hp
    rw [pieces] at hps
    split_ifs at hp with hbit hdata hall
    · obtain rfl := Option.some.inj hp
      rw [if_neg hbit] at hps
      refine ⟨rfl, lines, ?_, hps⟩
      rw [readHex, readLine, if_pos hdata]
      simp only [hexWords_all hall, if_true]
    · rw [if_neg hbit] at hps
      rw [readHex_cons hdata]
      exact readHex_of_pieceOf hp hps

theorem read_of_pieces {p : Piece} {ps : List Piece} : ∀ {lines : List FlipperLine},
    pieces lines = some (p :: ps) → ∃ lines' rest,
      readUint32 bitRawKey lines = some (p.bitCount, lines') ∧
        readHex dataRawKey p.bytes.length lines' = (p.bytes, some rest) ∧ pieces rest = some ps
  | line :: lines, h => by
    rw [pieces] at h
    split_ifs at h with hkey
    · simp only [Option.bind_eq_some_iff, Option.map_eq_some_iff, List.cons.injEq] at h
      obtain ⟨n, hn, p', hp, ps', hps, rfl, rfl⟩ := h
      obtain ⟨rfl, rest, hread, hrest⟩ := readHex_of_pieceOf hp hps
      refine ⟨lines, rest, ?_, p'.length_bytes ▸ hread, hrest⟩
      rw [readUint32, readLine, if_pos hkey]
      simp only [hn, Option.map_some]
    · rw [readUint32_cons hkey]
      exact read_of_pieces h

theorem readUint32_of_pieces_nil : ∀ {lines : List FlipperLine}, pieces lines = some [] →
    readUint32 bitRawKey lines = none
  | [], _ => rfl
  | line :: lines, h => by
    rw [pieces] at h
    split_ifs at h with hkey
    · simp [Option.bind_eq_some_iff] at h
    · rw [readUint32_cons hkey]
      exact readUint32_of_pieces_nil h

theorem Piece.bitCount_le (p : Piece) : p.bitCount ≤ 8 * p.bytes.length := by
  rw [p.length_bytes]
  omega

theorem Piece.length_bits (p : Piece) : p.bits.length = p.bitCount := by simp [Piece.bits]

theorem bits_cons (p : Piece) (ps : List Piece) : bits (p :: ps) = p.bits ++ bits ps :=
  List.flatMap_cons

theorem length_bits : ∀ ps : List Piece,
    (bits ps).length ≤ 8 * (ps.map (·.bytes.length)).sum
  | [] => le_rfl
  | p :: ps => by
    rw [bits_cons, List.length_append, p.length_bits, List.map_cons, List.sum_cons]
    have := p.bitCount_le
    have := length_bits ps
    omega

theorem bits_ne_nil {ps : List Piece} (h : ps ≠ []) (hpos : ∀ p ∈ ps, 0 < p.bitCount) :
    bits ps ≠ [] := by
  obtain ⟨p, ps, rfl⟩ := List.exists_cons_of_ne_nil h
  have hp := hpos p List.mem_cons_self
  rw [← p.length_bits] at hp
  rw [bits_cons]
  exact List.append_ne_nil_of_left_ne_nil (List.ne_nil_of_length_pos hp) _

end BinRaw

/-! ## Bits glued together -/

section Restore

open BinRaw SubGhzProtocolEncoderBinRaw

theorem size_upload_eq : BIN_RAW_SIZE_UPLOAD = 2560 := rfl

theorem buf_data_size_eq : BIN_RAW_BUF_DATA_SIZE = 512 := rfl

/-- The pieces are in the buffer one after the other. -/
def Holds (data : Vector UInt8 BIN_RAW_SIZE_UPLOAD) : ℕ → List Piece → Prop
  | _, [] => True
  | byteBias, p :: ps =>
    (∀ i < 8 * p.bytes.length, bitLibGetBit data (8 * byteBias + i) = bitOf p.bytes i) ∧
      Holds data (byteBias + p.bytes.length) ps

theorem Holds.congr {data data' : Vector UInt8 BIN_RAW_SIZE_UPLOAD} : ∀ {ps : List Piece} {byteBias : ℕ},
    (∀ i, 8 * byteBias ≤ i → i < 8 * (byteBias + (ps.map (·.bytes.length)).sum) →
      bitLibGetBit data' i = bitLibGetBit data i) → Holds data byteBias ps → Holds data' byteBias ps
  | [], _, _, _ => trivial
  | p :: ps, byteBias, heq, h => by
    rw [List.map_cons, List.sum_cons] at heq
    refine ⟨fun i hi => ?_, Holds.congr (fun i hle hlt => heq i (by omega) (by omega)) h.2⟩
    rw [heq _ (by omega) (by omega), h.1 i hi]

theorem restoreBits_eq (bitBias : ℕ) : ∀ (left y ind : ℕ)
    (data : Vector UInt8 BIN_RAW_SIZE_UPLOAD), ind ≤ y + bitBias → y + bitBias + left ≤ 4096 →
    ∃ data', restoreBits bitBias left y data ind = .ok (data', ind + left) ∧
      ∀ i < 8 * BIN_RAW_SIZE_UPLOAD, bitLibGetBit data' i =
        if ind ≤ i ∧ i < ind + left then bitLibGetBit data (y + bitBias + (i - ind))
        else bitLibGetBit data i
  | 0, y, ind, data, _, _ => ⟨data, rfl, fun i _ => by rw [if_neg (by omega)]⟩
  | left + 1, y, ind, data, hind, hle => by
    have hsize := size_upload_eq
    obtain ⟨data', hdata', hbits⟩ := restoreBits_eq bitBias left (y + 1) (ind + 1)
      (bitLibSetBit data ind (bitLibGetBit data (y + bitBias))) (by omega) (by omega)
    refine ⟨data', ?_, fun i hi => ?_⟩
    · rw [restoreBits, subghzProtocolBlocksSetBitArray, buf_data_size_eq, if_pos (by omega)]
      rw [show ind + (left + 1) = ind + 1 + left by omega]
      exact hdata'
    · rw [hbits i hi, getBit_setBit (by omega) _ hi]
      by_cases hlater : ind + 1 ≤ i ∧ i < ind + 1 + left
      · rw [if_pos hlater, if_pos (by omega), getBit_setBit (by omega) _ (by omega),
          if_neg (by omega), show y + 1 + bitBias + (i - (ind + 1)) = y + bitBias + (i - ind) by omega]
      · rw [if_neg hlater]
        by_cases hfirst : i = ind
        · rw [if_pos hfirst, if_pos (by omega), hfirst, Nat.sub_self, Nat.add_zero]
        · rw [if_neg hfirst, if_neg (by omega)]

theorem fullByte_eq {bitCount : ℕ} (h : bitCount < 2 ^ 16) :
    subghzProtocolBinRawGetFullByte bitCount = (bitCount + 7) / 8 := by
  rw [subghzProtocolBinRawGetFullByte, Nat.mod_eq_of_lt h]
  split_ifs <;> omega

/-- Where the pieces are glued together, and what is in front of them stays. -/
theorem restore_eq (zeros : ℕ) : ∀ (ps : List Piece) (byteBias ind : ℕ)
    (data : Vector UInt8 BIN_RAW_SIZE_UPLOAD), Holds data byteBias ps → (∀ p ∈ ps, 0 < p.bitCount) →
    ind ≤ 8 * byteBias → byteBias + (ps.map (·.bytes.length)).sum ≤ 512 →
    ∃ data', restore (markups byteBias ps ++ List.replicate zeros ⟨0, 0⟩) data ind =
        .ok (data', ind + (bits ps).length) ∧
      ∀ i < ind + (bits ps).length, bitLibGetBit data' i =
        if i < ind then bitLibGetBit data i else (bits ps).getD (i - ind) false
  | [], byteBias, ind, data, _, _, _, _ => by
    refine ⟨data, ?_, fun i hi => by rw [if_pos (by simpa [bits] using hi)]⟩
    rcases zeros with _ | zeros
    · rfl
    · rw [List.replicate_succ]
      exact if_pos rfl
  | p :: ps, byteBias, ind, data, hholds, hpos, hind, hle => by
    rw [List.map_cons, List.sum_cons] at hle
    have hsize := size_upload_eq
    have hcount := p.bitCount_le
    have hlength := p.length_bytes
    have hbits := length_bits ps
    obtain ⟨data₁, hdata₁, hbits₁⟩ := restoreBits_eq
      (8 * p.bytes.length - p.bitCount) p.bitCount (byteBias * 8) ind data (by omega) (by omega)
    have hholds₁ : Holds data₁ (byteBias + p.bytes.length) ps :=
      hholds.2.congr fun i hle hlt => by rw [hbits₁ i (by omega), if_neg (by omega)]
    obtain ⟨data', hdata', hbits'⟩ := restore_eq zeros ps _ (ind + p.bitCount) data₁ hholds₁
      (fun q hq => hpos q (List.mem_cons_of_mem _ hq)) (by omega) (by omega)
    refine ⟨data', ?_, fun i hi => ?_⟩
    · rw [markups, List.cons_append, restore, if_neg (hpos p List.mem_cons_self).ne']
      dsimp only
      rw [fullByte_eq (by omega), ← hlength, mul_comm p.bytes.length, hdata₁]
      rw [bits_cons, List.length_append, p.length_bits, ← add_assoc]
      exact hdata'
    · rw [bits_cons, List.length_append, p.length_bits] at hi
      rw [hbits' i (by omega), bits_cons]
      by_cases hold : i < ind
      · rw [if_pos (by omega), if_pos hold, hbits₁ i (by omega), if_neg (by omega)]
      · rw [if_neg hold]
        by_cases hthis : i < ind + p.bitCount
        · rw [if_pos hthis, hbits₁ i (by omega), if_pos (by omega),
            List.getD_append _ _ _ _ (by rw [p.length_bits]; omega),
            show byteBias * 8 + (8 * p.bytes.length - p.bitCount) + (i - ind) =
              8 * byteBias + (8 * p.bytes.length - p.bitCount + (i - ind)) by omega,
            hholds.1 _ (by omega), Piece.bits]
          rw [List.getD_eq_getElem _ _ (by simp; omega)]
          simp
        · rw [if_neg hthis, List.getD_append_right _ _ _ _ (by rw [p.length_bits]; omega),
            p.length_bits, show i - ind - p.bitCount = i - (ind + p.bitCount) by omega]

end Restore

/-! ## Levels -/

section Upload

variable {n capacity maxSizeUpload te : ℕ} {dataArray : Vector UInt8 n}

theorem pushLevel_ok {upload r : List LevelDuration} {levelDuration : LevelDuration}
    (h : pushLevel capacity upload levelDuration = .ok r) :
    upload.length < capacity ∧ r = upload ++ [levelDuration] := by
  unfold pushLevel at h
  split_ifs at h with hcap
  exact ⟨hcap, (Except.ok.inj h).symm⟩

theorem lt_of_mem_push {upload : List LevelDuration} {level : Bool} {duration : ℕ}
    (h : ∀ l ∈ upload, l.duration < 2 ^ 30) :
    ∀ l ∈ upload ++ [levelDurationMake level duration], l.duration < 2 ^ 30 := by
  intro l hl
  rcases List.mem_append.1 hl with hl | hl
  · exact h l hl
  · rw [List.mem_singleton.1 hl]
    exact Nat.mod_lt _ (by norm_num)

theorem uploadLoop_ok : ∀ {left index : ℕ} {lastBit : Bool} {duration : ℕ}
    {upload r : List LevelDuration},
    uploadLoop dataArray capacity maxSizeUpload te left index lastBit duration upload = .ok r →
      upload.length ≤ maxSizeUpload + 1 → (∀ l ∈ upload, l.duration < 2 ^ 30) →
      r ≠ [] ∧ r.length ≤ capacity ∧ r.length ≤ maxSizeUpload + 2 ∧ ∀ l ∈ r, l.duration < 2 ^ 30
  | 0, index, lastBit, duration, upload, r, h, hlen, hdur => by
    obtain ⟨hcap, rfl⟩ := pushLevel_ok h
    rw [List.length_append, List.length_singleton]
    refine ⟨by simp, by omega, by omega, lt_of_mem_push hdur⟩
  | left + 1, index, lastBit, duration, upload, r, h, hlen, hdur => by
    rw [uploadLoop] at h
    split_ifs at h with hsame hmax
    · exact uploadLoop_ok h hlen hdur
    · obtain ⟨upload', hpush, h⟩ := bind_eq_ok h
      obtain ⟨-, rfl⟩ := pushLevel_ok hpush
      refine uploadLoop_ok h ?_ (lt_of_mem_push hdur)
      rw [List.length_append, List.length_singleton]
      omega

theorem uploadLoop_eq : ∀ (rest : List Bool) (index m : ℕ) (lastBit : Bool)
    (upload : List LevelDuration), 0 < index → bitLibGetBit dataArray (index - 1) = lastBit →
    (∀ i < rest.length, bitLibGetBit dataArray (index + i) = rest.getD i false) →
    upload.length + (runsFrom lastBit m rest).length ≤ capacity →
    upload.length + (runsFrom lastBit m rest).length ≤ maxSizeUpload + 2 →
    (∀ r ∈ runsFrom lastBit m rest, r.2 * te < 2 ^ 30) →
    uploadLoop dataArray capacity maxSizeUpload te rest.length index lastBit (m * te) upload =
      .ok (upload ++ (runsFrom lastBit m rest).map fun r => ⟨r.1, r.2 * te⟩)
  | [], index, m, lastBit, upload, hpos, hlast, hbits, hcap, hmax, hdur => by
    have hm : m * te < 2 ^ 30 := hdur (lastBit, m) (by simp [runsFrom])
    rw [List.length_nil, uploadLoop, pushLevel, if_pos (by simpa [runsFrom] using hcap),
      subghzProtocolBlocksGetBitArray, hlast, levelDurationMake, Nat.mod_eq_of_lt hm]
    rfl
  | b :: rest, index, m, lastBit, upload, hpos, hlast, hbits, hcap, hmax, hdur => by
    have hb : bitLibGetBit dataArray index = b := hbits 0 (by simp)
    have hrest : ∀ i < rest.length, bitLibGetBit dataArray (index + 1 + i) = rest.getD i false :=
      fun i hi => by
        rw [add_assoc, add_comm 1 i]
        exact hbits (i + 1) (by simpa using hi)
    rw [runsFrom] at hcap hmax hdur ⊢
    rw [List.length_cons, uploadLoop, subghzProtocolBlocksGetBitArray, hb]
    split_ifs at hcap hmax hdur ⊢ with hsame
    · obtain ⟨m', rs, hrs, hle⟩ := runsFrom_head lastBit (m + 1) rest
      have hm' : m' * te < 2 ^ 30 := hdur (lastBit, m') (by rw [hrs]; exact List.mem_cons_self)
      have hm : (m + 1) * te < 2 ^ 32 :=
        ((Nat.mul_le_mul_right te hle).trans_lt hm').trans (by norm_num)
      rw [← Nat.succ_mul, Nat.mod_eq_of_lt hm]
      exact uploadLoop_eq rest _ _ _ _ (by omega) (by rw [Nat.add_sub_cancel, hb, hsame]) hrest hcap
        hmax hdur
    · obtain ⟨m', rs, hrs, -⟩ := runsFrom_head b 1 rest
      rw [hrs, List.length_cons, List.length_cons] at hmax
      omega
    · rw [List.length_cons] at hcap hmax
      have hm : m * te < 2 ^ 30 := hdur (lastBit, m) List.mem_cons_self
      have hnot : (!lastBit) = b := Bool.not_eq_eq_eq_not.2 (Bool.eq_not.2 hsame)
      have hnext := uploadLoop_eq rest (index + 1) 1 b (upload ++ [⟨lastBit, m * te⟩]) (by omega)
        (by rw [Nat.add_sub_cancel, hb]) hrest
        (by rw [List.length_append, List.length_singleton]; omega)
        (by rw [List.length_append, List.length_singleton]; omega)
        fun r hr => hdur r (List.mem_cons_of_mem _ hr)
      rw [pushLevel, if_pos (by omega), subghzProtocolBlocksGetBitArray, hlast, levelDurationMake,
        Nat.mod_eq_of_lt hm, hnot]
      rw [one_mul, List.append_assoc] at hnext
      exact hnext

end Upload

/-! ## The loop over the pieces -/

namespace BinRawPieces

open BinRaw

theorem getBit_storeBytes {data data' : Vector UInt8 BIN_RAW_SIZE_UPLOAD} {position : ℕ}
    {bytes : List UInt8} (h : storeBytes data position bytes = .ok data') {i : ℕ}
    (hi : i < 8 * BIN_RAW_SIZE_UPLOAD) : bitLibGetBit data' i =
      if 8 * position ≤ i ∧ i < 8 * (position + bytes.length) then bitOf bytes (i - 8 * position)
      else bitLibGetBit data i := by
  unfold storeBytes at h
  split_ifs at h with hle
  obtain rfl := Except.ok.inj h
  rw [getBit_eq, getD_ofFn (by omega : i / 8 < BIN_RAW_SIZE_UPLOAD)]
  dsimp only
  by_cases hin : position ≤ i / 8 ∧ i / 8 < position + bytes.length
  · rw [if_pos hin, if_pos (by omega), bitOf, show (i - 8 * position) / 8 = i / 8 - position by omega,
      show (i - 8 * position) % 8 = i % 8 by omega]
  · rw [if_neg hin, if_neg (by omega), getBit_eq]

/-- Pieces there is room for are all read, and nothing in front of them is lost. -/
theorem readPieces_eq (zeros : ℕ) : ∀ (ps : List Piece) (lines : List FlipperLine) (rounds : ℕ)
    (front : List BinRawMarkup) (byteBias : ℕ) (data : Vector UInt8 BIN_RAW_SIZE_UPLOAD),
    BinRaw.pieces lines = some ps → front.length + ps.length ≤ BIN_RAW_MAX_MARKUP_COUNT →
    byteBias + (ps.map (·.bytes.length)).sum ≤ BIN_RAW_BUF_DATA_SIZE → ps.length < rounds →
    ∃ r, readPieces rounds ⟨data, front ++ List.replicate (ps.length + zeros) ⟨0, 0⟩, front.length,
        byteBias, byteBias⟩ lines = .ok r ∧
      r.dataMarkup = front ++ (markups byteBias ps ++ List.replicate zeros ⟨0, 0⟩) ∧
      Holds r.data byteBias ps ∧
      ∀ i < 8 * byteBias, bitLibGetBit r.data i = bitLibGetBit data i
  | [], lines, rounds + 1, front, byteBias, data, hps, _, _, _ => by
    refine ⟨⟨data, front ++ List.replicate (0 + zeros) ⟨0, 0⟩, front.length, byteBias, byteBias⟩,
      ?_, by simp [markups], trivial, fun _ _ => rfl⟩
    rw [readPieces, readUint32_of_pieces_nil hps]
    rfl
  | p :: ps, lines, rounds + 1, front, byteBias, data, hps, hlen, hle, hrounds => by
    rw [List.length_cons] at hlen hrounds
    rw [List.map_cons, List.sum_cons, buf_data_size_eq] at hle
    have hsize := size_upload_eq
    have hcount := p.bitCount_le
    obtain ⟨lines', rest, hbit, hdata, hrest⟩ := read_of_pieces hps
    have hfull : subghzProtocolBinRawGetFullByte p.bitCount = p.bytes.length := by
      rw [fullByte_eq (by omega), p.length_bytes]
    obtain ⟨data₁, hdata₁⟩ : ∃ data₁, storeBytes data byteBias p.bytes = .ok data₁ :=
      ⟨_, if_pos (by omega)⟩
    obtain ⟨r, hr, hmarkup, hholds, hfront⟩ := readPieces_eq zeros ps _ rounds
      (front ++ [⟨byteBias, p.bitCount⟩]) (byteBias + p.bytes.length) data₁ hrest (by rw [List.length_append, List.length_singleton]; omega)
      (by rw [buf_data_size_eq]; omega) (by omega)
    refine ⟨r, ?_, ?_, ⟨fun i hi => ?_, hholds⟩, fun i hi => ?_⟩
    · rw [readPieces, hbit]
      simp only [readPiece]
      rw [if_neg (by omega), hfull, Nat.mod_eq_of_lt (by omega), buf_data_size_eq, if_neg (by omega),
        hdata, hdata₁, Nat.mod_eq_of_lt (by omega : p.bitCount < 2 ^ 16)]
      dsimp only
      rw [List.length_cons, show ps.length + 1 + zeros = ps.length + zeros + 1 by omega,
        List.replicate_succ, List.set_append_right _ _ le_rfl, Nat.sub_self, List.set_cons_zero]
      rw [List.length_append, List.length_singleton, List.append_assoc] at hr
      exact hr
    · rw [hmarkup, markups, List.append_assoc]
      rfl
    · rw [hfront _ (by omega), getBit_storeBytes hdata₁ (by omega), if_pos (by omega),
        Nat.add_sub_cancel_left]
    · rw [hfront _ (by omega), getBit_storeBytes hdata₁ (by omega), if_neg (by omega)]

/-- What is true of the markups whatever is read. -/
structure Kept (pieces : BinRawPieces) : Prop where
  length_eq : pieces.dataMarkup.length = BIN_RAW_MAX_MARKUP_COUNT
  zero : ∀ m ∈ pieces.dataMarkup.drop pieces.ind, m.bitCount = 0
  within : ∀ m ∈ pieces.dataMarkup,
    m.byteBias + (m.bitCount + 7) / 8 ≤ BIN_RAW_BUF_DATA_SIZE

theorem kept_start (data : Vector UInt8 BIN_RAW_SIZE_UPLOAD) : Kept (start data) where
  length_eq := List.length_replicate
  zero m hm := by
    simp only [start, List.drop_zero] at hm
    simp [List.eq_of_mem_replicate hm]
  within m hm := by
    simp only [start] at hm
    simp [List.eq_of_mem_replicate hm]

theorem fullByte_mod (bitCount : ℕ) :
    subghzProtocolBinRawGetFullByte bitCount = (bitCount % 2 ^ 16 + 7) / 8 := by
  rw [subghzProtocolBinRawGetFullByte]
  split_ifs <;> omega

theorem Kept.set {pieces : BinRawPieces} (h : pieces.Kept) {data : Vector UInt8 BIN_RAW_SIZE_UPLOAD}
    {bitCount byteBias byteCount : ℕ}
    (hle : pieces.byteBias + (bitCount + 7) / 8 ≤ BIN_RAW_BUF_DATA_SIZE) {ind : ℕ}
    (hind : ind = pieces.ind + 1 ∨ ind = pieces.ind ∧ bitCount = 0) :
    Kept ⟨data, pieces.dataMarkup.set pieces.ind ⟨pieces.byteBias, bitCount⟩, ind, byteBias,
      byteCount⟩ where
  length_eq := by
    dsimp only
    rw [List.length_set, h.length_eq]
  zero m hm := by
    dsimp only at hm
    rcases hind with rfl | ⟨rfl, hzero⟩
    · rw [List.drop_set_of_lt (Nat.lt_succ_self _)] at hm
      exact h.zero m (List.drop_subset_drop_left _ (Nat.le_succ _) hm)
    · rw [List.drop_set, if_neg (lt_irrefl _)] at hm
      rcases List.mem_or_eq_of_mem_set hm with hm | rfl
      · exact h.zero m hm
      · exact hzero
  within m hm := by
    rcases List.mem_or_eq_of_mem_set hm with hm | rfl
    · exact h.within m hm
    · exact hle

/-- One more piece takes at most one more markup and one more line of `Bit_RAW`. -/
theorem readPiece_kept {pieces : BinRawPieces} {tempData : ℕ} {lines : List FlipperLine}
    {r : BinRawPieces × Option (List FlipperLine)} (h : pieces.Kept)
    (hcount : pieces.byteCount = pieces.byteBias) (hle : pieces.byteBias ≤ BIN_RAW_BUF_DATA_SIZE)
    (hread : pieces.readPiece tempData lines = .ok r) : r.1.Kept ∧ r.1.ind ≤ pieces.ind + 1 ∧
      ∀ rest, r.2 = some rest → r.1.byteCount = r.1.byteBias ∧
        r.1.byteBias ≤ BIN_RAW_BUF_DATA_SIZE ∧ count rest ≤ count lines := by
  have hfull := fullByte_mod tempData
  have hlt := Nat.mod_lt tempData (by norm_num : 0 < 2 ^ 16)
  rw [buf_data_size_eq] at hle
  unfold readPiece at hread
  dsimp only at hread
  rw [hcount] at hread
  split_ifs at hread with hind hbytes
  · obtain rfl := Except.ok.inj hread
    exact ⟨h, Nat.le_succ _, by simp⟩
  · obtain rfl := Except.ok.inj hread
    exact ⟨⟨h.length_eq, h.zero, h.within⟩, Nat.le_succ _, by simp⟩
  · rw [buf_data_size_eq, Nat.mod_eq_of_lt (by omega)] at hbytes
    split at hread
    · simp at hread
    · obtain rfl := Except.ok.inj hread
      exact ⟨h.set (by rw [buf_data_size_eq]; omega) (.inr ⟨rfl, rfl⟩), Nat.le_succ _,
        by simp⟩
    · rename_i data rest hstore hrest
      obtain rfl := Except.ok.inj hread
      refine ⟨h.set (by rw [buf_data_size_eq]; omega) (.inl rfl), le_rfl, fun rest' hrest' => ?_⟩
      obtain rfl := Option.some.inj hrest'
      refine ⟨rfl, ?_, readHex_count hrest⟩
      dsimp only
      rw [buf_data_size_eq, Nat.mod_eq_of_lt (by omega)]
      omega

theorem readPieces_kept : ∀ {rounds : ℕ} {pieces r : BinRawPieces} {lines : List FlipperLine},
    pieces.Kept → pieces.byteCount = pieces.byteBias → pieces.byteBias ≤ BIN_RAW_BUF_DATA_SIZE →
    readPieces rounds pieces lines = .ok r → r.Kept ∧ r.ind ≤ pieces.ind + count lines
  | 0, pieces, r, lines, h, _, _, hread => by
    obtain rfl := Except.ok.inj hread
    exact ⟨h, Nat.le_add_right _ _⟩
  | rounds + 1, pieces, r, lines, h, hcount, hle, hread => by
    rw [readPieces] at hread
    split at hread
    · obtain rfl := Except.ok.inj hread
      exact ⟨h, Nat.le_add_right _ _⟩
    · rename_i tempData lines' hbit
      have hlines := readUint32_count hbit
      split at hread
      · simp at hread
      · rename_i pieces' hpiece
        obtain rfl := Except.ok.inj hread
        obtain ⟨h', hind, -⟩ := readPiece_kept h hcount hle hpiece
        exact ⟨h', by dsimp only at hind; omega⟩
      · rename_i pieces' rest hpiece
        obtain ⟨h', hind, hrest⟩ := readPiece_kept h hcount hle hpiece
        obtain ⟨hcount', hle', hlines'⟩ := hrest rest rfl
        obtain ⟨hr, hr'⟩ := readPieces_kept h' hcount' hle' hread
        exact ⟨hr, by dsimp only at hind hr'; omega⟩

theorem length_takeWhile_le {α : Type*} {P : α → Bool} : ∀ {n : ℕ} {l : List α},
    (∀ a ∈ l.drop n, P a = false) → (l.takeWhile P).length ≤ n
  | _, [], _ => Nat.zero_le _
  | 0, a :: l, h => by
    rw [List.takeWhile_cons_of_neg (by simpa using h a List.mem_cons_self)]
    rfl
  | n + 1, a :: l, h => by
    rw [List.takeWhile_cons]
    split_ifs
    · exact Nat.succ_le_succ (length_takeWhile_le h)
    · exact Nat.zero_le _

end BinRawPieces

/-! ## Files that are sent as they are -/

namespace BinRaw

theorem length_markups : ∀ (byteBias : ℕ) (ps : List Piece),
    (markups byteBias ps).length = ps.length
  | _, [] => rfl
  | _, p :: ps => by rw [markups, List.length_cons, length_markups, List.length_cons]

theorem mem_markups {p : Piece} : ∀ (byteBias : ℕ) {ps : List Piece}, p ∈ ps →
    ∃ m ∈ markups byteBias ps, m.bitCount = p.bitCount
  | byteBias, q :: ps, h => by
    rcases List.mem_cons.1 h with rfl | h
    · exact ⟨_, List.mem_cons_self, rfl⟩
    · obtain ⟨m, hm, hcount⟩ := mem_markups (byteBias + q.bytes.length) h
      exact ⟨m, List.mem_cons_of_mem _ hm, hcount⟩

theorem sum_of_markups : ∀ (byteBias : ℕ) (ps : List Piece), byteBias ≤ BIN_RAW_BUF_DATA_SIZE →
    (∀ m ∈ markups byteBias ps, m.byteBias + (m.bitCount + 7) / 8 ≤ BIN_RAW_BUF_DATA_SIZE) →
    byteBias + (ps.map (·.bytes.length)).sum ≤ BIN_RAW_BUF_DATA_SIZE
  | _, [], h, _ => h
  | byteBias, p :: ps, _, hwithin => by
    have hp := hwithin _ List.mem_cons_self
    rw [← p.length_bytes] at hp
    rw [List.map_cons, List.sum_cons, ← add_assoc]
    exact sum_of_markups _ ps hp fun m hm => hwithin m (List.mem_cons_of_mem _ hm)

theorem takeWhile_markups (zeros : ℕ) : ∀ {byteBias : ℕ} {ps : List Piece},
    (∀ p ∈ ps, 0 < p.bitCount) →
    (markups byteBias ps ++ List.replicate zeros (⟨0, 0⟩ : BinRawMarkup)).takeWhile
      (·.bitCount ≠ 0) = markups byteBias ps
  | _, [], _ => by cases zeros <;> simp [markups, List.replicate_succ]
  | byteBias, p :: ps, h => by
    rw [markups, List.cons_append, List.takeWhile_cons_of_pos
      (by simpa using (h p List.mem_cons_self).ne'),
      takeWhile_markups zeros fun q hq => h q (List.mem_cons_of_mem _ hq)]

end BinRaw

namespace SubGhzProtocolEncoderBinRaw

open BinRaw BinRawPieces

variable {inst inst' : SubGhzProtocolEncoderBinRaw} {lines : List FlipperLine}

theorem deserialize_ok {r r' : ℕ × List FlipperLine}
    {x : Except SubGhzProtocolStatus SubGhzProtocolEncoderBinRaw}
    (hr : readUint32 bitKey lines = some r) (hr' : readUint32 teKey r.2 = some r')
    (h : inst.deserialize lines = .ok x) : ∃ inst' pieces data ind, x = .ok inst' ∧
      readPieces (BIN_RAW_MAX_MARKUP_COUNT + 1) (start inst.data) r'.2 = .ok pieces ∧
      restore pieces.dataMarkup pieces.data 0 = .ok (data, ind) ∧
      subghzProtocolBlocksGetUploadFromBitArray data ind BIN_RAW_SIZE_UPLOAD
        inst.encoder.sizeUpload r'.1 .left = .ok inst'.encoder.upload ∧
      inst'.te = r'.1 ∧ inst'.dataMarkup = pieces.dataMarkup := by
  rw [deserialize, hr] at h
  dsimp only at h
  rw [hr'] at h
  obtain ⟨pieces, hpieces, h⟩ := bind_eq_ok h
  obtain ⟨inst₁, hupload, h⟩ := bind_eq_ok h
  obtain ⟨⟨data, ind⟩, hrestore, hupload⟩ := bind_eq_ok hupload
  obtain ⟨upload, hlevels, hupload⟩ := bind_eq_ok hupload
  obtain rfl := Except.ok.inj hupload
  obtain rfl := Except.ok.inj h
  exact ⟨_, pieces, data, ind, rfl, hpieces, hrestore, hlevels, rfl, rfl⟩

theorem deserialize_eq {r r' : ℕ × List FlipperLine} {pieces : BinRawPieces}
    {data : Vector UInt8 BIN_RAW_SIZE_UPLOAD} {ind : ℕ} {upload : List LevelDuration}
    (hr : readUint32 bitKey lines = some r) (hr' : readUint32 teKey r.2 = some r')
    (hpieces : readPieces (BIN_RAW_MAX_MARKUP_COUNT + 1) (start inst.data) r'.2 = .ok pieces)
    (hrestore : restore pieces.dataMarkup pieces.data 0 = .ok (data, ind))
    (hlevels : subghzProtocolBlocksGetUploadFromBitArray data ind BIN_RAW_SIZE_UPLOAD
      inst.encoder.sizeUpload r'.1 .left = .ok upload) : ∃ inst',
      inst.deserialize lines = .ok (.ok inst') ∧ inst'.te = r'.1 ∧
        inst'.encoder.upload = upload ∧ inst'.dataMarkup = pieces.dataMarkup := by
  rw [deserialize, hr]
  dsimp only
  rw [hr']
  dsimp only
  rw [hpieces]
  simp only [bind, Except.bind, getUpload, hrestore, hlevels]
  exact ⟨_, rfl, rfl, rfl, rfl⟩

theorem fits_of_loads {r r' : ℕ × List FlipperLine} (h : inst.Loads lines)
    (hr : readUint32 bitKey lines = some r) (hr' : readUint32 teKey r.2 = some r') :
    ∃ ps, pieces lines = some ps ∧ pieces r'.2 = some ps ∧
      Fits inst.encoder.sizeUpload r'.1 ps := by
  obtain ⟨x, hx, hall⟩ := h
  obtain ⟨inst', pieces, data, ind, rfl, hread, -, hlevels, hte, hmarkup⟩ :=
    deserialize_ok hr hr' hx
  obtain ⟨ps, hps, hstored, hupload⟩ := hall inst' rfl
  obtain ⟨hkept, hind⟩ := readPieces_kept (kept_start _) rfl (Nat.zero_le _) hread
  obtain ⟨hne, hcap, hmax, hdur⟩ := uploadLoop_ok hlevels (Nat.zero_le _) (by simp)
  rw [stored, hmarkup] at hstored
  rw [hupload, levels] at hne hcap hmax hdur
  rw [List.length_map] at hcap hmax
  rw [hte] at hdur
  have hlength : ps.length ≤ pieces.ind := by
    rw [← length_markups 0 ps, ← hstored]
    exact length_takeWhile_le fun m hm => by simpa using hkept.zero m hm
  refine ⟨ps, hps, ?_, ?_⟩
  · -- as many lines of `Bit_RAW` have been read as there are
    obtain ⟨skipped, line, rfl, hbit, -⟩ := readUint32_eq_some hr
    obtain ⟨skipped', line', hlines, hte', -⟩ := readUint32_eq_some hr'
    have hline : line.key ≠ bitRawKey := by rw [hbit]; decide
    have hline' : line'.key ≠ bitRawKey := by rw [hte']; decide
    have hcount := length_pieces hps
    rw [count_append, count_cons, if_neg hline, hlines, count_append, count_cons, if_neg hline']
      at hcount
    simp only [start] at hind
    rw [pieces_append (by omega), BinRaw.pieces, if_neg hline, hlines, pieces_append (by omega),
      BinRaw.pieces, if_neg hline'] at hps
    exact hps
  · refine ⟨?_, ?_, fun p hp => ?_, ?_, hcap, hmax, fun r hr => ?_⟩
    · rintro rfl
      exact hne rfl
    · rw [← length_markups 0 ps, ← hstored, ← hkept.length_eq]
      exact (List.takeWhile_sublist _).length_le
    · obtain ⟨m, hm, hcount⟩ := mem_markups 0 hp
      rw [← hstored] at hm
      have hne : m.bitCount ≠ 0 := by simpa using List.mem_takeWhile_imp hm
      omega
    · have hsum := sum_of_markups 0 ps (Nat.zero_le _) fun m hm => by
        rw [← hstored] at hm
        exact hkept.within m ((List.takeWhile_sublist _).subset hm)
      omega
    · exact hdur _ (List.mem_map_of_mem hr)

theorem loads_of_fits {r r' : ℕ × List FlipperLine} {ps : List Piece}
    (hr : readUint32 bitKey lines = some r) (hr' : readUint32 teKey r.2 = some r')
    (hps : pieces lines = some ps) (hps' : pieces r'.2 = some ps)
    (hfits : Fits inst.encoder.sizeUpload r'.1 ps) : inst.Loads lines := by
  have hlength := hfits.length_le
  have hbytes := hfits.bytes_le
  have hbits := length_bits ps
  have hsize := size_upload_eq
  rw [buf_data_size_eq] at hbytes
  obtain ⟨pieces, hpieces, hmarkup, hholds, -⟩ := readPieces_eq
    (BIN_RAW_MAX_MARKUP_COUNT - ps.length) ps r'.2 (BIN_RAW_MAX_MARKUP_COUNT + 1) [] 0 inst.data hps'
    (by simpa using hlength)
    (by rw [buf_data_size_eq]; omega) (by omega)
  rw [Nat.add_sub_of_le hlength] at hpieces
  rw [List.nil_append] at hmarkup
  obtain ⟨data, hrestore, hdata⟩ := restore_eq (BIN_RAW_MAX_MARKUP_COUNT - ps.length) ps 0 0 _ hholds
    hfits.pos (Nat.zero_le (8 * 0)) (by omega)
  rw [← hmarkup, Nat.zero_add] at hrestore
  have hdata' : ∀ i < (bits ps).length, bitLibGetBit data i = (bits ps).getD i false :=
    fun i hi => by simpa using hdata i (by omega)
  obtain ⟨b, rest, hrest⟩ := List.exists_cons_of_ne_nil (bits_ne_nil hfits.ne_nil hfits.pos)
  rw [hrest] at hdata'
  have hruns : runs (bits ps) = runsFrom b 1 rest := by rw [hrest, runs_cons]
  have hupload := @uploadLoop_eq _ BIN_RAW_SIZE_UPLOAD inst.encoder.sizeUpload r'.1 data rest 1 1 b []
    one_pos (hdata' 0 (by simp))
    (fun i hi => by rw [add_comm]; exact hdata' (i + 1) (by simpa using hi))
    (by rw [← hruns, List.length_nil, Nat.zero_add]; exact hfits.runs_le)
    (by rw [← hruns, List.length_nil, Nat.zero_add]; exact hfits.runs_le_size)
    (by rw [← hruns]; exact hfits.lt_duration)
  have hlevels : subghzProtocolBlocksGetUploadFromBitArray data (bits ps).length
      BIN_RAW_SIZE_UPLOAD inst.encoder.sizeUpload r'.1 .left = .ok (levels r'.1 (bits ps)) := by
    rw [List.nil_append, one_mul] at hupload
    rw [hrest, levels, runs_cons, List.length_cons, subghzProtocolBlocksGetUploadFromBitArray]
    simp only [reduceCtorEq, false_and, if_false, Nat.add_sub_cancel, Nat.zero_add]
    rw [subghzProtocolBlocksGetBitArray, hdata' 0 (by simp)]
    exact hupload
  obtain ⟨inst', hok, hte, hupload', hmarkup'⟩ := deserialize_eq hr hr' hpieces hrestore hlevels
  refine ⟨_, hok, fun inst'' heq => ⟨ps, hps, ?_, ?_⟩⟩
  · obtain rfl := Except.ok.inj heq
    rw [stored, hmarkup', hmarkup, takeWhile_markups _ hfits.pos]
  · obtain rfl := Except.ok.inj heq
    rw [hupload', hte]

/-- A file is sent as it is if its pieces are all there, are all behind `TE`, and there is room for
them and for their levels. -/
theorem loads_iff (inst : SubGhzProtocolEncoderBinRaw) (lines : List FlipperLine) :
    inst.Loads lines ↔ ∀ r ∈ readUint32 bitKey lines, ∀ r' ∈ readUint32 teKey r.2,
      ∃ ps, pieces lines = some ps ∧ pieces r'.2 = some ps ∧
        Fits inst.encoder.sizeUpload r'.1 ps := by
  constructor
  · intro h r hr r' hr'
    exact fits_of_loads h hr hr'
  · intro h
    rcases hr : readUint32 bitKey lines with _ | r
    · exact ⟨.error .errorParserBitCount, by rw [deserialize, hr], by simp⟩
    rcases hr' : readUint32 teKey r.2 with _ | r'
    · refine ⟨.error .errorParserTe, ?_, by simp⟩
      rw [deserialize, hr]
      dsimp only
      rw [hr']
    · obtain ⟨ps, hps, hps', hfits⟩ := h r hr r' hr'
      exact loads_of_fits hr hr' hps hps' hfits

/-- Nothing of `Data_RAW` is there, and the call is `Ok` all the same. -/
theorem not_loads_missing_data : ¬ alloc.Loads
    [⟨bitKey, [[56]], by decide⟩, ⟨teKey, [[49]], by decide⟩, ⟨bitRawKey, [[56]], by decide⟩] := by
  rintro ⟨x, hx, h⟩
  obtain ⟨inst', -, -, -, rfl, -⟩ := @deserialize_ok _ _ (8, _) (1, _) _ rfl rfl hx
  obtain ⟨ps, hps, -⟩ := h inst' rfl
  exact absurd hps (by simp [pieces, pieceOf, bitKey, teKey, bitRawKey])

end SubGhzProtocolEncoderBinRaw

end KiisuFirmware
