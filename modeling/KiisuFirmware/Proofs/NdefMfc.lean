import KiisuFirmware.NdefMfc
import Mathlib.Tactic

/-!
# The data space of MIFARE Classic cards

The data space is the data blocks of all sectors but that of MAD2, one behind the other (`content`).
A position in it has a block of the card (`blockAt`), and the loop over the sectors reads what is at
the positions from one on. Parsing starts with the sectors of the first directory, but the entries of
the second one are taken for sectors that are 16 too low.
-/

namespace KiisuFirmware

namespace NdefMfc

/-! ## The data space -/

def sectorBlocks (sector : ℕ) : List ℕ :=
  if sector = 16 then []
  else if sector < 32 then List.range' (sector * 4) 3
  else List.range' (128 + (sector - 32) * 16) 15

def dataBlocks (type : MfClassicType) : List ℕ :=
  (List.range (mfClassicGetTotalSectorsNum type)).flatMap sectorBlocks

/-- The data blocks of a card, without trailers and the sector of MAD2. -/
def content (data : MfClassicData) : List UInt8 :=
  (dataBlocks data.type).flatMap fun block => (data.block (UInt8.ofNat block)).toList

/-- The block of the card that is one of the data space. -/
def blockAt (n : ℕ) : ℕ :=
  if n < 48 then n / 3 * 4 + n % 3
  else if n < 93 then n / 3 * 4 + n % 3 + 4
  else (n - 93) / 15 * 16 + (n - 93) % 15 + 128

theorem dataBlocks_eq (type : MfClassicType) :
    dataBlocks type = (List.range (dataSize type / 16)).map blockAt := by
  cases type
  all_goals decide +kernel

theorem dataSize_le (type : MfClassicType) : dataSize type ≤ 213 * 16 := by
  cases type
  all_goals decide

theorem dataSize_div_mul (type : MfClassicType) : dataSize type / 16 * 16 = dataSize type := by
  cases type
  all_goals rfl

theorem toList_eq (block : MfClassicBlock) :
    block.toList = (List.range 16).map fun i => block.toList.getD i 0 := by
  refine List.ext_getElem (by simp) fun i h1 h2 => ?_
  simp at h1
  simp [h1]

theorem flatMap_blocks (block : ℕ → MfClassicBlock) (n : ℕ) :
    ((List.range n).flatMap fun i => (block i).toList) =
      (List.range (n * 16)).map fun i => (block (i / 16)).toList.getD (i % 16) 0 := by
  induction n with
  | zero => rfl
  | succ n ih =>
    rw [List.range_succ, List.flatMap_append, ih, Nat.succ_mul, List.range_add, List.map_append,
      List.flatMap_singleton, toList_eq (block n), List.map_map]
    congr 1
    refine List.map_congr_left fun i hi => ?_
    have hi := List.mem_range.mp hi
    simp only [Function.comp_apply]
    rw [show (n * 16 + i) / 16 = n by omega, show (n * 16 + i) % 16 = i by omega]

/-- A byte of the card. -/
def byteOf (data : MfClassicData) (i : ℕ) : UInt8 :=
  (data.block (UInt8.ofNat (i / 16))).toList.getD (i % 16) 0

/-- The place in the card of a position of the data space. -/
def place (pos : ℕ) : ℕ := blockAt (pos / 16) * 16 + pos % 16

theorem memory_eq (data : MfClassicData) :
    memory data = (List.range (256 * 16)).map (byteOf data) :=
  flatMap_blocks (fun block => data.block (UInt8.ofNat block)) 256

theorem content_eq (data : MfClassicData) :
    content data = (List.range (dataSize data.type)).map fun pos => byteOf data (place pos) := by
  rw [content, dataBlocks_eq, List.flatMap_map,
    flatMap_blocks (fun n => data.block (UInt8.ofNat (blockAt n))), dataSize_div_mul]
  refine List.map_congr_left fun pos _ => ?_
  unfold byteOf place
  rw [show (blockAt (pos / 16) * 16 + pos % 16) / 16 = blockAt (pos / 16) by omega,
    show (blockAt (pos / 16) * 16 + pos % 16) % 16 = pos % 16 by omega]

theorem length_content (data : MfClassicData) : (content data).length = dataSize data.type := by
  rw [content_eq, List.length_map, List.length_range]

theorem slice_map_range (f : ℕ → UInt8) {n pos len : ℕ} (h : pos + len ≤ n) :
    (((List.range n).map f).drop pos).take len = (List.range' pos len).map f := by
  refine List.ext_getElem ?_ fun i h1 h2 => ?_
  · simp
    omega
  · simp

theorem memcpy_eq (data : MfClassicData) {cur len : ℕ} (h : cur + len ≤ 256 * 16) :
    memcpy data cur len = some ((List.range' cur len).map (byteOf data)) := by
  rw [memcpy, MF_CLASSIC_BLOCK_SIZE, if_pos h, memory_eq, slice_map_range _ h]

/-! ## Sectors -/

/-- Where the sector of a block of the data space ends. -/
def sectorEnd (n : ℕ) : ℕ := if n < 93 then n / 3 * 3 + 3 else 93 + ((n - 93) / 15 * 15 + 15)

theorem trailerNum_eq {block : ℕ} (h : block < 256) :
    (mfClassicGetSectorTrailerNumByBlock (UInt8.ofNat block)).toNat =
      if block < 128 then block / 4 * 4 + 3 else block / 16 * 16 + 15 := by
  have hall : ∀ b < 256, (mfClassicGetSectorTrailerNumByBlock (UInt8.ofNat b)).toNat =
      if b < 128 then b / 4 * 4 + 3 else b / 16 * 16 + 15 := by
    decide +kernel
  exact hall block h

theorem blockAt_lt {n : ℕ} (h : n < 213) : blockAt n < 256 := by
  unfold blockAt
  split_ifs
  all_goals omega

theorem lt_sectorEnd {n : ℕ} (h : n < 213) : n < sectorEnd n ∧ sectorEnd n ≤ 213 := by
  unfold sectorEnd
  split_ifs
  all_goals omega

theorem trailerNum_blockAt {n : ℕ} (h : n < 213) :
    (mfClassicGetSectorTrailerNumByBlock (UInt8.ofNat (blockAt n))).toNat =
      blockAt n + (sectorEnd n - n) := by
  rw [trailerNum_eq (blockAt_lt h)]
  unfold blockAt sectorEnd
  split_ifs
  all_goals omega

theorem blockAt_of_sector {n m : ℕ} (hle : n ≤ m) (hlt : m < sectorEnd n) :
    blockAt m = blockAt n + (m - n) := by
  unfold blockAt sectorEnd at *
  split_ifs at *
  all_goals omega

theorem nextBlock_eq {n : ℕ} (hlt : sectorEnd n < 213) :
    nextBlock (blockAt n + (sectorEnd n - n)) = blockAt (sectorEnd n) := by
  unfold nextBlock blockAt sectorEnd at *
  split_ifs at *
  all_goals omega

/-! ## Reading -/

theorem realBlockOf_eq (pos : ℕ) : realBlockOf pos = blockAt (pos / 16) := by
  unfold realBlockOf blockAt MF_CLASSIC_BLOCK_SIZE
  dsimp only
  split_ifs
  all_goals omega

theorem copied_eq (data : MfClassicData) {pos len : ℕ}
    (hlen : pos + len ≤ sectorEnd (pos / 16) * 16) :
    (List.range' (place pos) len).map (byteOf data) =
      (List.range' pos len).map fun pos => byteOf data (place pos) := by
  refine List.ext_getElem (by simp) fun i h1 h2 => ?_
  simp only [List.length_map, List.length_range'] at h1
  have hplace : place (pos + i) = place pos + i := by
    have hsector := blockAt_of_sector (show pos / 16 ≤ (pos + i) / 16 by omega)
      (show (pos + i) / 16 < sectorEnd (pos / 16) by omega)
    unfold place
    omega
  simp [hplace]

theorem memcpy_sector (data : MfClassicData) {pos len : ℕ} (hpos : pos / 16 < 213)
    (hlen : pos + len ≤ sectorEnd (pos / 16) * 16) :
    memcpy data (place pos) len =
      some ((List.range' pos len).map fun pos => byteOf data (place pos)) := by
  have htrailer := trailerNum_blockAt hpos
  have hlt := (mfClassicGetSectorTrailerNumByBlock (UInt8.ofNat (blockAt (pos / 16)))).toNat_lt
  have hend := lt_sectorEnd hpos
  rw [memcpy_eq, copied_eq data hlen]
  unfold place
  omega

theorem getLoop_eq (data : MfClassicData) : ∀ (len pos : ℕ), pos + len ≤ 213 * 16 →
    getLoop data (blockAt (pos / 16)) (place pos) len =
      some ((List.range' pos len).map fun pos => byteOf data (place pos)) := by
  intro len
  induction len using Nat.strong_induction_on with
  | _ len ih =>
    intro pos hlen
    rw [getLoop]
    by_cases hzero : len = 0
    · subst hzero
      rfl
    have hpos : pos / 16 < 213 := by omega
    obtain ⟨hend, hle⟩ := lt_sectorEnd hpos
    rw [if_neg hzero, dif_pos (blockAt_lt hpos), trailerNum_blockAt hpos]
    dsimp only [MF_CLASSIC_BLOCK_SIZE]
    have hdiff : pointerDiff ((blockAt (pos / 16) + (sectorEnd (pos / 16) - pos / 16)) * 16)
        (place pos) = sectorEnd (pos / 16) * 16 - pos := by
      unfold pointerDiff place
      rw [if_pos (by omega)]
      omega
    rw [hdiff]
    obtain ⟨chunk, hchunk⟩ : ∃ chunk, min (sectorEnd (pos / 16) * 16 - pos) len = chunk := ⟨_, rfl⟩
    rw [hchunk, memcpy_sector data hpos (by omega)]
    dsimp only
    have hsplit : List.range' pos len =
        List.range' pos chunk ++ List.range' (pos + chunk) (len - chunk) := by
      rw [List.range'_append_1]
      congr 1
      omega
    rw [hsplit, List.map_append]
    by_cases hlast : len - chunk = 0
    · rw [hlast, getLoop, if_pos rfl]
      rfl
    · have hnext : pos + chunk = sectorEnd (pos / 16) * 16 := by omega
      have hdiv : (pos + chunk) / 16 = sectorEnd (pos / 16) := by omega
      have hplace : blockAt (sectorEnd (pos / 16)) * 16 = place (pos + chunk) := by
        unfold place
        rw [hdiv]
        omega
      have hrest := ih (len - chunk) (by omega) (pos + chunk) (by omega)
      rw [hdiv] at hrest
      rw [nextBlock_eq (by omega), hplace, hrest]
      rfl

/-- The bytes of the range are read, or nothing if the data space does not have it. -/
def ReadsRange (data : MfClassicData) (pos len : UInt32) : Prop :=
  get data (dataSize data.type) pos len =
    some (if pos.toNat + len.toNat ≤ (content data).length then
      some (((content data).drop pos.toNat).take len.toNat)
    else none)

theorem readsRange_iff (data : MfClassicData) (pos len : UInt32) :
    ReadsRange data pos len ↔
      ¬(2 ^ 32 ≤ pos.toNat + len.toNat ∧ pos.toNat + len.toNat - 2 ^ 32 ≤ dataSize data.type) := by
  have hsize := dataSize_le data.type
  have hpos := pos.toNat_lt
  have hlen := len.toNat_lt
  unfold ReadsRange get
  rw [length_content, UInt32.toNat_add]
  by_cases hwrap : 2 ^ 32 ≤ pos.toNat + len.toNat
  · have hmod : (pos.toNat + len.toNat) % 2 ^ 32 = pos.toNat + len.toNat - 2 ^ 32 := by omega
    rw [hmod, if_neg (show ¬pos.toNat + len.toNat ≤ dataSize data.type by omega)]
    split_ifs with hlt
    · exact iff_of_true rfl fun h => absurd hlt (not_lt_of_ge h.2)
    · refine iff_of_false (fun h => ?_) fun h => h ⟨hwrap, not_lt.mp hlt⟩
      obtain ⟨bytes, -, hbytes⟩ := Option.map_eq_some_iff.mp h
      cases hbytes
  · refine iff_of_true ?_ fun h => hwrap h.1
    rw [Nat.mod_eq_of_lt (not_le.mp hwrap)]
    by_cases hfit : pos.toNat + len.toNat ≤ dataSize data.type
    · have hloop := getLoop_eq data len.toNat pos.toNat (hfit.trans hsize)
      rw [if_neg (not_lt.mpr hfit), if_pos hfit, realBlockOf_eq, content_eq, slice_map_range _ hfit]
      exact congrArg (Option.map some) hloop
    · rw [if_pos (not_le.mp hfit), if_neg hfit]

/-! ## Sectors with NDEF -/

/-- The entry of a sector in a directory with the public key is that of NDEF: the first directory has
the sectors 1 to 15, and the second one those from 17 on. -/
def EntryIsNdef (data : MfClassicData) (sector : ℕ) : Prop :=
  (1 ≤ sector ∧ sector ≤ 15 ∧ isMadKey data 0 = true ∧ entryIsNdef data 1 (sector - 1) = true) ∨
  (17 ≤ sector ∧ sector ≤ 39 ∧ isMadKey data 16 = true ∧ entryIsNdef data 64 (sector - 17) = true)

instance (data : MfClassicData) (sector : ℕ) : Decidable (EntryIsNdef data sector) :=
  inferInstanceAs (Decidable (_ ∨ _))

/-- Where a sector begins in the data space. -/
def sectorStart (sector : ℕ) : ℕ := ((List.range sector).flatMap sectorBlocks).length * 16

/-- The sectors of which TLVs are parsed are those with an entry for NDEF, each from its begin on. -/
def StartsAtEntries (data : MfClassicData) : Prop :=
  starts data =
    ((List.range (mfClassicGetTotalSectorsNum data.type)).filter
      fun sector => EntryIsNdef data sector).map fun sector =>
        (sector, sectorStart sector, (content data).length - sectorStart sector)

theorem foldl_marks (data : MfClassicData) (block : UInt8) (marks : ℕ → Bool) (n sector : ℕ) :
    (List.range n).foldl
        (fun marks aidIndex =>
          if entryIsNdef data block aidIndex then Function.update marks (aidIndex + 1) true
          else marks) marks sector = true ↔
      marks sector = true ∨
        (1 ≤ sector ∧ sector ≤ n ∧ entryIsNdef data block (sector - 1) = true) := by
  induction n with
  | zero =>
    rw [List.range_zero, List.foldl_nil]
    exact ⟨.inl, fun h => h.elim id fun h => absurd h.1 (by omega)⟩
  | succ n ih =>
    rw [List.range_succ, List.foldl_append, List.foldl_cons, List.foldl_nil]
    by_cases hsector : sector = n + 1
    · subst hsector
      by_cases hentry : entryIsNdef data block n = true
      · rw [if_pos hentry, Function.update_self]
        exact iff_of_true rfl (.inr ⟨by omega, le_rfl, hentry⟩)
      · rw [if_neg hentry, ih]
        refine or_congr_right (iff_of_false (fun h => ?_) fun h => hentry h.2.2)
        exact absurd h.2.1 (Nat.not_succ_le_self n)
    · have hrange : 1 ≤ sector ∧ sector ≤ n ∧ entryIsNdef data block (sector - 1) = true ↔
          1 ≤ sector ∧ sector ≤ n + 1 ∧ entryIsNdef data block (sector - 1) = true := by
        constructor
        · exact fun h => ⟨h.1, h.2.1.trans (Nat.le_succ n), h.2.2⟩
        · exact fun h => ⟨h.1, by omega, h.2.2⟩
      rw [← hrange, ← ih]
      split_ifs
      · rw [Function.update_of_ne hsector]
      · rfl

theorem markSectors_iff (data : MfClassicData) (marks : ℕ → Bool) (mad : UInt8 × ℕ) (sector : ℕ) :
    markSectors data marks mad sector = true ↔ marks sector = true ∨
      ((mfClassicGetSectorByBlock mad.1).toNat < mfClassicGetTotalSectorsNum data.type ∧
        isMadKey data (mfClassicGetSectorByBlock mad.1) = true ∧
        1 ≤ sector ∧ sector ≤ mad.2 ∧ entryIsNdef data mad.1 (sector - 1) = true) := by
  unfold markSectors
  split_ifs with hsector hkey
  · exact ⟨.inl, fun h => h.elim id fun h => absurd h.1 (not_lt_of_ge hsector)⟩
  · rw [foldl_marks]
    refine or_congr_right ?_
    constructor
    · exact fun h => ⟨not_le.mp hsector, hkey, h⟩
    · exact fun h => h.2.2
  · exact ⟨.inl, fun h => h.elim id fun h => absurd h.2.1 hkey⟩

theorem sectorsWithNdef_iff (data : MfClassicData) (sector : ℕ) :
    sectorsWithNdef data sector = true ↔
      (isMadKey data 0 = true ∧ 1 ≤ sector ∧ sector ≤ 15 ∧
        entryIsNdef data 1 (sector - 1) = true) ∨
      (data.type = .type4k ∧ isMadKey data 16 = true ∧ 1 ≤ sector ∧ sector ≤ 23 ∧
        entryIsNdef data 64 (sector - 1) = true) := by
  have hfour : 16 < mfClassicGetTotalSectorsNum data.type ↔ data.type = .type4k := by
    cases data.type
    all_goals decide
  have hpos : 0 < mfClassicGetTotalSectorsNum data.type := by
    cases data.type
    all_goals decide
  have h0 : mfClassicGetSectorByBlock 1 = 0 := by decide
  have h16 : mfClassicGetSectorByBlock 64 = 16 := by decide
  unfold sectorsWithNdef mads
  rw [List.foldl_cons, List.foldl_cons, List.foldl_nil, markSectors_iff, markSectors_iff, h0, h16]
  simp [hfour, hpos]

/-- No entry of the second directory is one of NDEF. -/
def NoSecondEntry (data : MfClassicData) : Prop :=
  data.type = .type4k → isMadKey data 16 = true →
    ∀ aidIndex < 23, entryIsNdef data 64 aidIndex = false

theorem sectorStart_eq {sector : ℕ} (h : sector < 40) (h16 : sector ≠ 16) :
    sectorStart sector = dataBlock sector * MF_CLASSIC_BLOCK_SIZE := by
  have hall : ∀ s < 40, s ≠ 16 → sectorStart s = dataBlock s * MF_CLASSIC_BLOCK_SIZE := by
    decide +kernel
  exact hall sector h h16

theorem sectorsWithNdef_eq_iff (data : MfClassicData) :
    (∀ sector < mfClassicGetTotalSectorsNum data.type,
      (sectorsWithNdef data sector = true ↔ EntryIsNdef data sector)) ↔ NoSecondEntry data := by
  constructor
  · intro h htype hkey
    have htotal : mfClassicGetTotalSectorsNum data.type = 40 := by rw [htype]; rfl
    -- a sector behind those that the code marks has no entry
    have hhigh : ∀ aidIndex, 7 ≤ aidIndex → aidIndex < 23 →
        entryIsNdef data 64 aidIndex = false := by
      intro aidIndex hge hlt
      by_contra hentry
      have hmark := (h (aidIndex + 17) (by omega)).mpr
        (.inr ⟨by omega, by omega, hkey, by simpa using hentry⟩)
      rcases (sectorsWithNdef_iff data _).mp hmark with ⟨-, -, hle, -⟩ | ⟨-, -, -, hle, -⟩
      · omega
      · omega
    intro aidIndex hlt
    by_cases hge : 7 ≤ aidIndex
    · exact hhigh aidIndex hge hlt
    · by_contra hentry
      have hmark := (h (aidIndex + 17) (by omega)).mpr
        (.inr ⟨by omega, by omega, hkey, by simpa using hentry⟩)
      rcases (sectorsWithNdef_iff data _).mp hmark with ⟨-, -, hle, -⟩ | ⟨-, -, -, -, hnext⟩
      · omega
      · rw [hhigh (aidIndex + 17 - 1) (by omega) (by omega)] at hnext
        cases hnext
  · intro h sector hsector
    rw [sectorsWithNdef_iff]
    have hlow : data.type ≠ .type4k → sector < 16 := by
      intro hne
      have htotal : mfClassicGetTotalSectorsNum data.type ≤ 16 := by
        cases htype : data.type with
        | mini => decide
        | type1k => decide
        | type4k => exact absurd htype hne
      omega
    constructor
    · rintro (⟨hkey, hge, hle, hentry⟩ | ⟨htype, hkey, hge, hle, hentry⟩)
      · exact .inl ⟨hge, hle, hkey, hentry⟩
      · rw [h htype hkey (sector - 1) (by omega)] at hentry
        cases hentry
    · rintro (⟨hge, hle, hkey, hentry⟩ | ⟨hge, hle, hkey, hentry⟩)
      · exact .inl ⟨hkey, hge, hle, hentry⟩
      · by_cases htype : data.type = .type4k
        · rw [h htype hkey (sector - 17) (by omega)] at hentry
          cases hentry
        · have hlt := hlow htype
          omega

theorem filter_eq_iff {p q : ℕ → Bool} {n : ℕ} :
    (List.range n).filter p = (List.range n).filter q ↔ ∀ i < n, (p i = true ↔ q i = true) := by
  constructor
  · intro h i hi
    have hmem : i ∈ (List.range n).filter p ↔ i ∈ (List.range n).filter q := by rw [h]
    simpa only [List.mem_filter, List.mem_range, hi, true_and] using hmem
  · intro h
    exact List.filter_congr fun i hi => Bool.eq_iff_iff.mpr (h i (List.mem_range.mp hi))

theorem startsAtEntries_iff (data : MfClassicData) :
    StartsAtEntries data ↔ NoSecondEntry data := by
  rw [← sectorsWithNdef_eq_iff]
  have hfilter : (List.range (mfClassicGetTotalSectorsNum data.type)).filter (sectorsWithNdef data) =
      (List.range (mfClassicGetTotalSectorsNum data.type)).filter
        (fun sector => EntryIsNdef data sector) ↔
      ∀ sector < mfClassicGetTotalSectorsNum data.type,
        (sectorsWithNdef data sector = true ↔ EntryIsNdef data sector) := by
    rw [filter_eq_iff]
    simp only [decide_eq_true_eq]
  have htotal : mfClassicGetTotalSectorsNum data.type ≤ 40 := by
    cases data.type
    all_goals decide
  unfold StartsAtEntries starts
  constructor
  · intro h
    have hfst := congrArg (List.map Prod.fst) h
    rw [List.map_map, List.map_map] at hfst
    simp only [Function.comp_def, List.map_id'] at hfst
    exact hfilter.mp hfst
  · intro h
    rw [hfilter.mpr h, length_content]
    refine List.map_congr_left fun sector hsector => ?_
    obtain ⟨hrange, hentry⟩ := List.mem_filter.mp hsector
    have hlt := List.mem_range.mp hrange
    have h16 : sector ≠ 16 := by
      rcases of_decide_eq_true hentry with ⟨-, hle, -⟩ | ⟨hge, -⟩
      · omega
      · omega
    rw [sectorStart_eq (by omega) h16]

/-- The bytes of a range are read unless the sum of its position and length wraps into the data
space, and parsing starts at the sectors with entries unless the second directory has one. -/
theorem readsSectors_iff (data : MfClassicData) (pos len : UInt32) :
    ReadsRange data pos len ∧ StartsAtEntries data ↔
      ¬(2 ^ 32 ≤ pos.toNat + len.toNat ∧ pos.toNat + len.toNat - 2 ^ 32 ≤ dataSize data.type) ∧
        NoSecondEntry data :=
  and_congr (readsRange_iff data pos len) (startsAtEntries_iff data)

/-- A card of 4K whose second directory has the entry of the sector 17 for NDEF. -/
def secondEntryCard : MfClassicData where
  cuid := 0
  type := .type4k
  block block :=
    if block = 64 then ⟨#[0, 0, 0x03, 0xE1, 0, 0, 0, 0, 0, 0, 0, 0, 0, 0, 0, 0], rfl⟩
    else if block = 67 then
      ⟨#[0xA0, 0xA1, 0xA2, 0xA3, 0xA4, 0xA5, 0, 0, 0, 0, 0, 0, 0, 0, 0, 0], rfl⟩
    else Vector.replicate 16 0

theorem not_readsSectors : ¬(ReadsRange secondEntryCard 0 16 ∧ StartsAtEntries secondEntryCard) := by
  rw [startsAtEntries_iff]
  rintro ⟨-, h⟩
  have hentry := h rfl (by decide +kernel) 0 (by decide)
  exact absurd hentry (by decide +kernel)

end NdefMfc

end KiisuFirmware
