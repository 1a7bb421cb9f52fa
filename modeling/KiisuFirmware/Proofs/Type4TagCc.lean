import KiisuFirmware.Proofs.Type4TagListener
import KiisuFirmware.Type4TagPoller

/-!
# Capability containers

What is dumped is parsed again, with the sizes of chunks cut to what is sent at once, and with the
defaults of data that are of no special tag (`ccParse_ccDump`). A container whose TLVs are all in
the buffer is parsed from the buffer alone (`ccParse_congr`).
-/

namespace KiisuFirmware

namespace Type4TagData

open Type4Tag

/-! ## What is dumped -/

theorem toUInt16_num16 (n : ℕ) :
    (bitLibBytesToNumBe [UInt8.ofNat (n / 256), UInt8.ofNat n]).toUInt16 = UInt16.ofNat n := by
  apply UInt16.toNat_inj.1
  rw [UInt64.toNat_toUInt16, toNat_bytesToNumBe_two, uint16Be, UInt8.toNat_ofNat',
    UInt8.toNat_ofNat', UInt16.toNat_ofNat']
  omega

/-- The data that are dumped, as they are parsed again. -/
def parsed (data old : Type4TagData) : Type4TagData :=
  { old with
    t4tVersion := TYPE_4_TAG_T4T_CC_VNO
    chunkMaxRead := UInt16.ofNat (data.chunkMax data.chunkMaxRead)
    chunkMaxWrite := UInt16.ofNat (data.chunkMax data.chunkMaxWrite)
    ndefFileId := data.fileId
    ndefMaxLen := UInt16.ofNat data.maxLen
    ndefReadLock :=
      if data.isTagSpecific then data.ndefReadLock else TYPE_4_TAG_T4T_CC_RW_LOCK_NONE
    ndefWriteLock :=
      if data.isTagSpecific then data.ndefWriteLock else TYPE_4_TAG_T4T_CC_RW_LOCK_NONE }

/-- Where the walk over the TLVs ends. -/
def ccStop (buf : List UInt8) (behind : ℕ → UInt8) : ℕ :=
  min (uint16Be (rawByte buf behind 1) (rawByte buf behind 0)) buf.length

/-- What is parsed when the TLV is found here. -/
def parsedAt (old : Type4TagData) (raw : ℕ → UInt8) (tlv : ℕ) : Type4TagData :=
  { old with
    t4tVersion := raw 2
    chunkMaxRead := rawNum raw 3
    chunkMaxWrite := rawNum raw 5
    ndefFileId := rawNum raw (tlv + 2)
    ndefMaxLen := rawNum raw (tlv + 4) - 2
    ndefReadLock := raw (tlv + 6)
    ndefWriteLock := raw (tlv + 7) }

section Parse

variable (old : Type4TagData) {buf : List UInt8} {behind : ℕ → UInt8}

theorem ccParse_short (h : buf.length < TYPE_4_TAG_T4T_CC_MIN_SIZE) :
    old.ccParse buf behind = (.wrongFormat, old) := by
  rw [ccParse, if_pos h]

theorem ccParse_version (h : ¬buf.length < TYPE_4_TAG_T4T_CC_MIN_SIZE)
    (hversion : rawByte buf behind 2 ≠ TYPE_4_TAG_T4T_CC_VNO) :
    old.ccParse buf behind = (.notSupported, old) := by
  rw [ccParse, if_neg h]
  exact if_pos hversion

theorem ccParse_find (h : ¬buf.length < TYPE_4_TAG_T4T_CC_MIN_SIZE)
    (hversion : rawByte buf behind 2 = TYPE_4_TAG_T4T_CC_VNO) :
    old.ccParse buf behind =
      (findNdefFileCtrl (rawByte buf behind) (ccStop buf behind) 7).elim (.wrongFormat, old)
        fun tlv => (.none, old.parsedAt (rawByte buf behind) tlv) := by
  rw [ccParse, if_neg h]
  refine (if_neg (not_not.2 hversion)).trans ?_
  dsimp only [ccStop]
  generalize findNdefFileCtrl (rawByte buf behind) _ 7 = found
  rcases found with _ | tlv <;> rfl

end Parse

theorem ccParse_fifteen (old : Type4TagData) (behind : ℕ → UInt8)
    (r₁ r₂ w₁ w₂ f₁ f₂ m₁ m₂ readLock writeLock : UInt8) :
    old.ccParse [0, 15, 0x20, r₁, r₂, w₁, w₂, 0x04, 6, f₁, f₂, m₁, m₂, readLock, writeLock] behind =
      (.none, { old with
        t4tVersion := 0x20
        chunkMaxRead := (bitLibBytesToNumBe [r₁, r₂]).toUInt16
        chunkMaxWrite := (bitLibBytesToNumBe [w₁, w₂]).toUInt16
        ndefFileId := (bitLibBytesToNumBe [f₁, f₂]).toUInt16
        ndefMaxLen := (bitLibBytesToNumBe [m₁, m₂]).toUInt16 - 2
        ndefReadLock := readLock
        ndefWriteLock := writeLock }) := by
  have hfind : findNdefFileCtrl (rawByte [0, 15, 0x20, r₁, r₂, w₁, w₂, 0x04, 6, f₁, f₂, m₁, m₂,
      readLock, writeLock] behind) 15 7 = some 7 := by
    rw [findNdefFileCtrl, if_pos (by decide)]
    exact if_pos rfl
  have hstop : ccStop [0, 15, 0x20, r₁, r₂, w₁, w₂, 0x04, 6, f₁, f₂, m₁, m₂, readLock, writeLock]
      behind = 15 := by
    rw [ccStop]
    exact (by decide : min (uint16Be 15 0) 15 = 15)
  rw [ccParse_find old (by simp [TYPE_4_TAG_T4T_CC_MIN_SIZE]) rfl, hstop, hfind]
  rfl

theorem ccParse_ccDump (data old : Type4TagData) (behind : ℕ → UInt8) :
    old.ccParse data.ccDump behind = (.none, data.parsed old) := by
  have hmaxLen : UInt16.ofNat (2 + data.maxLen) - 2 = UInt16.ofNat data.maxLen := by
    apply UInt16.toNat_inj.1
    rw [UInt16.toNat_sub, UInt16.toNat_ofNat', UInt16.toNat_ofNat']
    simp
    omega
  have hfileId : UInt16.ofNat data.fileId.toNat = data.fileId := UInt16.ofNat_toNat
  have hdump := ccParse_fifteen old behind (UInt8.ofNat (data.chunkMax data.chunkMaxRead / 256))
    (UInt8.ofNat (data.chunkMax data.chunkMaxRead))
    (UInt8.ofNat (data.chunkMax data.chunkMaxWrite / 256))
    (UInt8.ofNat (data.chunkMax data.chunkMaxWrite)) (UInt8.ofNat (data.fileId.toNat / 256))
    (UInt8.ofNat data.fileId.toNat) (UInt8.ofNat ((2 + data.maxLen) / 256))
    (UInt8.ofNat (2 + data.maxLen))
    (if data.isTagSpecific then data.ndefReadLock else TYPE_4_TAG_T4T_CC_RW_LOCK_NONE)
    (if data.isTagSpecific then data.ndefWriteLock else TYPE_4_TAG_T4T_CC_RW_LOCK_NONE)
  rw [toUInt16_num16, toUInt16_num16, toUInt16_num16, toUInt16_num16, hmaxLen, hfileId] at hdump
  rw [ccDump, num16_eq, num16_eq, num16_eq, num16_eq, num16_eq]
  exact hdump

theorem parsed_of_isTagSpecific {data : Type4TagData} (old : Type4TagData)
    (h : data.isTagSpecific = true) :
    data.parsed old = { old with
      t4tVersion := TYPE_4_TAG_T4T_CC_VNO
      chunkMaxRead := UInt16.ofNat (min data.chunkMaxRead.toNat 246)
      chunkMaxWrite := UInt16.ofNat (min data.chunkMaxWrite.toNat 246)
      ndefFileId := data.ndefFileId
      ndefMaxLen := data.ndefMaxLen
      ndefReadLock := data.ndefReadLock
      ndefWriteLock := data.ndefWriteLock } := by
  simp only [parsed, chunkMax, fileId, maxLen, h, if_true, UInt16.ofNat_toNat]
  rfl

theorem parsed_of_not_isTagSpecific {data : Type4TagData} (old : Type4TagData)
    (h : data.isTagSpecific = false) :
    data.parsed old = { old with
      t4tVersion := TYPE_4_TAG_T4T_CC_VNO
      chunkMaxRead := 246
      chunkMaxWrite := 246
      ndefFileId := TYPE_4_TAG_T4T_NDEF_EF_ID
      ndefMaxLen := 2046
      ndefReadLock := TYPE_4_TAG_T4T_CC_RW_LOCK_NONE
      ndefWriteLock := TYPE_4_TAG_T4T_CC_RW_LOCK_NONE } := by
  simp only [parsed, chunkMax, fileId, maxLen, h]
  rfl

/-! ## TLVs in the buffer -/

/-- The TLVs from here on are in the buffer: their headers, and the value of the first one of the
type of a message. -/
inductive Tlvs (buf : List UInt8) : ℕ → Prop
  | done {tlv : ℕ} : buf.length ≤ tlv → Tlvs buf tlv
  | ctrl {tlv : ℕ} : buf[tlv]? = some 0x04 → tlv + 8 ≤ buf.length → Tlvs buf tlv
  | short {tlv : ℕ} {type len : UInt8} : buf[tlv]? = some type → type ≠ 0x04 →
      buf[tlv + 1]? = some len → len < 0xFF → Tlvs buf (tlv + 2 + len.toNat) → Tlvs buf tlv
  | long {tlv : ℕ} {type high low : UInt8} : buf[tlv]? = some type → type ≠ 0x04 →
      buf[tlv + 1]? = some 0xFF → buf[tlv + 2]? = some high → buf[tlv + 3]? = some low →
      Tlvs buf (tlv + 2 + 2 + uint16Be high low) → Tlvs buf tlv

section Behind

variable {buf : List UInt8} (behind behind' : ℕ → UInt8)

theorem rawByte_congr {i : ℕ} (h : i < buf.length) :
    rawByte buf behind i = rawByte buf behind' i := by
  rw [rawByte, rawByte, dif_pos h, dif_pos h]

theorem rawByte_of_getElem? {i : ℕ} {b : UInt8} (h : buf[i]? = some b) :
    rawByte buf behind i = b := by
  obtain ⟨hi, hb⟩ := List.getElem?_eq_some_iff.1 h
  rw [rawByte, dif_pos hi, hb]

theorem rawNum_congr {i : ℕ} (h : i + 1 < buf.length) :
    rawNum (rawByte buf behind) i = rawNum (rawByte buf behind') i := by
  rw [rawNum, rawNum, rawByte_congr behind behind' h, rawByte_congr behind behind' (by omega)]

theorem ccStop_congr (h : 2 ≤ buf.length) : ccStop buf behind = ccStop buf behind' := by
  rw [ccStop, ccStop, rawByte_congr behind behind' (by omega),
    rawByte_congr behind behind' (by omega)]

theorem ccStop_le : ccStop buf behind ≤ buf.length := min_le_right _ _

theorem findNdefFileCtrl_next {raw : ℕ → UInt8} {stop tlv : ℕ} (h : tlv < stop)
    (htype : raw tlv ≠ 0x04) :
    findNdefFileCtrl raw stop tlv =
      if raw (tlv + 1) < 0xFF then findNdefFileCtrl raw stop (tlv + 2 + (raw (tlv + 1)).toNat)
      else findNdefFileCtrl raw stop (tlv + 2 + 2 + uint16Be (raw (tlv + 2)) (raw (tlv + 3))) := by
  rw [findNdefFileCtrl, if_pos h, if_neg htype]

theorem findNdefFileCtrl_here {raw : ℕ → UInt8} {stop tlv : ℕ} (h : tlv < stop)
    (htype : raw tlv = 0x04) : findNdefFileCtrl raw stop tlv = some tlv := by
  rw [findNdefFileCtrl, if_pos h, if_pos htype]

theorem findNdefFileCtrl_stop {raw : ℕ → UInt8} {stop tlv : ℕ} (h : ¬tlv < stop) :
    findNdefFileCtrl raw stop tlv = none := by
  rw [findNdefFileCtrl, if_neg h]

theorem of_findNdefFileCtrl_eq_some {raw : ℕ → UInt8} {stop : ℕ} (start : ℕ) {tlv : ℕ}
    (h : findNdefFileCtrl raw stop start = some tlv) :
    start ≤ tlv ∧ tlv < stop ∧ raw tlv = 0x04 := by
  induction start using findNdefFileCtrl.induct raw stop with
  | case1 start hlt htype =>
    rw [findNdefFileCtrl_here hlt htype] at h
    cases h
    exact ⟨le_rfl, hlt, htype⟩
  | case2 start hlt htype hlen ih =>
    rw [findNdefFileCtrl_next hlt htype, if_pos hlen] at h
    have hrest := ih h
    exact ⟨by omega, hrest.2⟩
  | case3 start hlt htype hlen ih =>
    rw [findNdefFileCtrl_next hlt htype, if_neg hlen] at h
    have hrest := ih h
    exact ⟨by omega, hrest.2⟩
  | case4 start hlt =>
    rw [findNdefFileCtrl_stop hlt] at h
    cases h

/-- TLVs in the buffer are walked over without a look at what is behind it, and the value of the one
that is found is in the buffer. -/
theorem findNdefFileCtrl_congr {stop start : ℕ} (hstop : stop ≤ buf.length) (h : Tlvs buf start) :
    findNdefFileCtrl (rawByte buf behind) stop start =
        findNdefFileCtrl (rawByte buf behind') stop start ∧
      ∀ tlv, findNdefFileCtrl (rawByte buf behind) stop start = some tlv →
        tlv + 8 ≤ buf.length := by
  induction h with
  | @done start hend =>
    rw [findNdefFileCtrl_stop (by omega), findNdefFileCtrl_stop (by omega)]
    exact ⟨rfl, fun _ h => nomatch h⟩
  | @ctrl start htype hvalue =>
    by_cases hlt : start < stop
    · rw [findNdefFileCtrl_here hlt (rawByte_of_getElem? _ htype),
        findNdefFileCtrl_here hlt (rawByte_of_getElem? _ htype)]
      exact ⟨rfl, fun tlv h => by cases h; exact hvalue⟩
    · rw [findNdefFileCtrl_stop hlt, findNdefFileCtrl_stop hlt]
      exact ⟨rfl, fun _ h => nomatch h⟩
  | @short start type len htype hne hlen hshort _ ih =>
    have next (behind : ℕ → UInt8) (hlt : start < stop) :
        findNdefFileCtrl (rawByte buf behind) stop start =
          findNdefFileCtrl (rawByte buf behind) stop (start + 2 + len.toNat) := by
      rw [findNdefFileCtrl_next hlt (by rwa [rawByte_of_getElem? _ htype]),
        rawByte_of_getElem? _ hlen, if_pos hshort]
    by_cases hlt : start < stop
    · rw [next behind hlt, next behind' hlt]
      exact ih
    · rw [findNdefFileCtrl_stop hlt, findNdefFileCtrl_stop hlt]
      exact ⟨rfl, fun _ h => nomatch h⟩
  | @long start type high low htype hne hlen hhigh hlow _ ih =>
    have next (behind : ℕ → UInt8) (hlt : start < stop) :
        findNdefFileCtrl (rawByte buf behind) stop start =
          findNdefFileCtrl (rawByte buf behind) stop (start + 2 + 2 + uint16Be high low) := by
      rw [findNdefFileCtrl_next hlt (by rwa [rawByte_of_getElem? _ htype]),
        rawByte_of_getElem? _ hlen, if_neg (by decide), rawByte_of_getElem? _ hhigh,
        rawByte_of_getElem? _ hlow]
    by_cases hlt : start < stop
    · rw [next behind hlt, next behind' hlt]
      exact ih
    · rw [findNdefFileCtrl_stop hlt, findNdefFileCtrl_stop hlt]
      exact ⟨rfl, fun _ h => nomatch h⟩

theorem parsedAt_congr (old : Type4TagData) {tlv : ℕ} (hmin : 15 ≤ buf.length)
    (h : tlv + 8 ≤ buf.length) :
    old.parsedAt (rawByte buf behind) tlv = old.parsedAt (rawByte buf behind') tlv := by
  rw [parsedAt, parsedAt, rawNum_congr behind behind' (by omega),
    rawNum_congr behind behind' (by omega), rawNum_congr behind behind' (by omega),
    rawNum_congr behind behind' (by omega),
    rawByte_congr behind behind' (by omega), rawByte_congr behind behind' (by omega),
    rawByte_congr behind behind' (by omega)]

theorem ccParse_congr (old : Type4TagData) (h : Tlvs buf 7) :
    old.ccParse buf behind = old.ccParse buf behind' := by
  have hmin : TYPE_4_TAG_T4T_CC_MIN_SIZE = 15 := rfl
  by_cases hshort : buf.length < TYPE_4_TAG_T4T_CC_MIN_SIZE
  · rw [ccParse_short old hshort, ccParse_short old hshort]
  have hversion : rawByte buf behind 2 = rawByte buf behind' 2 :=
    rawByte_congr behind behind' (by omega)
  by_cases hno : rawByte buf behind 2 ≠ TYPE_4_TAG_T4T_CC_VNO
  · rw [ccParse_version old hshort hno, ccParse_version old hshort (hversion ▸ hno)]
  rw [not_not] at hno
  rw [ccParse_find old hshort hno, ccParse_find old hshort (hversion ▸ hno),
    ccStop_congr behind' behind (by omega)]
  obtain ⟨hfind, hvalue⟩ := findNdefFileCtrl_congr behind behind' (ccStop_le behind) h
  rw [← hfind]
  rcases hfound : findNdefFileCtrl (rawByte buf behind) (ccStop buf behind) 7 with _ | tlv
  · rfl
  · exact congrArg (Prod.mk _) (parsedAt_congr behind behind' old (by omega) (hvalue tlv hfound))

end Behind

/-- What is not parsed leaves the data as they were; what is parsed has a TLV of the type of a
message that begins in the buffer. -/
theorem ccParse_cases (old : Type4TagData) (buf : List UInt8) (behind : ℕ → UInt8) :
    (∃ error ≠ .none, old.ccParse buf behind = (error, old)) ∨
      TYPE_4_TAG_T4T_CC_MIN_SIZE ≤ buf.length ∧ buf[2]? = some TYPE_4_TAG_T4T_CC_VNO ∧
        ∃ tlv, 7 ≤ tlv ∧ buf[tlv]? = some 0x04 ∧
          old.ccParse buf behind = (.none, old.parsedAt (rawByte buf behind) tlv) := by
  have hmin : TYPE_4_TAG_T4T_CC_MIN_SIZE = 15 := rfl
  have getElem {i : ℕ} {b : UInt8} (hi : i < buf.length) (h : rawByte buf behind i = b) :
      buf[i]? = some b := by
    rw [rawByte, dif_pos hi] at h
    exact List.getElem?_eq_some_iff.2 ⟨hi, h⟩
  by_cases hshort : buf.length < TYPE_4_TAG_T4T_CC_MIN_SIZE
  · exact .inl ⟨_, Type4TagError.noConfusion, ccParse_short old hshort⟩
  by_cases hno : rawByte buf behind 2 ≠ TYPE_4_TAG_T4T_CC_VNO
  · exact .inl ⟨_, Type4TagError.noConfusion, ccParse_version old hshort hno⟩
  rw [not_not] at hno
  rw [ccParse_find old hshort hno]
  rcases hfound : findNdefFileCtrl (rawByte buf behind) (ccStop buf behind) 7 with _ | tlv
  · exact .inl ⟨_, Type4TagError.noConfusion, rfl⟩
  · obtain ⟨hseven, hlt, htype⟩ := of_findNdefFileCtrl_eq_some 7 hfound
    have hend : ccStop buf behind ≤ buf.length := ccStop_le behind
    exact .inr ⟨by omega, getElem (by omega) hno, tlv, hseven, getElem (by omega) htype, rfl⟩

/-- What is dumped is parsed again, but for longer chunks and for data of no special tag; what is
not a container is rejected; and a container whose TLVs are in the buffer is parsed from the buffer
alone. -/
theorem ccParse_ccDump_and_ccParse_buf (old : Type4TagData) :
    (∀ (data : Type4TagData) (behind : ℕ → UInt8), data.isTagSpecific = true →
      old.ccParse data.ccDump behind = (.none, { old with
        t4tVersion := TYPE_4_TAG_T4T_CC_VNO
        chunkMaxRead := UInt16.ofNat (min data.chunkMaxRead.toNat 246)
        chunkMaxWrite := UInt16.ofNat (min data.chunkMaxWrite.toNat 246)
        ndefFileId := data.ndefFileId
        ndefMaxLen := data.ndefMaxLen
        ndefReadLock := data.ndefReadLock
        ndefWriteLock := data.ndefWriteLock })) ∧
    (∀ (data : Type4TagData) (behind : ℕ → UInt8), data.isTagSpecific = false →
      old.ccParse data.ccDump behind = (.none, { old with
        t4tVersion := TYPE_4_TAG_T4T_CC_VNO
        chunkMaxRead := 246
        chunkMaxWrite := 246
        ndefFileId := TYPE_4_TAG_T4T_NDEF_EF_ID
        ndefMaxLen := 2046
        ndefReadLock := TYPE_4_TAG_T4T_CC_RW_LOCK_NONE
        ndefWriteLock := TYPE_4_TAG_T4T_CC_RW_LOCK_NONE })) ∧
    (∀ (buf : List UInt8) (behind : ℕ → UInt8),
      (buf.length < TYPE_4_TAG_T4T_CC_MIN_SIZE ∨ buf[2]? ≠ some TYPE_4_TAG_T4T_CC_VNO ∨
        ∀ tlv, 7 ≤ tlv → buf[tlv]? ≠ some 0x04) →
      ∃ error ≠ .none, old.ccParse buf behind = (error, old)) ∧
    ∀ (buf : List UInt8) (behind behind' : ℕ → UInt8), Tlvs buf 7 →
      old.ccParse buf behind = old.ccParse buf behind' := by
  refine ⟨fun data behind h => ?_, fun data behind h => ?_, fun buf behind h => ?_,
    fun buf behind behind' h => ccParse_congr behind behind' old h⟩
  · rw [ccParse_ccDump, parsed_of_isTagSpecific old h]
  · rw [ccParse_ccDump, parsed_of_not_isTagSpecific old h]
  · rcases ccParse_cases old buf behind with hrejected | ⟨hmin, hversion, tlv, hseven, htype, _⟩
    · exact hrejected
    · rcases h with hshort | hno | hctrl
      · omega
      · exact absurd hversion hno
      · exact absurd htype (hctrl tlv hseven)

/-- Data of a special tag, with chunks longer than those that are sent. -/
def longChunks : Type4TagData where
  isTagSpecific := true
  t4tVersion := TYPE_4_TAG_T4T_CC_VNO
  chunkMaxRead := 300
  chunkMaxWrite := 300
  ndefFileId := 0xE104
  ndefMaxLen := 2046
  ndefReadLock := 0
  ndefWriteLock := 0
  ndefData := []

theorem ccParse_ccDump_longChunks :
    longChunks.ccParse longChunks.ccDump (fun _ => 0) =
        (.none, { longChunks with chunkMaxRead := 246, chunkMaxWrite := 246 }) ∧
      longChunks.ccParse { longChunks with isTagSpecific := false }.ccDump (fun _ => 0) =
        (.none, { longChunks with chunkMaxRead := 246, chunkMaxWrite := 246 }) ∧
      (∃ error ≠ .none, longChunks.ccParse [0, 15] (fun _ => 0) = (error, longChunks)) ∧
      longChunks.ccParse longChunks.ccDump (fun _ => 0) =
        longChunks.ccParse longChunks.ccDump (fun _ => 1) := by
  obtain ⟨hdump, hdefaults, hrejects, hcongr⟩ := ccParse_ccDump_and_ccParse_buf longChunks
  exact ⟨hdump longChunks _ rfl, hdefaults { longChunks with isTagSpecific := false } _ rfl,
    hrejects _ _ (.inl (by decide)), hcongr _ _ _ (.ctrl (by decide) (by decide))⟩

/-- Chunks are cut to the length that is sent. -/
theorem not_ccParse_ccDump :
    ¬∀ data old : Type4TagData, ∀ behind : ℕ → UInt8,
      (old.ccParse data.ccDump behind).1 = .none ∧
        (old.ccParse data.ccDump behind).2.chunkMaxRead = data.chunkMaxRead := by
  intro h
  have hlong := (h longChunks longChunks fun _ => 0).2
  rw [ccParse_ccDump, parsed_of_isTagSpecific longChunks rfl] at hlong
  exact absurd hlong (by decide)

end Type4TagData

end KiisuFirmware
