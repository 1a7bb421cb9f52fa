import Mathlib.Data.List.ReduceOption
import KiisuFirmware.MfUltralightListener

/-!
# The pages that a MIFARE Ultralight tag shows

Which stored page stands at each place of what is read (`shownPages`), and that the loop over the
pages reads these (`readPages_eq`), whatever the mirror makes of each of them.
-/

namespace KiisuFirmware

namespace MfUltralightListener

variable (listener : MfUltralightListener)

/-! ## What is shown -/

/-- A page that reads as zeros: one that the current sector does not have, and the password. -/
def isBlank (doI2cPageCheck : Bool) (page : ℕ) : Bool :=
  doI2cPageCheck && !listener.i2cValidatePages page page || listener.data.type.isPagePwdOrPack page

/-- The page that is stored for a page that can be read. -/
def storedPage (doI2cPageCheck : Bool) (page : ℕ) : ℕ :=
  (if doI2cPageCheck then listener.i2cProvidePageByRequested page else page) %
    listener.data.pagesTotal

/-- The stored pages at the places of what is read, and none where there are zeros. Pages without
access are replaced by the first ones, one after the other. -/
def shownPages (startPage : ℕ) (doI2cPageCheck : Bool) : ℕ → ℕ → ℕ → List (Option ℕ)
  | 0, _, _ => []
  | pageCnt + 1, i, rollover =>
    if listener.isBlank doI2cPageCheck (startPage + i) then
      none :: shownPages startPage doI2cPageCheck pageCnt (i + 1) rollover
    else if listener.checkAccess (startPage + i) .read then
      some (listener.storedPage doI2cPageCheck (startPage + i)) ::
        shownPages startPage doI2cPageCheck pageCnt (i + 1) rollover
    else some rollover :: shownPages startPage doI2cPageCheck pageCnt (i + 1) (rollover + 1)

/-- Bytes for the pages that are shown. -/
def contents (content : ℕ → List UInt8) (shown : List (Option ℕ)) : List (List UInt8) :=
  shown.map fun page => page.elim zeroPage content

/-! ## Access -/

section Access

variable {listener}

theorem cCheckAccess_read (page : ℕ) :
    listener.cCheckAccess page .read = true ↔ page < 44 ∧
      (listener.authState = .success ∨ ((listener.data.getPage 42).getD 0 0).toNat < 0x03 ∨
        0x30 ≤ ((listener.data.getPage 42).getD 0 0).toNat ∨
        page < ((listener.data.getPage 42).getD 0 0).toNat) := by
  have hbit : (listener.data.getPage 43).getD 0 0 &&& 0x01 = 0 ∨
      (listener.data.getPage 43).getD 0 0 &&& 0x01 = 1 := by
    generalize (listener.data.getPage 43).getD 0 0 = b
    rw [← UInt8.toNat_inj, ← UInt8.toNat_inj, UInt8.toNat_and, UInt8.toNat_one, Nat.and_one_is_mod]
    exact Nat.mod_two_eq_zero_or_one b.toNat
  unfold cCheckAccess
  dsimp only
  by_cases hlast : 44 ≤ page
  · simp [hlast]
  rw [if_neg hlast]
  by_cases hopen : ((listener.data.getPage 42).getD 0 0).toNat < 0x03 ∨
      0x30 ≤ ((listener.data.getPage 42).getD 0 0).toNat ∨ listener.authState = .success
  · refine ⟨fun _ => ⟨not_le.1 hlast, ?_⟩, fun _ => if_pos hopen⟩
    rcases hopen with h | h | h
    · exact .inr (.inl h)
    · exact .inr (.inr (.inl h))
    · exact .inl h
  rw [if_neg hopen]
  by_cases hpage : ((listener.data.getPage 42).getD 0 0).toNat ≤ page
  · rw [if_pos ⟨hpage, or_assoc.1 (.inl hbit)⟩]
    refine ⟨fun h => (Bool.false_ne_true h).elim, fun h => (hopen ?_).elim⟩
    rcases h.2 with h | h | h | h
    · exact .inr (.inr h)
    · exact .inl h
    · exact .inr (.inl h)
    · exact absurd hpage (not_le.2 h)
  · rw [if_neg fun h => hpage h.1]
    exact ⟨fun _ => ⟨not_le.1 hlast, .inr (.inr (.inr (not_le.1 hpage)))⟩, fun _ => rfl⟩

theorem commonCheckAccess_read (page : ℕ) :
    listener.commonCheckAccess page .read = true ↔
      listener.authState = .success ∨ page < listener.data.config.auth0 ∨
        listener.data.config.prot = false := by
  unfold commonCheckAccess
  dsimp only
  by_cases hauth : listener.authState = .success
  · simp [hauth]
  · by_cases hpage : page < listener.data.config.auth0
    · simp [hpage]
    · simp [hauth, hpage, Nat.le_of_not_lt]

theorem checkAccess_of_succ {page : ℕ} (h : listener.checkAccess (page + 1) .read = true) :
    listener.checkAccess page .read = true := by
  unfold checkAccess at h ⊢
  by_cases hauth : listener.data.type.supportFeature .authenticate = true
  · rw [if_pos hauth, cCheckAccess_read] at h ⊢
    refine ⟨Nat.lt_of_succ_lt h.1, ?_⟩
    rcases h.2 with h | h | h | h
    · exact .inl h
    · exact .inr (.inl h)
    · exact .inr (.inr (.inl h))
    · exact .inr (.inr (.inr (Nat.lt_of_succ_lt h)))
  rw [if_neg hauth] at h ⊢
  by_cases hpwd : listener.data.type.supportFeature .passwordAuth = true
  · rw [if_pos hpwd, commonCheckAccess_read] at h ⊢
    rcases h with h | h | h
    · exact .inl h
    · exact .inr (.inl (Nat.lt_of_succ_lt h))
    · exact .inr (.inr h)
  · exact if_neg hpwd

end Access

/-! ## One page -/

/-- The listener while it reads. -/
def reading (asciiOffset : UInt8) (accessed : List ℕ) : MfUltralightListener :=
  { listener with
    mirror := { listener.mirror with asciiOffset := asciiOffset }
    accessed := accessed }

/-- A stored page with what the mirror makes of it, and where the mirror is afterwards. -/
def overlay (page : ℕ) (asciiOffset : UInt8) : List UInt8 × UInt8 :=
  let config := listener.data.config
  let dest := listener.data.getPage page
  if listener.mirror.enabled && config.mirrorPage ≤ page % 2 ^ 8 &&
      page % 2 ^ 8 ≤ listener.mirror.mirrorLastPage.toNat then
    let byteOffset := if config.mirrorPage < page % 2 ^ 8 then 0 else config.mirrorByte
    let result := mirrorBytes listener.mirror.asciiMirrorData listener.mirror.asciiEnd asciiOffset
      (dest.drop byteOffset)
    (dest.take byteOffset ++ result.1, result.2)
  else (dest, asciiOffset)

variable {listener} {startPage i rollover : ℕ} {doI2cPageCheck : Bool} {asciiOffset : UInt8}
  {accessed : List ℕ}

theorem getElem?_shownPages_eq_none (startPage : ℕ) (doI2cPageCheck : Bool) :
    ∀ pageCnt i rollover k : ℕ,
      (listener.shownPages startPage doI2cPageCheck pageCnt i rollover)[k]? = some none ↔
        k < pageCnt ∧ listener.isBlank doI2cPageCheck (startPage + (i + k)) = true
  | 0, _, _, _ => by simp [shownPages]
  | pageCnt + 1, i, rollover, k => by
    rw [shownPages]
    rcases k with _ | k
    · by_cases hblank : listener.isBlank doI2cPageCheck (startPage + i) = true
      · simp [hblank]
      · rw [if_neg hblank]
        split_ifs <;> simp [hblank]
    · rw [Nat.add_lt_add_iff_right, show i + (k + 1) = i + 1 + k by omega]
      split_ifs <;>
        rw [List.getElem?_cons_succ, getElem?_shownPages_eq_none startPage doI2cPageCheck pageCnt]

theorem mirrorReadHandler_reading (page : ℕ) :
    (listener.reading asciiOffset accessed).mirrorReadHandler (page % 2 ^ 8)
        (listener.data.getPage page) =
      ((listener.overlay page asciiOffset).1,
        listener.reading (listener.overlay page asciiOffset).2 accessed) := by
  unfold mirrorReadHandler overlay
  dsimp only [reading]
  by_cases hmirrored : (listener.mirror.enabled &&
      decide (listener.data.config.mirrorPage ≤ page % 2 ^ 8) &&
      decide (page % 2 ^ 8 ≤ listener.mirror.mirrorLastPage.toNat)) = true
  · refine (if_pos hmirrored).trans ?_
    rw [if_pos hmirrored]
    rfl
  · refine (if_neg hmirrored).trans ?_
    rw [if_neg hmirrored]

theorem readPage_of_blank (h : listener.isBlank doI2cPageCheck (startPage + i) = true) :
    (listener.reading asciiOffset accessed).readPage startPage doI2cPageCheck i rollover =
      .ok (zeroPage, rollover, listener.reading asciiOffset accessed) := by
  unfold isBlank at h
  unfold readPage
  rw [Bool.or_eq_true] at h
  dsimp only
  rcases h with hsector | hpwd
  · exact if_pos hsector
  · by_cases hsector : (doI2cPageCheck &&
        !listener.i2cValidatePages (startPage + i) (startPage + i)) = true
    · exact if_pos hsector
    · exact (if_neg hsector).trans (if_pos hpwd)

theorem readPage_of_not_blank (h : listener.isBlank doI2cPageCheck (startPage + i) = false)
    (htotal : listener.data.pagesTotal ≠ 0) :
    (listener.reading asciiOffset accessed).readPage startPage doI2cPageCheck i rollover =
      if listener.checkAccess (startPage + i) .read then
        .ok ((listener.overlay (listener.storedPage doI2cPageCheck (startPage + i)) asciiOffset).1,
          rollover, listener.reading
            (listener.overlay (listener.storedPage doI2cPageCheck (startPage + i)) asciiOffset).2
            (listener.storedPage doI2cPageCheck (startPage + i) :: accessed))
      else
        .ok ((listener.overlay rollover asciiOffset).1, rollover + 1,
          listener.reading (listener.overlay rollover asciiOffset).2 (rollover :: accessed)) := by
  unfold isBlank at h
  rw [Bool.or_eq_false_iff] at h
  unfold readPage
  refine (if_neg (ne_true_of_eq_false h.1)).trans ((if_neg (ne_true_of_eq_false h.2)).trans
    ((if_neg fun hzero => htotal hzero.2).trans ?_))
  have hcheck : (listener.reading asciiOffset accessed).checkAccess (startPage + i) .read =
      listener.checkAccess (startPage + i) .read := rfl
  rw [hcheck]
  rcases listener.checkAccess (startPage + i) .read with _ | _
  · exact congrArg (fun r => Except.ok (r.1, rollover + 1, r.2))
      (@mirrorReadHandler_reading listener asciiOffset (rollover :: accessed) rollover)
  · exact congrArg (fun r => Except.ok (r.1, rollover, r.2))
      (mirrorReadHandler_reading (listener.storedPage doI2cPageCheck (startPage + i)))

theorem readPage_of_no_pages (h : listener.isBlank doI2cPageCheck (startPage + i) = false)
    (haccess : listener.checkAccess (startPage + i) .read = true)
    (hzero : listener.data.pagesTotal = 0) :
    listener.readPage startPage doI2cPageCheck i rollover = .error .divisionByZero := by
  unfold isBlank at h
  rw [Bool.or_eq_false_iff] at h
  unfold readPage
  refine (if_neg (ne_true_of_eq_false h.1)).trans ((if_neg (ne_true_of_eq_false h.2)).trans
    (if_pos ⟨?_, hzero⟩))
  rw [haccess]
  rfl

/-! ## All pages -/

section Pages

variable {n : ℕ} {content : ℕ → List UInt8} {Inv : ℕ → UInt8 → Prop}

/-- `Inv` is what holds of the mirror before the page at a place is read. If with it each page is
overlaid as it shall be, the pages that are read are those that are shown. -/
theorem readPages_eq (htotal : listener.data.pagesTotal ≠ 0)
    (hblank : ∀ i < n, ∀ o, listener.isBlank doI2cPageCheck (startPage + i) = true →
      Inv i o → Inv (i + 1) o)
    (hread : ∀ i < n, ∀ o, listener.isBlank doI2cPageCheck (startPage + i) = false →
      listener.checkAccess (startPage + i) .read = true → Inv i o →
      (listener.overlay (listener.storedPage doI2cPageCheck (startPage + i)) o).1 =
          content (listener.storedPage doI2cPageCheck (startPage + i)) ∧
        Inv (i + 1) (listener.overlay (listener.storedPage doI2cPageCheck (startPage + i)) o).2)
    (hrestricted : ∀ i < n, ∀ r ≤ i, ∀ o, listener.isBlank doI2cPageCheck (startPage + i) = false →
      listener.checkAccess (startPage + i) .read = false → Inv i o →
      (listener.overlay r o).1 = content r ∧ Inv (i + 1) (listener.overlay r o).2) :
    ∀ (pageCnt i rollover : ℕ) (o : UInt8) (accessed : List ℕ), i + pageCnt = n → rollover ≤ i →
      Inv i o → ∃ o', readPages startPage doI2cPageCheck pageCnt i rollover
          (listener.reading o accessed) =
        .ok (contents content (listener.shownPages startPage doI2cPageCheck pageCnt i rollover),
          listener.reading o'
            ((listener.shownPages startPage doI2cPageCheck pageCnt i rollover).reduceOption.reverse ++
              accessed))
  | 0, i, rollover, o, accessed, _, _, _ => ⟨o, rfl⟩
  | pageCnt + 1, i, rollover, o, accessed, hn, hle, hinv => by
    rw [readPages, shownPages]
    by_cases hb : listener.isBlank doI2cPageCheck (startPage + i) = true
    · obtain ⟨o', hrest⟩ := readPages_eq htotal hblank hread hrestricted pageCnt (i + 1) rollover o
        accessed (by omega) (by omega) (hblank i (by omega) o hb hinv)
      rw [readPage_of_blank hb, if_pos hb]
      exact ⟨o', by simp only [bind, Except.bind, hrest]; rfl⟩
    · have hb := Bool.eq_false_of_not_eq_true hb
      rw [readPage_of_not_blank hb htotal, if_neg (ne_true_of_eq_false hb)]
      by_cases haccess : listener.checkAccess (startPage + i) .read = true
      · obtain ⟨hpage, hinv'⟩ := hread i (by omega) o hb haccess hinv
        obtain ⟨o', hrest⟩ := readPages_eq htotal hblank hread hrestricted pageCnt (i + 1) rollover _
          (listener.storedPage doI2cPageCheck (startPage + i) :: accessed) (by omega) (by omega) hinv'
        rw [if_pos haccess, if_pos haccess]
        refine ⟨o', ?_⟩
        simp only [bind, Except.bind, hrest, hpage, List.reduceOption_cons_of_some,
          List.reverse_cons, List.append_assoc]
        rfl
      · have haccess' := Bool.eq_false_of_not_eq_true haccess
        obtain ⟨hpage, hinv'⟩ := hrestricted i (by omega) rollover hle o hb haccess' hinv
        obtain ⟨o', hrest⟩ := readPages_eq htotal hblank hread hrestricted pageCnt (i + 1)
          (rollover + 1) _ (rollover :: accessed) (by omega) (by omega) hinv'
        rw [if_neg haccess, if_neg haccess]
        refine ⟨o', ?_⟩
        simp only [bind, Except.bind, hrest, hpage, List.reduceOption_cons_of_some,
          List.reverse_cons, List.append_assoc]
        rfl

end Pages

end MfUltralightListener

/-!
## The ASCII mirror of a MIFARE Ultralight tag

Where the mirror is, in bytes counted from the first page on, it shows the text of its mode and
everywhere else the stored bytes (`ReadLaw`). The loop that looks for a mode that fits ends, and ends
with one that fits, unless it goes round again for a mirror of UID and counter that begins in the
last pages.
-/

namespace MfUltralightListener

variable (listener : MfUltralightListener)

/-! ## The text and its place -/

def uidText (uid : Vector UInt8 7) : List UInt8 := uid.toList.flatMap fun b => printHex 2 b.toNat

/-- The text of a mode. -/
def mirrorText (data : MfUltralightData) : MfUltralightMirrorConf → List UInt8
  | .none => []
  | .uid => uidText data.uid
  | .counter => formatCounter data.counter
  | .uidCounter => uidText data.uid ++ 0x78 :: formatCounter data.counter

/-- The place of the first byte of the mirror. -/
def mirrorStart (config : MfUltralightConfigPages) : ℕ := config.mirrorPage * 4 + config.mirrorByte

/-- The mirror of a mode is in the pages of the user. -/
def Fits (mode : MfUltralightMirrorConf) : Prop :=
  4 ≤ listener.data.config.mirrorPage ∧
    mirrorStart listener.data.config + getMirrorDataSize mode ≤ (listener.lastUserPage + 1) * 4

/-- A stored page with the mirror of a mode over it. -/
def mirrored (mode : MfUltralightMirrorConf) (page : ℕ) : List UInt8 :=
  (listener.data.getPage page).mapIdx fun j b =>
    if mirrorStart listener.data.config ≤ page * 4 + j ∧
        page * 4 + j < mirrorStart listener.data.config + getMirrorDataSize mode then
      (mirrorText listener.data mode).getD (page * 4 + j - mirrorStart listener.data.config) 0
    else b

/-- The text that is mirrored is that of the UID and the counter. -/
def Prepared : Prop :=
  listener.mirror.asciiMirrorData = mirrorText listener.data .uidCounter

/-! ## One round of the loop over the modes -/

section Round

variable {config : MfUltralightConfigPages} {last : ℕ} {s : MirrorBoundaries}

theorem setOffsets_of_uid (h : s.mode = .uid) :
    s.setOffsets = { s with maxPageOffset := 3, actualMode := .uid } := by
  rw [MirrorBoundaries.setOffsets, h]

theorem setOffsets_of_counter (h : s.mode = .counter) :
    s.setOffsets = { s with maxPageOffset := 1, actualMode := .counter } := by
  rw [MirrorBoundaries.setOffsets, h]

theorem setOffsets_of_uidCounter (h : s.mode = .uidCounter) :
    s.setOffsets = { s with maxPageOffset := 5, maxByteOffset := 3, actualMode := .uidCounter } := by
  rw [MirrorBoundaries.setOffsets, h]

theorem round_of_none (h : s.mode = .none) :
    mirrorBoundariesRound config last s = (some false, s) := if_pos h

theorem round_of_le_three (h : s.mode ≠ .none) (hpage : config.mirrorPage ≤ 3) :
    mirrorBoundariesRound config last s = (some false, s.setOffsets) :=
  (if_neg h).trans (if_pos hpage)

theorem round_of_lt (h : s.mode ≠ .none) (hpage : ¬config.mirrorPage ≤ 3)
    (hlt : config.mirrorPage + s.setOffsets.maxPageOffset < last) :
    mirrorBoundariesRound config last s = (some true, s.setOffsets) :=
  (if_neg h).trans ((if_neg hpage).trans (if_pos (by omega)))

theorem round_of_eq (h : s.mode ≠ .none) (hpage : ¬config.mirrorPage ≤ 3)
    (heq : config.mirrorPage + s.setOffsets.maxPageOffset = last) :
    mirrorBoundariesRound config last s =
      (some (decide (config.mirrorByte ≤ s.setOffsets.maxByteOffset)), s.setOffsets) :=
  (if_neg h).trans ((if_neg hpage).trans ((if_neg (by omega)).trans (if_pos (by omega))))

/-- A mirror that does not fit is tried again, if it is of UID and counter, and if it has been tried
again. -/
theorem round_of_gt (h : s.mode ≠ .none) (hpage : ¬config.mirrorPage ≤ 3)
    (hgt : last < config.mirrorPage + s.setOffsets.maxPageOffset) :
    mirrorBoundariesRound config last s =
      if s.setOffsets.mode = .uidCounter then
        (none, { s.setOffsets with mode := .uid, again := true })
      else (if s.setOffsets.again then none else some false, s.setOffsets) := by
  refine (if_neg h).trans ((if_neg hpage).trans ((if_neg (by omega)).trans
    ((if_neg (by omega)).trans ?_)))
  by_cases hmode : s.setOffsets.mode = .uidCounter
  · rw [if_pos hmode, if_pos hmode]
    rfl
  · rw [if_neg hmode, if_neg hmode]

theorem firstOutput_again (hpage : ¬config.mirrorPage ≤ 3) (hgt : last < config.mirrorPage + 3)
    (hmode : s.mode = .uid) (hagain : s.again = true) (rounds : ℕ) :
    firstOutput (mirrorBoundariesRound config last) rounds s = none := by
  have hoffsets := setOffsets_of_uid hmode
  induction rounds generalizing s with
  | zero => rfl
  | succ rounds ih =>
    have hround : mirrorBoundariesRound config last s =
        (none, { s with maxPageOffset := 3, actualMode := .uid }) := by
      rw [round_of_gt (by rw [hmode]; decide) hpage (by rw [hoffsets]; exact hgt), hoffsets]
      dsimp only
      rw [hmode, if_neg (by decide), hagain]
      rfl
    rw [firstOutput_of_none (by rw [hround]), hround]
    exact ih hmode hagain (setOffsets_of_uid hmode)

end Round

/-! ## The loop over the modes -/

/-- A mirror of UID and counter does not begin in the last pages, where as one of the UID it does not
fit either. -/
def Regular : Prop :=
  mirrorCheckMode listener.data.config listener.authState = .uidCounter →
    listener.data.config.mirrorPage + 3 < listener.lastUserPage ∨
      listener.data.config.mirrorPage + 3 = listener.lastUserPage ∧
        listener.data.config.mirrorByte ≤ 2

theorem mirrorCheckMode_counter (config : MfUltralightConfigPages)
    (authState : MfUltralightListenerAuthState) :
    mirrorCheckMode config authState ≠ .none →
      (mirrorCheckMode config authState = .counter ↔ config.mirrorConf = .counter) := by
  unfold mirrorCheckMode
  rcases hconf : config.mirrorConf with _ | _ | _ | _ <;> dsimp only <;> split_ifs <;> simp_all

theorem mirrorByte_lt (data : MfUltralightData) : data.config.mirrorByte < 4 :=
  Nat.mod_lt _ (by norm_num)

/-- What the loop finds: whether the mirror of a mode is shown, and of which. -/
structure Found (result : Bool) (actualMode : MfUltralightMirrorConf) : Prop where
  fits : result = true → listener.Fits actualMode
  mode : result = true → actualMode ≠ .none
  counter : result = true → (actualMode = .counter ↔ listener.data.config.mirrorConf = .counter)

/-- The loop as it begins. -/
def boundariesStart : MirrorBoundaries where
  mode := mirrorCheckMode listener.data.config listener.authState
  actualMode := listener.mirror.actualMode
  maxPageOffset := 0
  maxByteOffset := 2
  again := false

/-- The loop after a mirror of UID and counter that does not fit. -/
def triedAgain : MirrorBoundaries where
  mode := .uid
  actualMode := .uidCounter
  maxPageOffset := 5
  maxByteOffset := 3
  again := true

section Loop

variable {listener}

theorem Found.of_false {mode : MfUltralightMirrorConf} : listener.Found false mode :=
  ⟨fun h => absurd h Bool.false_ne_true, fun h => absurd h Bool.false_ne_true,
    fun h => absurd h Bool.false_ne_true⟩

theorem loop_once {offset : ℕ} (hnone : listener.boundariesStart.mode ≠ .none)
    (hmode : listener.boundariesStart.mode ≠ .uidCounter)
    (hoffsets : listener.boundariesStart.setOffsets = { listener.boundariesStart with
      maxPageOffset := offset, actualMode := listener.boundariesStart.mode })
    (hsize : getMirrorDataSize listener.boundariesStart.mode = offset * 4 + 2) :
    ∃ result s, mirrorBoundariesRound listener.data.config listener.lastUserPage
        listener.boundariesStart = (some result, s) ∧ listener.Found result s.actualMode := by
  have hbyte := mirrorByte_lt listener.data
  have hcounter := mirrorCheckMode_counter listener.data.config listener.authState hnone
  have found (hfits : listener.Fits listener.boundariesStart.mode) (result : Bool) :
      listener.Found result listener.boundariesStart.setOffsets.actualMode := by
    rw [hoffsets]
    exact ⟨fun _ => hfits, fun _ => hnone, fun _ => hcounter⟩
  have hoffset : listener.boundariesStart.setOffsets.maxPageOffset = offset := by rw [hoffsets]
  by_cases hpage : listener.data.config.mirrorPage ≤ 3
  · exact ⟨_, _, round_of_le_three hnone hpage, .of_false⟩
  rcases lt_trichotomy (listener.data.config.mirrorPage + offset) listener.lastUserPage with
    hlt | heq | hgt
  · refine ⟨_, _, round_of_lt hnone hpage (by rw [hoffset]; exact hlt), found ⟨by omega, ?_⟩ _⟩
    rw [hsize, mirrorStart]
    omega
  · refine ⟨_, _, round_of_eq hnone hpage (by rw [hoffset]; exact heq), ?_⟩
    have hmax : listener.boundariesStart.setOffsets.maxByteOffset = 2 := by
      rw [hoffsets]
      rfl
    rw [hmax]
    by_cases htwo : listener.data.config.mirrorByte ≤ 2
    · refine found ⟨by omega, ?_⟩ _
      rw [hsize, mirrorStart]
      omega
    · rw [decide_eq_false htwo]
      exact .of_false
  · refine ⟨false, listener.boundariesStart.setOffsets, ?_, .of_false⟩
    rw [round_of_gt hnone hpage (by rw [hoffset]; exact hgt), hoffsets]
    dsimp only
    rw [if_neg hmode]
    rfl

theorem round_uidCounter (hmode : listener.boundariesStart.mode = .uidCounter)
    (hpage : ¬listener.data.config.mirrorPage ≤ 3) :
    mirrorBoundariesRound listener.data.config listener.lastUserPage listener.boundariesStart =
      if listener.lastUserPage < listener.data.config.mirrorPage + 5 then
        (none, triedAgain)
      else (some true, { triedAgain with mode := .uidCounter, again := false }) := by
  have hnone : listener.boundariesStart.mode ≠ .none := fun h => by
    rw [hmode] at h
    cases h
  have hoffsets : listener.boundariesStart.setOffsets =
      { triedAgain with mode := .uidCounter, again := false } := by
    rw [setOffsets_of_uidCounter hmode]
    exact congrArg (fun mode => { triedAgain with mode := mode, again := false }) hmode
  have hoffset : listener.boundariesStart.setOffsets.maxPageOffset = 5 := by
    rw [hoffsets]
    rfl
  rcases lt_trichotomy (listener.data.config.mirrorPage + 5) listener.lastUserPage with
    hlt | heq | hgt
  · rw [round_of_lt hnone hpage (by rw [hoffset]; exact hlt), hoffsets, if_neg (by omega)]
  · rw [round_of_eq hnone hpage (by rw [hoffset, heq]), hoffsets, if_neg (by omega)]
    have hbyte : listener.data.config.mirrorByte ≤ 3 :=
      Nat.le_of_lt_succ (mirrorByte_lt listener.data)
    exact congrArg (fun b => (some b, _)) (decide_eq_true hbyte)
  · rw [round_of_gt hnone hpage (by rw [hoffset]; exact hgt), hoffsets, if_pos rfl, if_pos hgt]
    rfl

/-- A mirror of the UID that is tried after one of UID and counter. The bound of its first byte is
still that of the other one. -/
theorem round_triedAgain (hpage : ¬listener.data.config.mirrorPage ≤ 3)
    (hle : listener.data.config.mirrorPage + 3 ≤ listener.lastUserPage) :
    mirrorBoundariesRound listener.data.config listener.lastUserPage triedAgain =
      (some true, { triedAgain with maxPageOffset := 3, actualMode := .uid }) := by
  have hnone : triedAgain.mode ≠ .none := fun h => by cases h
  rcases hle.lt_or_eq with hlt | heq
  · rw [round_of_lt hnone hpage hlt]
    rfl
  · rw [round_of_eq hnone hpage heq]
    have hbyte : listener.data.config.mirrorByte ≤ 3 :=
      Nat.le_of_lt_succ (mirrorByte_lt listener.data)
    exact congrArg (fun b => (some b, _)) (decide_eq_true hbyte)

theorem loop_twice (hmode : listener.boundariesStart.mode = .uidCounter)
    (hregular : listener.Regular) :
    ∃ result s, firstOutput (mirrorBoundariesRound listener.data.config listener.lastUserPage) 2
        listener.boundariesStart = some (result, s) ∧ listener.Found result s.actualMode := by
  have hnone : listener.boundariesStart.mode ≠ .none := fun h => by cases hmode.symm.trans h
  have hconf : listener.data.config.mirrorConf ≠ .counter := fun hcounter => by
    cases hmode.symm.trans ((mirrorCheckMode_counter listener.data.config _ hnone).2 hcounter)
  have hbyte := mirrorByte_lt listener.data
  have found {mode : MfUltralightMirrorConf} (hfits : listener.Fits mode) (hne : mode ≠ .none)
      (hcounter : mode ≠ .counter) (result : Bool) : listener.Found result mode :=
    ⟨fun _ => hfits, fun _ => hne,
      fun _ => ⟨fun h => absurd h hcounter, fun h => absurd h hconf⟩⟩
  by_cases hpage : listener.data.config.mirrorPage ≤ 3
  · have hround := @round_of_le_three listener.data.config listener.lastUserPage _ hnone hpage
    exact ⟨_, _, firstOutput_of_some (congrArg Prod.fst hround) 1, .of_false⟩
  have hround := round_uidCounter hmode hpage
  by_cases hgt : listener.lastUserPage < listener.data.config.mirrorPage + 5
  · rw [if_pos hgt] at hround
    have hagain := round_triedAgain hpage (by rcases hregular hmode with h | h <;> omega)
    rw [firstOutput_of_none (by rw [hround]), hround, firstOutput_of_some (by rw [hagain]), hagain]
    refine ⟨true, _, rfl, found ⟨by omega, ?_⟩ (fun h => by cases h) (fun h => by cases h) _⟩
    show mirrorStart listener.data.config + 14 ≤ _
    rw [mirrorStart]
    rcases hregular hmode with h | h <;> omega
  · rw [if_neg hgt] at hround
    rw [firstOutput_of_some (by rw [hround]), hround]
    refine ⟨true, _, rfl, found ⟨by omega, ?_⟩ (fun h => by cases h) (fun h => by cases h) _⟩
    show mirrorStart listener.data.config + 21 ≤ _
    rw [mirrorStart]
    omega

theorem loop_regular (hregular : listener.Regular) :
    ∃ result s, firstOutput (mirrorBoundariesRound listener.data.config listener.lastUserPage) 2
        listener.boundariesStart = some (result, s) ∧ listener.Found result s.actualMode := by
  rcases hmode : listener.boundariesStart.mode with _ | _ | _ | _
  · have hround := @round_of_none listener.data.config listener.lastUserPage _ hmode
    exact ⟨_, _, firstOutput_of_some (congrArg Prod.fst hround) 1, .of_false⟩
  · obtain ⟨result, s, hround, hfound⟩ := @loop_once listener 3 (by rw [hmode]; simp)
      (by rw [hmode]; simp) (by rw [setOffsets_of_uid hmode, ← hmode]) (by rw [hmode]; rfl)
    rw [firstOutput_of_some (congrArg Prod.fst hround), hround]
    exact ⟨result, s, rfl, hfound⟩
  · obtain ⟨result, s, hround, hfound⟩ := @loop_once listener 1 (by rw [hmode]; simp)
      (by rw [hmode]; simp) (by rw [setOffsets_of_counter hmode, ← hmode]) (by rw [hmode]; rfl)
    rw [firstOutput_of_some (congrArg Prod.fst hround), hround]
    exact ⟨result, s, rfl, hfound⟩
  · exact loop_twice hmode hregular

theorem loop_irregular (hlast : 6 < listener.lastUserPage) (hregular : ¬listener.Regular)
    {rounds : ℕ} {r : Bool × MirrorBoundaries}
    (h : firstOutput (mirrorBoundariesRound listener.data.config listener.lastUserPage) rounds
      listener.boundariesStart = some r) :
    r.1 = true ∧ ¬listener.Fits r.2.actualMode := by
  unfold Regular at hregular
  push Not at hregular
  obtain ⟨hmode, hle, heq⟩ := hregular
  have hpage : ¬listener.data.config.mirrorPage ≤ 3 := by omega
  have hround := round_uidCounter hmode hpage
  rw [if_pos (by omega)] at hround
  obtain _ | rounds := rounds
  · cases h
  rw [firstOutput_of_none (by rw [hround]), hround] at h
  rcases hle.lt_or_eq with hlt | heq'
  · rw [firstOutput_again hpage hlt rfl rfl] at h
    cases h
  · have hagain := round_triedAgain hpage heq'.ge
    obtain _ | rounds := rounds
    · cases h
    rw [firstOutput_of_some (by rw [hagain]), hagain] at h
    cases h
    refine ⟨rfl, fun hfits => ?_⟩
    have hfar : mirrorStart listener.data.config + 14 ≤ (listener.lastUserPage + 1) * 4 := hfits.2
    have hthree := heq heq'.symm
    rw [mirrorStart] at hfar
    omega

end Loop

end MfUltralightListener

end KiisuFirmware
