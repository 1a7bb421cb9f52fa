import KiisuFirmware.Proofs.MfUltralightRead
import KiisuFirmware.Proofs.Strint
import Mathlib.Data.List.GetD

/-!
# Reading a MIFARE Ultralight tag through the mirror

While pages are read, the mirror is at the byte of its text that belongs to the next page (`AtText`):
each page is shown with the text over it (`overlay_eq`), and what is read is mirrored as a whole.
-/

namespace KiisuFirmware

namespace MfUltralightListener

variable (listener : MfUltralightListener)

/-! ## The bytes of a page -/

theorem mirrorBytes_eq (source : List UInt8) (asciiEnd : UInt8) :
    ∀ (dest : List UInt8) (o : UInt8),
      (mirrorBytes source asciiEnd o dest).1 = dest.mapIdx (fun j b =>
          if o.toNat + j < asciiEnd.toNat then source.getD (o.toNat + j) 0 else b) ∧
        min (mirrorBytes source asciiEnd o dest).2.toNat asciiEnd.toNat =
          min (o.toNat + dest.length) asciiEnd.toNat
  | [], o => ⟨rfl, rfl⟩
  | b :: dest, o => by
    obtain ⟨hbytes, hoffset⟩ := mirrorBytes_eq source asciiEnd dest (o + 1)
    have hend := UInt8.toNat_lt asciiEnd
    rw [mirrorBytes, List.mapIdx_cons, List.length_cons]
    by_cases hlt : o < asciiEnd
    · have hlt' : o.toNat < asciiEnd.toNat := UInt8.lt_iff_toNat_lt.1 hlt
      have hsucc : (o + 1).toNat = o.toNat + 1 := by
        rw [UInt8.toNat_add, UInt8.toNat_one]
        omega
      rw [hsucc] at hbytes hoffset
      rw [if_pos hlt, if_pos (by omega)]
      refine ⟨?_, by rw [hoffset]; congr 1; omega⟩
      show _ :: _ = _
      rw [hbytes]
      congr 2
      funext j b
      rw [show o.toNat + 1 + j = o.toNat + (j + 1) by omega]
    · have hge : asciiEnd.toNat ≤ o.toNat := not_lt.1 fun h => hlt (UInt8.lt_iff_toNat_lt.2 h)
      rw [if_neg hlt, if_neg (by omega)]
      refine ⟨?_, by dsimp only; omega⟩
      show b :: dest = _
      congr 1
      symm
      rw [List.mapIdx_eq_iff]
      intro j
      rcases dest[j]? with _ | c
      · rfl
      · exact congrArg some (if_neg (by omega)).symm

theorem take_append_mapIdx_drop (f : ℕ → UInt8 → UInt8) : ∀ (k : ℕ) (bytes : List UInt8),
    bytes.take k ++ (bytes.drop k).mapIdx f =
      bytes.mapIdx fun j b => if k ≤ j then f (j - k) b else b
  | 0, bytes => by
    rw [List.take_zero, List.nil_append, List.drop_zero]
    congr 1
  | k + 1, [] => rfl
  | k + 1, b :: bytes => by
    rw [List.take_succ_cons, List.drop_succ_cons, List.cons_append,
      take_append_mapIdx_drop f k bytes, List.mapIdx_cons]
    congr 2
    funext j b
    simp only [Nat.succ_le_succ_iff, Nat.succ_sub_succ]

theorem length_getPage (data : MfUltralightData) {i : ℕ} (h : i < MF_ULTRALIGHT_MAX_PAGE_NUM) :
    (data.getPage i).length = MF_ULTRALIGHT_PAGE_SIZE := by
  have hlt : i < data.page.length := by rwa [data.length_page]
  rw [MfUltralightData.getPage, List.getD_eq_getElem _ _ hlt]
  exact data.length_of_mem _ (List.getElem_mem hlt)

theorem length_getPage_le (data : MfUltralightData) (i : ℕ) : (data.getPage i).length ≤ 4 := by
  by_cases h : i < MF_ULTRALIGHT_MAX_PAGE_NUM
  · exact (length_getPage data h).le
  · have hge : data.page.length ≤ i := by
      rw [data.length_page]
      exact not_lt.1 h
    rw [MfUltralightData.getPage, List.getD_eq_default _ _ hge]
    exact Nat.zero_le 4

/-! ## The text -/

/-- Where the text of a mode is in the whole text. -/
def textStart (mode : MfUltralightMirrorConf) : ℕ := if mode = .counter then 15 else 0

theorem length_uidText (uid : Vector UInt8 7) : (uidText uid).length = 14 := by
  simp [uidText, List.length_flatMap, length_printHex]

theorem mirrorText_getD (data : MfUltralightData) {mode : MfUltralightMirrorConf}
    (hmode : mode ≠ .none) {k : ℕ} (hk : k < getMirrorDataSize mode) :
    (mirrorText data .uidCounter).getD (textStart mode + k) 0 = (mirrorText data mode).getD k 0 := by
  have hlength := length_uidText data.uid
  rcases mode with _ | _ | _ | _
  · exact absurd rfl hmode
  · change k < 14 at hk
    show (uidText data.uid ++ 0x78 :: formatCounter data.counter).getD (0 + k) 0 =
      (uidText data.uid).getD k 0
    rw [Nat.zero_add, List.getD_append _ _ _ _ (by omega)]
  · show (uidText data.uid ++ 0x78 :: formatCounter data.counter).getD (15 + k) 0 =
      (formatCounter data.counter).getD k 0
    rw [List.getD_append_right _ _ _ _ (by omega), hlength, show 15 + k - 14 = k + 1 by omega,
      List.getD_cons_succ]
  · show (uidText data.uid ++ 0x78 :: formatCounter data.counter).getD (0 + k) 0 = _
    rw [Nat.zero_add]
    rfl

theorem getAsciiEnd_toNat {mode : MfUltralightMirrorConf} (hmode : mode ≠ .none) :
    (getAsciiEnd mode).toNat = textStart mode + getMirrorDataSize mode := by
  rcases mode with _ | _ | _ | _
  · exact absurd rfl hmode
  all_goals rfl

/-! ## One page -/

/-- The mirror of a mode is shown. -/
structure Showing (mode : MfUltralightMirrorConf) : Prop where
  enabled : listener.mirror.enabled = true
  prepared : listener.Prepared
  fits : listener.Fits mode
  ne_none : mode ≠ .none
  asciiEnd : listener.mirror.asciiEnd = getAsciiEnd mode
  lastPage : listener.mirror.mirrorLastPage.toNat =
    listener.data.config.mirrorPage + 1 + getMirrorDataSize mode / 4

/-- Where in the whole text a page begins. -/
def textAt (mode : MfUltralightMirrorConf) (page : ℕ) : ℕ :=
  if page ≤ listener.data.config.mirrorPage then textStart mode
  else textStart mode + (page * 4 - mirrorStart listener.data.config)

/-- The mirror is where the page begins, or both are behind the text of the mode. -/
def AtText (mode : MfUltralightMirrorConf) (page : ℕ) (asciiOffset : UInt8) : Prop :=
  min asciiOffset.toNat (textStart mode + getMirrorDataSize mode) =
    min (listener.textAt mode page) (textStart mode + getMirrorDataSize mode)

section Page

variable {listener} {mode : MfUltralightMirrorConf} {page : ℕ} {o : UInt8}

theorem overlay_outside (h : page % 2 ^ 8 < listener.data.config.mirrorPage ∨
      listener.mirror.mirrorLastPage.toNat < page % 2 ^ 8) :
    listener.overlay page o = (listener.data.getPage page, o) := by
  unfold overlay
  refine if_neg fun hmirrored => ?_
  rw [Bool.and_eq_true, Bool.and_eq_true, decide_eq_true_iff, decide_eq_true_iff] at hmirrored
  omega

theorem overlay_disabled (h : listener.mirror.enabled = false) :
    listener.overlay page o = (listener.data.getPage page, o) := by
  unfold overlay
  refine if_neg fun hmirrored => ?_
  rw [h] at hmirrored
  cases hmirrored

theorem mirrored_outside (h : page * 4 + 3 < mirrorStart listener.data.config ∨
      mirrorStart listener.data.config + getMirrorDataSize mode ≤ page * 4) :
    listener.mirrored mode page = listener.data.getPage page := by
  rw [mirrored, List.mapIdx_eq_iff]
  intro j
  have hlength := length_getPage_le listener.data page
  rcases hget : (listener.data.getPage page)[j]? with _ | b
  · rfl
  · have hlt := (List.getElem?_eq_some_iff.1 hget).1
    exact congrArg some (if_neg (by omega)).symm

/-- A page with the mirror: the text is over it, and the mirror moves on to the next page. -/
theorem overlay_eq (h : listener.Showing mode) (hstart : listener.data.config.mirrorPage ≤ page)
    (hlast : page ≤ listener.mirror.mirrorLastPage.toNat) (hat : listener.AtText mode page o) :
    (listener.overlay page o).1 = listener.mirrored mode page ∧
      listener.AtText mode (page + 1) (listener.overlay page o).2 := by
  have hbyte := mirrorByte_lt listener.data
  have hlt := UInt8.toNat_lt listener.mirror.mirrorLastPage
  have hmod : page % 2 ^ 8 = page := Nat.mod_eq_of_lt (by omega)
  have hlength : (listener.data.getPage page).length = 4 :=
    length_getPage listener.data (by rw [MF_ULTRALIGHT_MAX_PAGE_NUM]; omega)
  have hsize : 6 ≤ getMirrorDataSize mode := by
    rcases hm : mode with _ | _ | _ | _
    · exact absurd hm h.ne_none
    all_goals simp [getMirrorDataSize]
  have hend : listener.mirror.asciiEnd.toNat = textStart mode + getMirrorDataSize mode := by
    rw [h.asciiEnd, getAsciiEnd_toNat h.ne_none]
  have hmirrored : (listener.mirror.enabled &&
      decide (listener.data.config.mirrorPage ≤ page % 2 ^ 8) &&
      decide (page % 2 ^ 8 ≤ listener.mirror.mirrorLastPage.toNat)) = true := by
    rw [h.enabled, hmod, decide_eq_true hstart, decide_eq_true hlast]
    rfl
  unfold overlay
  dsimp only
  rw [if_pos hmirrored, hmod]
  generalize hoffset : (if listener.data.config.mirrorPage < page then 0
    else listener.data.config.mirrorByte) = k
  obtain ⟨hbytes, hnext⟩ := mirrorBytes_eq listener.mirror.asciiMirrorData
    listener.mirror.asciiEnd ((listener.data.getPage page).drop k) o
  rw [hend, List.length_drop, hlength] at hnext
  rw [hend] at hbytes
  unfold AtText textAt at hat ⊢
  have hms : mirrorStart listener.data.config =
    listener.data.config.mirrorPage * 4 + listener.data.config.mirrorByte := rfl
  constructor
  · rw [hbytes, take_append_mapIdx_drop, mirrored, List.mapIdx_eq_mapIdx_iff]
    intro j hj
    rw [hlength] at hj
    by_cases hin : mirrorStart listener.data.config ≤ page * 4 + j ∧
        page * 4 + j < mirrorStart listener.data.config + getMirrorDataSize mode
    · have hk : k ≤ j := by split_ifs at hoffset <;> omega
      have ho : o.toNat + (j - k) =
          textStart mode + (page * 4 + j - mirrorStart listener.data.config) := by
        split_ifs at hoffset hat <;> omega
      rw [if_pos hk, if_pos (by omega), if_pos hin, ho, h.prepared,
        mirrorText_getD _ h.ne_none (by omega)]
    · rw [if_neg hin]
      by_cases hk : k ≤ j
      · refine (if_pos hk).trans (if_neg ?_)
        split_ifs at hoffset hat <;> omega
      · exact if_neg hk
  · rw [hnext]
    split_ifs at hoffset hat ⊢ <;> omega

end Page

/-! ## The tags with a mirror -/

section Tags

variable {listener}

theorem isI2cTag_of_asciiMirror {type : MfUltralightType}
    (h : type.supportFeature .asciiMirror = true) : type.isI2cTag = false := by
  revert h
  cases type <;> decide

theorem configPage_of_asciiMirror {type : MfUltralightType}
    (h : type.supportFeature .asciiMirror = true) :
    41 ≤ type.getConfigPageNum ∧ type.getConfigPageNum ≤ 227 ∧
      type.getPwdPageNum = type.getConfigPageNum + 2 := by
  revert h
  cases type <;> decide

theorem lastUserPage_eq (h : listener.data.type.supportFeature .asciiMirror = true) :
    listener.lastUserPage + 2 = listener.data.type.getConfigPageNum := by
  obtain ⟨hle, hge, -⟩ := configPage_of_asciiMirror h
  unfold lastUserPage
  omega

theorem page_of_isPagePwdOrPack (h : listener.data.type.supportFeature .asciiMirror = true)
    {page : ℕ} (hpwd : listener.data.type.isPagePwdOrPack page = true) :
    listener.lastUserPage + 4 ≤ page ∧ page < 256 := by
  obtain ⟨hle, hge, heq⟩ := configPage_of_asciiMirror h
  have hlast := lastUserPage_eq h
  rw [MfUltralightType.isPagePwdOrPack, heq] at hpwd
  simp only [Bool.and_eq_true, Bool.or_eq_true, decide_eq_true_eq] at hpwd
  rcases hpwd.2 with hpage | hpage <;> omega

end Tags

/-! ## Four pages -/

section Pages

variable {listener} {mode : MfUltralightMirrorConf} {startPage : ℕ}

theorem Showing.lastPage_le (h : listener.Showing mode) :
    listener.mirror.mirrorLastPage.toNat ≤ listener.lastUserPage + 1 := by
  have hfits := h.fits.2
  rw [h.lastPage]
  rw [mirrorStart] at hfits
  rcases mode with _ | _ | _ | _
  · exact absurd rfl h.ne_none
  all_goals
    rw [getMirrorDataSize] at hfits ⊢
    omega

theorem Showing.overlay_outside (h : listener.Showing mode) {page : ℕ} (hlt : page < 256 + 4)
    (hout : page < listener.data.config.mirrorPage ∨
      listener.mirror.mirrorLastPage.toNat < page) (o : UInt8) :
    listener.overlay page o = (listener.mirrored mode page, o) := by
  have hfour := h.fits.1
  have hlast := h.lastPage
  have hbyte := mirrorByte_lt listener.data
  rw [MfUltralightListener.overlay_outside, mirrored_outside]
  · rw [mirrorStart]
    omega
  · rcases Nat.lt_or_ge page 256 with hsmall | hlarge
    · rwa [Nat.mod_eq_of_lt (show page < 2 ^ 8 from hsmall)]
    · exact .inl (by omega)

theorem Showing.atText_getAsciiOffset (h : listener.Showing mode)
    (hcounter : mode = .counter ↔ listener.data.config.mirrorConf = .counter)
    (hlast : startPage ≤ listener.mirror.mirrorLastPage.toNat) :
    listener.AtText mode startPage (listener.getAsciiOffset startPage) := by
  have hbyte := mirrorByte_lt listener.data
  have hsize : getMirrorDataSize mode ≤ 21 := by
    rcases mode with _ | _ | _ | _
    all_goals simp [getMirrorDataSize]
  have hstart : textStart mode =
      if listener.data.config.mirrorConf = .counter then 15 else 0 := by
    rw [textStart]
    simp only [hcounter]
  have hle : textStart mode ≤ 15 := by
    rw [textStart]
    split_ifs <;> simp
  rw [h.lastPage] at hlast
  unfold AtText textAt getAsciiOffset
  dsimp only
  rw [← hstart, mirrorStart]
  by_cases hbehind : listener.data.config.mirrorPage < startPage
  · rw [if_pos hbehind, if_neg (by omega), UInt8.toNat_ofNat_of_lt' (show _ < 256 by omega)]
    congr 1
    omega
  · rw [if_neg hbehind, if_pos (by omega), UInt8.toNat_ofNat_of_lt' (show _ < 256 by omega)]

theorem readPages_showing (h : listener.Showing mode)
    (hmirror : listener.data.type.supportFeature .asciiMirror = true)
    (hcounter : mode = .counter ↔ listener.data.config.mirrorConf = .counter)
    (htotal : listener.data.pagesTotal ≠ 0) (hlt : startPage < 256)
    (hle : startPage ≤ listener.data.pagesTotal)
    (hoffset : listener.mirror.asciiOffset = listener.getAsciiOffset startPage) :
    ∃ o, readPages startPage false 4 0 0 listener =
      .ok (contents (listener.mirrored mode) (listener.shownPages startPage false 4 0 0),
        listener.reading o ((listener.shownPages startPage false 4 0 0).reduceOption.reverse ++
          listener.accessed)) := by
  have hfour := h.fits.1
  have hlast := h.lastPage_le
  refine @readPages_eq listener startPage false 4 (listener.mirrored mode)
    (fun i o => listener.checkAccess (startPage + i) .read = true →
      startPage + i < listener.data.pagesTotal →
      startPage + i ≤ listener.mirror.mirrorLastPage.toNat → listener.AtText mode (startPage + i) o)
    htotal ?_ ?_ ?_ 4 0 0 listener.mirror.asciiOffset listener.accessed rfl le_rfl ?_
  · intro i _ o hblank _ _ _ hshown
    have hpwd := (page_of_isPagePwdOrPack hmirror hblank).1
    omega
  · intro i hi o _ haccess hat
    rw [storedPage, if_neg Bool.false_ne_true]
    rcases Nat.lt_or_ge (startPage + i) listener.data.pagesTotal with hin | hwrap
    · rw [Nat.mod_eq_of_lt hin]
      by_cases hshown : listener.data.config.mirrorPage ≤ startPage + i ∧
          startPage + i ≤ listener.mirror.mirrorLastPage.toNat
      · obtain ⟨hpage, hnext⟩ := overlay_eq h hshown.1 hshown.2 (hat haccess hin hshown.2)
        exact ⟨hpage, fun _ _ _ => hnext⟩
      · rw [h.overlay_outside (by omega) (by omega)]
        refine ⟨rfl, fun _ _ hshown' => ?_⟩
        have hat' := hat haccess hin (by omega)
        unfold AtText textAt at hat' ⊢
        rw [if_pos (by omega)] at hat'
        rwa [if_pos (by omega)]
    · have hsmall : (startPage + i) % listener.data.pagesTotal < 4 := by
        rw [Nat.mod_eq_sub_mod hwrap]
        exact (Nat.mod_le _ _).trans_lt (by omega)
      rw [h.overlay_outside (by omega) (by omega)]
      exact ⟨rfl, fun _ _ _ => by omega⟩
  · intro i hi r hr o _ hrestricted hat
    rw [h.overlay_outside (by omega) (by omega)]
    refine ⟨rfl, fun haccess => ?_⟩
    have hread : listener.checkAccess (startPage + i) .read = true := checkAccess_of_succ haccess
    rw [hread] at hrestricted
    cases hrestricted
  · intro _ _ hshown
    rw [hoffset]
    exact h.atText_getAsciiOffset hcounter hshown

end Pages

/-! ## The law -/

/-- The bytes of a stored page, with the mirror of a mode over them if it is shown. -/
def mirrorContent (enabled : Bool) (mode : MfUltralightMirrorConf) : ℕ → List UInt8 :=
  if enabled then listener.mirrored mode else listener.data.getPage

/-- Bytes for the pages that are shown, also where zeros are read. -/
def placed (content : ℕ → List UInt8) (startPage : ℕ) (shown : List (Option ℕ)) :
    List (List UInt8) :=
  shown.mapIdx fun i page => content (page.getD (startPage + i))

/-- The loop over the modes ends, a mirror that is shown is in the pages of the user, and a READ
returns; what it sends are the bytes of stored pages with the mirror over them. -/
def ReadLaw (rx : List UInt8) : Prop :=
  ∃ (rounds : ℕ) (enabled : Bool) (next : MfUltralightListener),
    listener.mirrorCheckBoundaries rounds = .ok (enabled, next) ∧
      (enabled = true → listener.Fits next.mirror.actualMode) ∧
      (listener.data.pagesTotal ≠ 0 → ∃ command after,
        listener.readPageHandler rounds rx = .ok (command, after)) ∧
      ∀ frame after, listener.readPageHandler rounds rx = .ok (.processed frame, after) →
        frame = (placed (listener.mirrorContent enabled next.mirror.actualMode)
          (rx.getD 1 0).toNat
          (listener.shownPages (rx.getD 1 0).toNat false 4 0 0)).flatten

section Law

variable {listener} {rounds : ℕ} {enabled : Bool} {next : MfUltralightListener} {rx : List UInt8}

theorem mirrorCheckBoundaries_eq :
    listener.mirrorCheckBoundaries rounds =
      (firstOutput (mirrorBoundariesRound listener.data.config listener.lastUserPage) rounds
        listener.boundariesStart).elim (.error .exhausted) fun r =>
          .ok (r.1, listener.setMirror { listener.mirror with actualMode := r.2.actualMode }) := by
  unfold mirrorCheckBoundaries boundariesStart
  dsimp only
  rcases firstOutput (mirrorBoundariesRound listener.data.config listener.lastUserPage) rounds
    _ with _ | ⟨result, s⟩ <;> rfl

theorem mirrorCheckBoundaries_eq_ok_iff :
    listener.mirrorCheckBoundaries rounds = .ok (enabled, next) ↔
      ∃ s, firstOutput (mirrorBoundariesRound listener.data.config listener.lastUserPage) rounds
          listener.boundariesStart = some (enabled, s) ∧
        next = listener.setMirror { listener.mirror with actualMode := s.actualMode } := by
  rw [mirrorCheckBoundaries_eq]
  rcases firstOutput (mirrorBoundariesRound listener.data.config listener.lastUserPage) rounds
    listener.boundariesStart with _ | ⟨result, s⟩
  · simp
  · simp [eq_comm]

theorem found_of_mirrorCheckBoundaries (hregular : listener.Regular)
    (h : listener.mirrorCheckBoundaries rounds = .ok (enabled, next)) :
    listener.Found enabled next.mirror.actualMode := by
  obtain ⟨s, hloop, rfl⟩ := mirrorCheckBoundaries_eq_ok_iff.1 h
  obtain ⟨result, s', htwo, hfound⟩ := loop_regular hregular
  have heq := (firstOutput_mono (le_max_left rounds 2) hloop).symm.trans
    (firstOutput_mono (le_max_right rounds 2) htwo)
  cases heq
  exact hfound

/-- The listener that reads, with the mirror where the pages begin. -/
def prepared (enabled : Bool) (startPage : ℕ) (next : MfUltralightListener) :
    MfUltralightListener :=
  if enabled then next.setMirror { next.mirror with
    enabled := true
    asciiOffset := next.getAsciiOffset startPage
    asciiEnd := getAsciiEnd next.mirror.actualMode
    mirrorLastPage := next.getMirrorLastPage }
  else next.setMirror { next.mirror with enabled := false }

theorem mirrorReadPrepare_eq (hmirror : listener.data.type.supportFeature .asciiMirror = true)
    (h : listener.mirrorCheckBoundaries rounds = .ok (enabled, next)) {startPage : ℕ}
    (hlt : startPage < 256) :
    listener.mirrorReadPrepare rounds startPage = .ok (prepared enabled startPage next) := by
  have hpage := (configPage_of_asciiMirror hmirror).1
  rw [mirrorReadPrepare, mirrorEnabled, if_pos ⟨hmirror, by omega⟩, h,
    Nat.mod_eq_of_lt (show startPage < 2 ^ 8 from hlt)]
  rcases enabled with _ | _ <;> rfl

theorem readPages_prepared (hmirror : listener.data.type.supportFeature .asciiMirror = true)
    (hprepared : listener.Prepared) (hregular : listener.Regular)
    (h : listener.mirrorCheckBoundaries rounds = .ok (enabled, next))
    (htotal : listener.data.pagesTotal ≠ 0) {startPage : ℕ} (hlt : startPage < 256)
    (hle : startPage ≤ listener.data.pagesTotal) :
    ∃ after, readPages startPage false 4 0 0 (prepared enabled startPage next) =
      .ok (contents (listener.mirrorContent enabled next.mirror.actualMode)
        (listener.shownPages startPage false 4 0 0), after) := by
  have hfound := found_of_mirrorCheckBoundaries hregular h
  obtain ⟨s, -, rfl⟩ := mirrorCheckBoundaries_eq_ok_iff.1 h
  rcases enabled with _ | _
  · obtain ⟨o, hread⟩ := @readPages_eq (prepared false startPage
        (listener.setMirror { listener.mirror with actualMode := s.actualMode })) startPage false 4
      listener.data.getPage (fun _ _ => True) htotal (fun _ _ _ _ _ => trivial)
      (fun _ _ _ _ _ _ => ⟨congrArg Prod.fst (overlay_disabled rfl), trivial⟩)
      (fun _ _ _ _ _ _ _ _ => ⟨congrArg Prod.fst (overlay_disabled rfl), trivial⟩)
      4 0 0 listener.mirror.asciiOffset listener.accessed rfl le_rfl trivial
    exact ⟨_, hread⟩
  · have hfits := hfound.fits rfl
    have hnone := hfound.mode rfl
    have hpage := configPage_of_asciiMirror hmirror
    have hlast := lastUserPage_eq hmirror
    have hshowing : (prepared true startPage (listener.setMirror { listener.mirror with
        actualMode := s.actualMode })).Showing s.actualMode := by
      refine ⟨rfl, hprepared, hfits, hnone, rfl, ?_⟩
      have hfar : mirrorStart listener.data.config + getMirrorDataSize s.actualMode ≤ _ := hfits.2
      rw [mirrorStart] at hfar
      exact UInt8.toNat_ofNat_of_lt' (show listener.data.config.mirrorPage + 1 +
        getMirrorDataSize s.actualMode / 4 < 256 by omega)
    obtain ⟨o, hread⟩ := readPages_showing hshowing hmirror (hfound.counter rfl) htotal hlt hle rfl
    exact ⟨_, hread⟩

theorem readPageHandler_of_accepted
    (hmirror : listener.data.type.supportFeature .asciiMirror = true)
    (hprepared : listener.Prepared) (hregular : listener.Regular)
    (h : listener.mirrorCheckBoundaries rounds = .ok (enabled, next))
    (htotal : listener.data.pagesTotal ≠ 0)
    (hstart : listener.hasStartPage (rx.getD 1 0).toNat = true)
    (haccess : listener.checkAccess (rx.getD 1 0).toNat .read = true) :
    ∃ after, listener.readPageHandler rounds rx =
      .ok (.processed (contents (listener.mirrorContent enabled next.mirror.actualMode)
        (listener.shownPages (rx.getD 1 0).toNat false 4 0 0)).flatten, after) := by
  have hi2c := isI2cTag_of_asciiMirror hmirror
  have hle : (rx.getD 1 0).toNat ≤ listener.data.pagesTotal := by
    rw [hasStartPage, hi2c] at hstart
    simpa using hstart
  have hlt := UInt8.toNat_lt (rx.getD 1 0)
  obtain ⟨after, hread⟩ := readPages_prepared hmirror hprepared hregular h htotal hlt hle
  refine ⟨after.singleCounterTryIncrease, ?_⟩
  rw [readPageHandler, performRead, hstart, haccess, hi2c, mirrorReadPrepare_eq hmirror h hlt]
  simp only [bind, Except.bind, hread]
  rfl

theorem readPageHandler_of_no_pages
    (hmirror : listener.data.type.supportFeature .asciiMirror = true)
    (h : listener.mirrorCheckBoundaries rounds = .ok (enabled, next))
    (hzero : listener.data.pagesTotal = 0)
    (hstart : listener.hasStartPage (rx.getD 1 0).toNat = true)
    (haccess : listener.checkAccess (rx.getD 1 0).toNat .read = true) :
    listener.readPageHandler rounds rx = .error .divisionByZero := by
  have hi2c := isI2cTag_of_asciiMirror hmirror
  have hlast := lastUserPage_eq hmirror
  have hconfig := (configPage_of_asciiMirror hmirror).1
  have hfirst : (rx.getD 1 0).toNat = 0 := by
    rw [hasStartPage, hi2c, hzero] at hstart
    simpa using hstart
  have hpwd : listener.data.type.isPagePwdOrPack (0 + 0) = false := by
    refine Bool.eq_false_of_not_eq_true fun hpwd => ?_
    have hpage := (page_of_isPagePwdOrPack hmirror hpwd).1
    omega
  rw [hfirst] at haccess hstart
  have hpage : (prepared enabled 0 next).readPage 0 false 0 0 = .error .divisionByZero := by
    obtain ⟨s, -, rfl⟩ := mirrorCheckBoundaries_eq_ok_iff.1 h
    rcases enabled with _ | _ <;> exact readPage_of_no_pages hpwd haccess hzero
  rw [readPageHandler, performRead, hfirst, hstart, haccess, hi2c,
    mirrorReadPrepare_eq hmirror h (by norm_num)]
  simp only [bind, Except.bind, readPages, hpage]
  rfl

theorem readPageHandler_of_refused
    (h : ¬(listener.hasStartPage (rx.getD 1 0).toNat = true ∧
      listener.checkAccess (rx.getD 1 0).toNat .read = true)) :
    listener.readPageHandler rounds rx = .ok (.notProcessedNAK, listener) := by
  rw [readPageHandler]
  dsimp only
  by_cases hstart : listener.hasStartPage (rx.getD 1 0).toNat = true
  · have haccess := Bool.eq_false_of_not_eq_true fun haccess => h ⟨hstart, haccess⟩
    rw [hstart, haccess]
    rfl
  · rw [Bool.eq_false_of_not_eq_true hstart]
    rfl

theorem flatten_contents_eq_iff {content : ℕ → List UInt8} {startPage : ℕ}
    {shown : List (Option ℕ)}
    (hlength : ∀ i : ℕ, shown[i]? = some none → (content (startPage + i)).length = 4) :
    (contents content shown).flatten = (placed content startPage shown).flatten ↔
      ∀ i : ℕ, shown[i]? = some none → content (startPage + i) = zeroPage := by
  have hlengths : (contents content shown).map List.length =
      (placed content startPage shown).map List.length := by
    refine List.ext_getElem? fun i => ?_
    rw [contents, placed, List.getElem?_map, List.getElem?_map, List.getElem?_map,
      List.getElem?_mapIdx]
    rcases hshown : shown[i]? with _ | _ | page
    · rfl
    · exact congrArg some (hlength i hshown).symm
    · rfl
  constructor
  · intro heq i hshown
    have heq := List.eq_iff_flatten_eq.2 ⟨heq, hlengths⟩
    have hplace : (contents content shown)[i]? = (placed content startPage shown)[i]? := by
      rw [heq]
    rw [contents, placed, List.getElem?_map, List.getElem?_mapIdx, hshown] at hplace
    exact (Option.some_injective _ hplace).symm
  · intro hzero
    congr 1
    refine List.ext_getElem? fun i => ?_
    rw [contents, placed, List.getElem?_map, List.getElem?_mapIdx]
    rcases hshown : shown[i]? with _ | _ | page
    · rfl
    · exact congrArg some (hzero i hshown).symm
    · rfl

theorem regular_of_fits (hmirror : listener.data.type.supportFeature .asciiMirror = true)
    (h : listener.mirrorCheckBoundaries rounds = .ok (enabled, next))
    (hfits : enabled = true → listener.Fits next.mirror.actualMode) : listener.Regular := by
  by_contra hregular
  obtain ⟨s, hloop, rfl⟩ := mirrorCheckBoundaries_eq_ok_iff.1 h
  have hpage := (configPage_of_asciiMirror hmirror).1
  have hlast := lastUserPage_eq hmirror
  obtain ⟨henabled, hfar⟩ := loop_irregular (by omega) hregular hloop
  exact hfar (hfits henabled)

theorem mirrorContent_of_pwd (hmirror : listener.data.type.supportFeature .asciiMirror = true)
    {mode : MfUltralightMirrorConf} (hfits : enabled = true → listener.Fits mode) {page : ℕ}
    (hpwd : listener.data.type.isPagePwdOrPack page = true) :
    listener.mirrorContent enabled mode page = listener.data.getPage page := by
  have hpage := (page_of_isPagePwdOrPack hmirror hpwd).1
  rcases enabled with _ | _
  · rfl
  · refine mirrored_outside (.inr ?_)
    have hfar := (hfits rfl).2
    omega

end Law

/-! ## The text is prepared -/

/-- What the text that is mirrored depends on. -/
def mirrorSource : List UInt8 × Vector UInt8 7 × UInt32 :=
  (listener.mirror.asciiMirrorData, listener.data.uid, listener.data.counter)

section Prepared

variable {listener} {next : MfUltralightListener}

theorem Prepared.of_mirrorSource (h : listener.Prepared)
    (heq : next.mirrorSource = listener.mirrorSource) : next.Prepared := by
  have hmirror : next.mirror.asciiMirrorData = listener.mirror.asciiMirrorData :=
    congrArg Prod.fst heq
  have huid : next.data.uid = listener.data.uid := congrArg (·.2.1) heq
  have hcounter : next.data.counter = listener.data.counter := congrArg (·.2.2) heq
  unfold Prepared at h ⊢
  rw [hmirror, h, mirrorText, mirrorText, huid, hcounter]

theorem prepared_mirrorFormatCounter
    (h : listener.mirror.asciiMirrorData.take 15 = uidText listener.data.uid ++ [0x78]) :
    listener.mirrorFormatCounter.Prepared := by
  show listener.mirror.asciiMirrorData.take 15 ++ formatCounter listener.data.counter = _
  rw [h, List.append_assoc]
  rfl

theorem Prepared.take (h : listener.Prepared) :
    listener.mirror.asciiMirrorData.take 15 = uidText listener.data.uid ++ [0x78] := by
  rw [h, mirrorText, List.append_cons, List.take_left']
  rw [List.length_append, length_uidText]
  rfl

theorem prepared_alloc (data : MfUltralightData) : (alloc data).Prepared := by
  refine prepared_mirrorFormatCounter (List.take_of_length_le ?_)
  show (uidText data.uid ++ [0x78]).length ≤ 15
  rw [List.length_append, length_uidText]
  rfl

theorem Prepared.singleCounterTryIncrease (h : listener.Prepared) :
    listener.singleCounterTryIncrease.Prepared := by
  unfold MfUltralightListener.singleCounterTryIncrease
  split_ifs
  · exact prepared_mirrorFormatCounter h.take
  · exact h
  · exact h

theorem mirrorSource_mirrorEnabled {rounds : ℕ}
    (h : listener.mirrorEnabled rounds = .ok next) : next.mirrorSource = listener.mirrorSource := by
  unfold mirrorEnabled at h
  rw [mirrorCheckBoundaries_eq] at h
  split_ifs at h
  · rcases hloop : firstOutput (mirrorBoundariesRound listener.data.config listener.lastUserPage)
      rounds listener.boundariesStart with _ | r
    · rw [hloop] at h
      cases h
    · rw [hloop] at h
      cases h
      rfl
  · cases h
    rfl

theorem mirrorSource_mirrorReadPrepare {rounds startPage : ℕ}
    (h : listener.mirrorReadPrepare rounds startPage = .ok next) :
    next.mirrorSource = listener.mirrorSource := by
  unfold mirrorReadPrepare at h
  rcases henabled : listener.mirrorEnabled rounds with stop | mid
  · rw [henabled] at h
    cases h
  · rw [henabled] at h
    change (if mid.mirror.enabled = true then Except.ok _ else Except.ok mid) = _ at h
    rw [← mirrorSource_mirrorEnabled henabled]
    split_ifs at h <;> cases h <;> rfl

theorem mirrorSource_mirrorReadHandler (mirrorPageNum : ℕ) (dest : List UInt8) :
    (listener.mirrorReadHandler mirrorPageNum dest).2.mirrorSource = listener.mirrorSource := by
  unfold mirrorReadHandler
  dsimp only
  split_ifs <;> rfl

theorem mirrorSource_readPage {startPage : ℕ} {doI2cPageCheck : Bool} {i rollover : ℕ}
    {bytes : List UInt8} {rollover' : ℕ}
    (h : listener.readPage startPage doI2cPageCheck i rollover = .ok (bytes, rollover', next)) :
    next.mirrorSource = listener.mirrorSource := by
  unfold readPage at h
  dsimp only at h
  split_ifs at h
  all_goals first
    | cases h
      done
    | cases h
      rfl
    | cases h
      exact mirrorSource_mirrorReadHandler _ _

theorem mirrorSource_readPages {startPage : ℕ} {doI2cPageCheck : Bool} :
    ∀ {pageCnt i rollover : ℕ} {listener next : MfUltralightListener} {pages : List (List UInt8)},
      readPages startPage doI2cPageCheck pageCnt i rollover listener = .ok (pages, next) →
      next.mirrorSource = listener.mirrorSource
  | 0, _, _, _, _, _, h => by
    cases h
    rfl
  | pageCnt + 1, i, rollover, listener, next, pages, h => by
    rw [readPages] at h
    rcases hpage : listener.readPage startPage doI2cPageCheck i rollover with
      stop | ⟨bytes, rollover', mid⟩
    · rw [hpage] at h
      cases h
    rcases hrest : readPages startPage doI2cPageCheck pageCnt (i + 1) rollover' mid with
      stop | ⟨pages', last⟩
    · simp only [hpage, hrest, bind, Except.bind] at h
      cases h
    · simp only [hpage, hrest, bind, Except.bind] at h
      cases h
      exact (mirrorSource_readPages hrest).trans (mirrorSource_readPage hpage)

theorem Prepared.performRead (h : listener.Prepared) {rounds startPage pageCnt : ℕ}
    {doI2cPageCheck : Bool} {pages : List (List UInt8)}
    (hread : listener.performRead rounds startPage pageCnt doI2cPageCheck = .ok (pages, next)) :
    next.Prepared := by
  unfold MfUltralightListener.performRead at hread
  rcases hprepare : listener.mirrorReadPrepare rounds startPage with stop | mid
  · rw [hprepare] at hread
    cases hread
  rcases hpages : readPages startPage doI2cPageCheck pageCnt 0 0 mid with stop | ⟨pages', last⟩
  · simp only [hprepare, hpages, bind, Except.bind] at hread
    cases hread
  · simp only [hprepare, hpages, bind, Except.bind] at hread
    cases hread
    refine Prepared.singleCounterTryIncrease (h.of_mirrorSource ?_)
    exact (mirrorSource_readPages hpages).trans (mirrorSource_mirrorReadPrepare hprepare)

theorem mirrorSource_setPage (i : ℕ) (bytes : List UInt8) :
    (listener.setData (listener.data.setPage i bytes)).mirrorSource = listener.mirrorSource := by
  unfold MfUltralightData.setPage
  split_ifs <;> rfl

theorem mirrorSource_performWrite (rxData : List UInt8) (startPage : ℕ) (doI2cCheck : Bool) :
    (listener.performWrite rxData startPage doI2cCheck).2.mirrorSource = listener.mirrorSource := by
  unfold performWrite
  dsimp only
  split_ifs
  all_goals first
    | rfl
    | exact mirrorSource_setPage _ _

theorem mirrorSource_writePageHandler (rx : List UInt8) :
    (listener.writePageHandler rx).2.mirrorSource = listener.mirrorSource := by
  unfold writePageHandler
  dsimp only
  split_ifs
  all_goals first
    | rfl
    | exact mirrorSource_performWrite _ _ _

theorem Prepared.readPageHandler (h : listener.Prepared) {rounds : ℕ} {rx : List UInt8}
    {command : MfUltralightCommand}
    (hread : listener.readPageHandler rounds rx = .ok (command, next)) : next.Prepared := by
  unfold MfUltralightListener.readPageHandler at hread
  dsimp only at hread
  split_ifs at hread
  · cases hread
    exact h
  · cases hread
    exact h
  · rcases hpages : listener.performRead rounds (rx.getD 1 0).toNat 4 listener.data.type.isI2cTag with
      stop | ⟨pages, last⟩
    · rw [hpages] at hread
      cases hread
    · rw [hpages] at hread
      cases hread
      exact h.performRead hpages

theorem Prepared.fastReadHandler (h : listener.Prepared) {rounds : ℕ} {rx : List UInt8}
    {command : MfUltralightCommand}
    (hread : listener.fastReadHandler rounds rx = .ok (command, next)) : next.Prepared := by
  unfold MfUltralightListener.fastReadHandler at hread
  dsimp only at hread
  split at hread
  · cases hread
    exact h
  generalize (if listener.data.type.isI2cTag = true then
      listener.i2cValidatePages (rx.getD 1 0).toNat (rx.getD 2 0).toNat
    else decide (((rx.getD 2 0).toNat : ℤ) ≤ (listener.data.pagesTotal : ℤ) - 1)) = valid at hread
  split_ifs at hread
  iterate 4
    · cases hread
      exact h
  · rcases hpages : listener.performRead rounds (rx.getD 1 0).toNat
      (((rx.getD 2 0).toNat - (rx.getD 1 0).toNat + 1) % 2 ^ 8) listener.data.type.isI2cTag with
      stop | ⟨pages, last⟩
    · rw [hpages] at hread
      cases hread
    · rw [hpages] at hread
      cases hread
      exact h.performRead hpages

theorem Prepared.of_ok (h : listener.Prepared) {α : Type*} {r : α × MfUltralightListener}
    {reply : α} (heq : (.ok r : Except MfUltralightStop _) = .ok (reply, next))
    (hsource : r.2.mirrorSource = listener.mirrorSource) : next.Prepared := by
  have hnext : r.2 = next := congrArg Prod.snd (Except.ok.inj heq)
  exact h.of_mirrorSource (hnext ▸ hsource)

theorem mirrorSource_commandPostprocess (command : MfUltralightCommand) :
    (listener.commandPostprocess command).2.mirrorSource = listener.mirrorSource := by
  rcases command with _ | _ | _ | _ | _ <;> rfl

theorem Prepared.handleCommand (h : listener.Prepared) {rounds : ℕ} {rx : List UInt8}
    {command : MfUltralightCommand}
    (hread : listener.handleCommand rounds rx = .ok (command, next)) : next.Prepared := by
  unfold MfUltralightListener.handleCommand at hread
  dsimp only at hread
  split_ifs at hread
  · exact h.readPageHandler hread
  · exact h.fastReadHandler hread
  · exact h.of_ok hread (mirrorSource_writePageHandler rx)
  · refine h.of_ok hread ?_
    unfold fastWriteHandler
    split_ifs <;> rfl
  · refine h.of_ok hread ?_
    unfold sectorSelectHandlerP1
    split_ifs <;> rfl
  · refine h.of_ok hread ?_
    unfold compWriteHandlerP1
    dsimp only
    split_ifs <;> rfl
  · exact h.of_ok hread rfl

/-- The text is prepared after any frame. -/
theorem Prepared.run (h : listener.Prepared) {rounds : ℕ} {rx : List UInt8} {reply : Reply}
    (hrun : listener.run rounds rx = .ok (reply, next)) : next.Prepared := by
  unfold MfUltralightListener.run at hrun
  split_ifs at hrun with hempty
  rcases hcmd : listener.compositeCmd with _ | startPage | _
  · rw [hcmd] at hrun
    rcases hhandle : listener.handleCommand rounds rx with stop | ⟨command, mid⟩
    · simp only [hhandle, bind, Except.bind] at hrun
      cases hrun
    · simp only [hhandle, bind, Except.bind] at hrun
      exact (h.handleCommand hhandle).of_ok hrun (mirrorSource_commandPostprocess command)
  · rw [hcmd] at hrun
    refine h.of_ok hrun ((mirrorSource_commandPostprocess _).trans ?_)
    show (listener.compWriteHandlerP2 startPage rx).2.mirrorSource = _
    unfold compWriteHandlerP2
    split_ifs
    · rfl
    · exact mirrorSource_performWrite _ _ _
  · rw [hcmd] at hrun
    refine h.of_ok hrun ((mirrorSource_commandPostprocess _).trans ?_)
    show (listener.sectorSelectHandlerP2 rx).2.mirrorSource = _
    unfold sectorSelectHandlerP2
    split_ifs <;> rfl

end Prepared

/-- After any frames the text that is mirrored is that of the UID and of the counter as it is then. -/
theorem prepared_frames (data : MfUltralightData) (rounds : ℕ) (frames : List (List UInt8)) :
    Yields Prepared (fun _ => True) (exec
      (fun listener rx => (MfUltralightListener.run listener rounds rx).map Prod.snd)
      (alloc data) frames) := by
  cases hexec : exec (fun listener rx => (MfUltralightListener.run listener rounds rx).map Prod.snd)
    (alloc data) frames with
  | error stop => trivial
  | ok last =>
    refine exec_stays (P := Prepared) (fun listener rx next h hstep => ?_) frames
      (prepared_alloc data) hexec
    rcases hrun : listener.run rounds rx with stop | ⟨reply, next'⟩
    · rw [hrun] at hstep
      cases hstep
    · rw [hrun] at hstep
      cases hstep
      exact h.run hrun

/-! ## When the law holds -/

/-- The law holds just where a mirror of UID and counter is not put in the last pages, and where a
password that is hidden is none. -/
theorem readLaw_iff (listener : MfUltralightListener)
    (hmirror : listener.data.type.supportFeature .asciiMirror = true)
    (hprepared : listener.Prepared) (rx : List UInt8) :
    listener.ReadLaw rx ↔ listener.Regular ∧
      (listener.hasStartPage (rx.getD 1 0).toNat = true →
        listener.checkAccess (rx.getD 1 0).toNat .read = true →
        ∀ i < 4, listener.data.type.isPagePwdOrPack ((rx.getD 1 0).toNat + i) = true →
          listener.data.getPage ((rx.getD 1 0).toNat + i) = zeroPage) := by
  have hblank (k : ℕ) : (listener.shownPages (rx.getD 1 0).toNat false 4 0 0)[k]? = some none ↔
      k < 4 ∧ listener.data.type.isPagePwdOrPack ((rx.getD 1 0).toNat + k) = true := by
    rw [getElem?_shownPages_eq_none, Nat.zero_add]
    rfl
  have hflatten {enabled : Bool} {mode : MfUltralightMirrorConf}
      (hfits : enabled = true → listener.Fits mode) :
      (contents (listener.mirrorContent enabled mode)
          (listener.shownPages (rx.getD 1 0).toNat false 4 0 0)).flatten =
        (placed (listener.mirrorContent enabled mode) (rx.getD 1 0).toNat
          (listener.shownPages (rx.getD 1 0).toNat false 4 0 0)).flatten ↔
      ∀ i < 4, listener.data.type.isPagePwdOrPack ((rx.getD 1 0).toNat + i) = true →
        listener.data.getPage ((rx.getD 1 0).toNat + i) = zeroPage := by
    rw [flatten_contents_eq_iff]
    · refine forall_congr' fun i => ?_
      rw [hblank, and_imp]
      refine forall_congr' fun _ => forall_congr' fun hpwd => ?_
      rw [mirrorContent_of_pwd hmirror hfits hpwd]
    · intro i hshown
      have hpwd := ((hblank i).1 hshown).2
      rw [mirrorContent_of_pwd hmirror hfits hpwd]
      exact length_getPage listener.data
        ((page_of_isPagePwdOrPack hmirror hpwd).2.trans (by norm_num [MF_ULTRALIGHT_MAX_PAGE_NUM]))
  constructor
  · rintro ⟨rounds, enabled, next, h, hfits, -, hframe⟩
    have hregular := regular_of_fits hmirror h hfits
    refine ⟨hregular, fun hstart haccess i hi hpwd => ?_⟩
    have htotal : listener.data.pagesTotal ≠ 0 := fun hzero => by
      have hpage := (page_of_isPagePwdOrPack hmirror hpwd).1
      have hlast := lastUserPage_eq hmirror
      have hconfig := (configPage_of_asciiMirror hmirror).1
      rw [hasStartPage, isI2cTag_of_asciiMirror hmirror, hzero] at hstart
      simp only [Bool.false_eq_true, if_false, decide_eq_true_eq] at hstart
      omega
    obtain ⟨after, hread⟩ := readPageHandler_of_accepted hmirror hprepared hregular h htotal hstart
      haccess
    exact (hflatten hfits).1 (hframe _ _ hread) i hi hpwd
  · rintro ⟨hregular, hzero⟩
    obtain ⟨enabled, s, hloop, hfound⟩ := loop_regular hregular
    have h := mirrorCheckBoundaries_eq_ok_iff.2 ⟨s, hloop, rfl⟩
    refine ⟨2, enabled, _, h, hfound.fits, fun htotal => ?_, fun frame after hread => ?_⟩
    · by_cases haccepted : listener.hasStartPage (rx.getD 1 0).toNat = true ∧
          listener.checkAccess (rx.getD 1 0).toNat .read = true
      · obtain ⟨after, hread⟩ := readPageHandler_of_accepted hmirror hprepared hregular h htotal
          haccepted.1 haccepted.2
        exact ⟨_, _, hread⟩
      · exact ⟨_, _, readPageHandler_of_refused haccepted⟩
    · by_cases haccepted : listener.hasStartPage (rx.getD 1 0).toNat = true ∧
          listener.checkAccess (rx.getD 1 0).toNat .read = true
      · by_cases htotal : listener.data.pagesTotal = 0
        · cases hread.symm.trans (readPageHandler_of_no_pages hmirror h htotal haccepted.1 haccepted.2)
        obtain ⟨after', hread'⟩ := readPageHandler_of_accepted hmirror hprepared hregular h htotal
          haccepted.1 haccepted.2
        cases hread.symm.trans hread'
        exact (hflatten hfound.fits).2 (hzero haccepted.1 haccepted.2)
      · cases hread.symm.trans (readPageHandler_of_refused haccepted)

/-- An NTAG213 with a mirror of UID and counter that begins in a page. -/
def ntag213 (mirrorPage : UInt8) : MfUltralightData where
  type := .ntag213
  uid := .replicate 7 0
  counter := 0
  page := List.replicate 41 zeroPage ++ [[0xC0, 0, mirrorPage, 0xFF], [0x10, 0, 0, 0]] ++
    List.replicate 467 zeroPage
  pagesTotal := 45
  length_page := by
    rw [List.length_append, List.length_append, List.length_replicate, List.length_replicate]
    rfl
  length_of_mem bytes hmem := by
    rw [List.mem_append, List.mem_append, List.mem_replicate, List.mem_replicate, List.mem_cons,
      List.mem_singleton] at hmem
    rcases hmem with (⟨-, rfl⟩ | rfl | rfl) | ⟨-, rfl⟩ <;> rfl
  pagesTotal_le := by decide

theorem readLaw_ntag213 : (alloc (ntag213 10)).ReadLaw [0x30, 9] :=
  (readLaw_iff (alloc (ntag213 10)) rfl (prepared_alloc _) [0x30, 9]).2
    ⟨fun _ => .inl (by decide), fun _ _ i hi hpwd => absurd hpwd (by revert i; decide)⟩

/-- The mirror does not fit in the last pages, and is looked for without end. -/
theorem not_readLaw_ntag213 : ¬(alloc (ntag213 37)).ReadLaw [0x30, 9] := by
  rintro ⟨rounds, enabled, next, h, hfits, -⟩
  have hregular := regular_of_fits rfl h hfits
  have hmode : mirrorCheckMode (alloc (ntag213 37)).data.config (alloc (ntag213 37)).authState =
    .uidCounter := by decide
  rcases hregular hmode with hlt | heq
  · exact absurd hlt (by decide)
  · exact absurd heq.1 (by decide)

end MfUltralightListener

end KiisuFirmware
