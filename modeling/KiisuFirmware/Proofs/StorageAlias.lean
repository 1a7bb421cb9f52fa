import KiisuFirmware.RpcStorage

/-!
# What the aliases of paths keep apart

A path is looked at as text, so that a path which goes on behind the name of an alias is rewritten
as well, and may be in the directory of another application (`storageProcessAlias_ok_iff`).
-/

namespace KiisuFirmware

/-- The directory, or a path in it. -/
def Within (dir path : CString) : Prop := ∃ rest, path = dir ++ rest ∧ (rest.head?.all (· = '/'))

def aliasStarts : List CString :=
  [STORAGE_APP_DATA_PATH_PREFIX, STORAGE_APP_ASSETS_PATH_PREFIX, STORAGE_INT_PATH_PREFIX]

/-- The path goes on behind the name of an alias. -/
def Glued (path : CString) : Prop :=
  ∃ start ∈ aliasStarts, ∃ c rest, path = start ++ c :: rest ∧ c ≠ '/'

section Text

theorem data_mem : STORAGE_APP_DATA_PATH_PREFIX ∈ aliasStarts := .head _

theorem assets_mem : STORAGE_APP_ASSETS_PATH_PREFIX ∈ aliasStarts := .tail _ (.head _)

theorem int_mem : STORAGE_INT_PATH_PREFIX ∈ aliasStarts := .tail _ (.tail _ (.head _))

theorem eq_of_mem_aliasStarts {start : CString} (h : start ∈ aliasStarts) :
    start = STORAGE_APP_DATA_PATH_PREFIX ∨ start = STORAGE_APP_ASSETS_PATH_PREFIX ∨
      start = STORAGE_INT_PATH_PREFIX := by
  simpa only [aliasStarts, List.mem_cons, List.not_mem_nil, or_false] using h

theorem startWith_iff {path start : CString} :
    furiStringStartWith path start = true ↔ ∃ rest, path = start ++ rest := by
  rw [furiStringStartWith, List.isPrefixOf_iff_prefix]
  exact ⟨fun ⟨rest, h⟩ => ⟨rest, h.symm⟩, fun ⟨rest, h⟩ => ⟨rest, h.symm⟩⟩

theorem replaceStart_append (start rest text : CString) :
    replaceStart (start ++ rest) start.length text = text ++ rest := by
  rw [replaceStart, List.drop_left]

theorem within_append {dir rest : CString} (h : rest.head?.all (· = '/')) :
    Within dir (dir ++ rest) := ⟨rest, rfl, h⟩

theorem takeWhile_name (appid : AppId) {rest : CString} (h : rest.head?.all (· = '/')) :
    (appid.name ++ rest).takeWhile (· ≠ '/') = appid.name := by
  have hname : ∀ c ∈ appid.name, decide (c ≠ '/') = true := fun c hc =>
    decide_eq_true fun heq => appid.noSlash (heq ▸ hc)
  rw [List.takeWhile_append_of_pos hname]
  cases rest with
  | nil => simp
  | cons c rest =>
    have hc : c = '/' := by simpa using h
    simp [hc]

theorem ext_data (appid : AppId) (rest : CString) :
    furiStringStartWith (appsPath APPS_DATA_PATH appid ++ rest) "/ext/".toList = true := rfl

theorem ext_assets (appid : AppId) (rest : CString) :
    furiStringStartWith (appsPath APPS_ASSETS_PATH appid ++ rest) "/ext/".toList = true := rfl

theorem ext_int (rest : CString) :
    furiStringStartWith (INT_ON_EXT_PATH ++ rest) "/ext/".toList = true := rfl

theorem ext_ne {path start rest : CString} (h : furiStringStartWith path "/ext/".toList = true)
    (hstart : start ∈ aliasStarts) : path ≠ start ++ rest := by
  rintro rfl
  rcases eq_of_mem_aliasStarts hstart with rfl | rfl | rfl <;> exact absurd h Bool.false_ne_true

theorem name_eq_of_within {apps path : CString} {appid other : AppId}
    (h : Within (appsPath apps appid) path) (h' : Within (appsPath apps other) path) :
    other.name = appid.name := by
  obtain ⟨rest, rfl, hrest⟩ := h
  obtain ⟨rest', heq, hrest'⟩ := h'
  simp only [appsPath, List.append_assoc, List.append_cancel_left_eq, List.cons_append,
    List.cons.injEq, true_and] at heq
  rw [← takeWhile_name appid hrest, heq, takeWhile_name other hrest']

end Text

/-! ## The rewriting -/

section Alias

variable {σ : Type} {app : StorageCommon σ} {appid : AppId} {createFolders : Bool} {storage : σ}

theorem alias_data (rest : CString) :
    (storageProcessAlias app appid createFolders (STORAGE_APP_DATA_PATH_PREFIX ++ rest) storage).1 =
      appsPath APPS_DATA_PATH appid ++ rest := by
  rw [storageProcessAlias, if_pos (startWith_iff.2 ⟨rest, rfl⟩)]
  exact replaceStart_append ..

theorem alias_assets (rest : CString) :
    (storageProcessAlias app appid createFolders (STORAGE_APP_ASSETS_PATH_PREFIX ++ rest)
      storage).1 = appsPath APPS_ASSETS_PATH appid ++ rest := by
  have hdata : furiStringStartWith (STORAGE_APP_ASSETS_PATH_PREFIX ++ rest)
      STORAGE_APP_DATA_PATH_PREFIX = false := rfl
  rw [storageProcessAlias, if_neg (Bool.eq_false_iff.1 hdata),
    if_pos (startWith_iff.2 ⟨rest, rfl⟩)]
  exact replaceStart_append ..

theorem alias_int (rest : CString) :
    (storageProcessAlias app appid createFolders (STORAGE_INT_PATH_PREFIX ++ rest) storage).1 =
      INT_ON_EXT_PATH ++ rest := by
  have hdata : furiStringStartWith (STORAGE_INT_PATH_PREFIX ++ rest)
      STORAGE_APP_DATA_PATH_PREFIX = false := rfl
  have hassets : furiStringStartWith (STORAGE_INT_PATH_PREFIX ++ rest)
      STORAGE_APP_ASSETS_PATH_PREFIX = false := rfl
  rw [storageProcessAlias, if_neg (Bool.eq_false_iff.1 hdata),
    if_neg (Bool.eq_false_iff.1 hassets), if_pos (startWith_iff.2 ⟨rest, rfl⟩)]
  exact replaceStart_append ..

theorem alias_other {path : CString}
    (hdata : ¬∃ rest, path = STORAGE_APP_DATA_PATH_PREFIX ++ rest)
    (hassets : ¬∃ rest, path = STORAGE_APP_ASSETS_PATH_PREFIX ++ rest)
    (hint : ¬∃ rest, path = STORAGE_INT_PATH_PREFIX ++ rest) :
    (storageProcessAlias app appid createFolders path storage).1 = path := by
  rw [storageProcessAlias, if_neg (mt startWith_iff.1 hdata), if_neg (mt startWith_iff.1 hassets),
    if_neg (mt startWith_iff.1 hint)]

theorem alias_ext {path : CString} (h : furiStringStartWith path "/ext/".toList = true) :
    (storageProcessAlias app appid createFolders path storage).1 = path :=
  alias_other (fun ⟨_, hpath⟩ => ext_ne h data_mem hpath)
    (fun ⟨_, hpath⟩ => ext_ne h assets_mem hpath) (fun ⟨_, hpath⟩ => ext_ne h int_mem hpath)

/-! ## What is promised -/

/-- What is rewritten is what is behind an alias, once, and of two applications neither is in the
directory of the other. -/
structure AliasOk (app : StorageCommon σ) (appid : AppId) (createFolders : Bool) (storage : σ)
    (path : CString) : Prop where
  rewritten_iff : (storageProcessAlias app appid createFolders path storage).1 ≠ path ↔
    Within STORAGE_APP_DATA_PATH_PREFIX path ∨ Within STORAGE_APP_ASSETS_PATH_PREFIX path ∨
      Within STORAGE_INT_PATH_PREFIX path
  once : ∀ appid' createFolders' storage', (storageProcessAlias app appid' createFolders'
      (storageProcessAlias app appid createFolders path storage).1 storage').1 =
    (storageProcessAlias app appid createFolders path storage).1
  data : furiStringStartWith path STORAGE_APP_DATA_PATH_PREFIX = true → ∀ other : AppId,
    Within (appsPath APPS_DATA_PATH other)
      (storageProcessAlias app appid createFolders path storage).1 ↔ other.name = appid.name
  assets : furiStringStartWith path STORAGE_APP_ASSETS_PATH_PREFIX = true → ∀ other : AppId,
    Within (appsPath APPS_ASSETS_PATH other)
      (storageProcessAlias app appid createFolders path storage).1 ↔ other.name = appid.name

theorem rest_of_not_glued {path start rest : CString} (h : ¬Glued path)
    (hstart : start ∈ aliasStarts) (hpath : path = start ++ rest) :
    rest.head?.all (· = '/') = true := by
  rcases rest with _ | ⟨c, rest⟩
  · rfl
  · by_contra hc
    exact h ⟨start, hstart, c, rest, hpath, by simpa using hc⟩

theorem within_iff_of_rest {apps rest : CString} {appid : AppId}
    (h : rest.head?.all (· = '/') = true) (other : AppId) :
    Within (appsPath apps other) (appsPath apps appid ++ rest) ↔ other.name = appid.name := by
  constructor
  · exact fun hother => name_eq_of_within (within_append h) hother
  · intro hname
    rw [show appsPath apps other = appsPath apps appid by rw [appsPath, hname, appsPath]]
    exact within_append h

theorem storageProcessAlias_ok {path : CString} (h : ¬Glued path) :
    AliasOk app appid createFolders storage path := by
  by_cases hdata : ∃ rest, path = STORAGE_APP_DATA_PATH_PREFIX ++ rest
  · obtain ⟨rest, rfl⟩ := hdata
    have hrest := rest_of_not_glued h data_mem rfl
    have halias := @alias_data σ app appid createFolders storage rest
    refine ⟨⟨fun _ => .inl (within_append hrest), fun _ heq => ?_⟩, fun _ _ _ => ?_,
      fun _ other => ?_, fun hassets => ?_⟩
    · rw [halias] at heq
      exact ext_ne (ext_data ..) data_mem heq
    · rw [halias]
      exact alias_ext (ext_data ..)
    · rw [halias]
      exact within_iff_of_rest hrest other
    · have hother : furiStringStartWith (STORAGE_APP_DATA_PATH_PREFIX ++ rest)
          STORAGE_APP_ASSETS_PATH_PREFIX = false := rfl
      exact absurd hassets (Bool.eq_false_iff.1 hother)
  by_cases hassets : ∃ rest, path = STORAGE_APP_ASSETS_PATH_PREFIX ++ rest
  · obtain ⟨rest, rfl⟩ := hassets
    have hrest := rest_of_not_glued h assets_mem rfl
    have halias := @alias_assets σ app appid createFolders storage rest
    refine ⟨⟨fun _ => .inr (.inl (within_append hrest)), fun _ heq => ?_⟩, fun _ _ _ => ?_,
      fun hstart => ?_, fun _ other => ?_⟩
    · rw [halias] at heq
      exact ext_ne (ext_assets ..) assets_mem heq
    · rw [halias]
      exact alias_ext (ext_assets ..)
    · exact absurd (startWith_iff.1 hstart) hdata
    · rw [halias]
      exact within_iff_of_rest hrest other
  by_cases hint : ∃ rest, path = STORAGE_INT_PATH_PREFIX ++ rest
  · obtain ⟨rest, rfl⟩ := hint
    have hrest := rest_of_not_glued h int_mem rfl
    have halias := @alias_int σ app appid createFolders storage rest
    refine ⟨⟨fun _ => .inr (.inr (within_append hrest)), fun _ heq => ?_⟩, fun _ _ _ => ?_,
      fun hstart => absurd (startWith_iff.1 hstart) hdata,
      fun hstart => absurd (startWith_iff.1 hstart) hassets⟩
    · rw [halias] at heq
      exact ext_ne (ext_int ..) int_mem heq
    · rw [halias]
      exact alias_ext (ext_int ..)
  · have hother := fun appid' createFolders' storage' =>
      @alias_other σ app appid' createFolders' storage' path hdata hassets hint
    refine ⟨⟨fun hne => absurd (hother _ _ _) hne, ?_⟩, fun _ _ _ => ?_,
      fun hstart => absurd (startWith_iff.1 hstart) hdata,
      fun hstart => absurd (startWith_iff.1 hstart) hassets⟩
    · rintro (⟨rest, hpath, -⟩ | ⟨rest, hpath, -⟩ | ⟨rest, hpath, -⟩)
      · exact absurd ⟨rest, hpath⟩ hdata
      · exact absurd ⟨rest, hpath⟩ hassets
      · exact absurd ⟨rest, hpath⟩ hint
    · rw [hother, hother]

theorem start_eq {start dir rest rest' : CString} (hstart : start ∈ aliasStarts)
    (hdir : dir ∈ aliasStarts) (h : start ++ rest = dir ++ rest') : start = dir := by
  have hpath : furiStringStartWith (start ++ rest) dir = true := startWith_iff.2 ⟨rest', h⟩
  rcases eq_of_mem_aliasStarts hstart with rfl | rfl | rfl <;>
    rcases eq_of_mem_aliasStarts hdir with rfl | rfl | rfl <;>
      first | rfl | exact absurd hpath Bool.false_ne_true

theorem not_glued_of_ok {path : CString} (h : AliasOk app appid createFolders storage path) :
    ¬Glued path := by
  rintro ⟨start, hstart, c, rest, rfl, hc⟩
  have hnot : ∀ dir ∈ aliasStarts, ¬Within dir (start ++ c :: rest) := by
    rintro dir hdir ⟨rest', heq, hrest'⟩
    obtain rfl := start_eq hstart hdir heq
    rw [← List.append_cancel_left heq] at hrest'
    exact hc (by simpa using hrest')
  have hsame : (storageProcessAlias app appid createFolders (start ++ c :: rest) storage).1 =
      start ++ c :: rest := by
    by_contra hne
    rcases h.rewritten_iff.1 hne with hdata | hassets | hint
    · exact hnot _ data_mem hdata
    · exact hnot _ assets_mem hassets
    · exact hnot _ int_mem hint
  rcases eq_of_mem_aliasStarts hstart with rfl | rfl | rfl
  · rw [alias_data] at hsame
    exact ext_ne (ext_data ..) data_mem hsame
  · rw [alias_assets] at hsame
    exact ext_ne (ext_assets ..) assets_mem hsame
  · rw [alias_int] at hsame
    exact ext_ne (ext_int ..) int_mem hsame

end Alias

/-- The aliases keep applications apart just where a path does not go on behind the name of one. -/
theorem storageProcessAlias_ok_iff {σ : Type} (app : StorageCommon σ) (appid : AppId)
    (createFolders : Bool) (storage : σ) (path : CString) :
    AliasOk app appid createFolders storage path ↔ ¬Glued path :=
  ⟨not_glued_of_ok, storageProcessAlias_ok⟩

/-- A path of the application `a` that is in the directory of `ab`. -/
theorem not_storageProcessAlias_ok : ¬∀ (app : StorageCommon Unit) (appid : AppId)
    (createFolders : Bool) (storage : Unit) (path : CString),
    AliasOk app appid createFolders storage path := by
  intro h
  have hok := h ⟨fun _ _ => .ok, fun _ _ => ()⟩ ⟨['a'], by decide⟩ false ()
    ['/', 'd', 'a', 't', 'a', 'b', '/', 'x']
  have hwithin := (hok.data (by decide) ⟨['a', 'b'], by decide⟩).1 ⟨['/', 'x'], by decide, rfl⟩
  exact absurd hwithin (by decide)

end KiisuFirmware
