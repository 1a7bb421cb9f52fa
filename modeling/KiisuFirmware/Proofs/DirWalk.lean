import KiisuFirmware.DirWalk

/-!
# A walk lists the tree

A directory tree has its entries in the order the storage gives them. From a place in a directory
the rounds of the walk return what is accepted of the rest of the directory, with all there is
below, and lead to the end of the directory with the stack as it was (`emits_rest`). The end of a
directory that was entered leads back to the place behind its entry (`round_out`).
-/

namespace KiisuFirmware

/-! ## The statement -/

/-- The entries of a directory from one on, with what is below them. -/
inductive DirTree
  | nil
  | file (name : CString) (size : UInt64) (next : DirTree)
  | dir (name : CString) (size : UInt64) (below next : DirTree)

/-- An entry and the directory it is in. -/
structure DirEntry where
  dir : CString
  name : CString
  info : FileInfo
  deriving DecidableEq

/-- `MAX_DIR_EX / SZDIRE`: FatFs ends a directory there at the latest. -/
def MAX_DIR_ENTRIES : ℕ := 0x10000000 / 32

namespace DirTree

def entries : DirTree → List (FileInfo × CString)
  | nil => []
  | file name size next => (⟨false, size⟩, name) :: next.entries
  | dir name size _ next => (⟨true, size⟩, name) :: next.entries

/-- All names are of at most 254 bytes, without a slash. -/
def Named : DirTree → Prop
  | nil => True
  | file name _ next => (name.length ≤ 254 ∧ DirWalk.SLASH ∉ name) ∧ next.Named
  | dir name _ below next =>
    (name.length ≤ 254 ∧ DirWalk.SLASH ∉ name) ∧ below.Named ∧ next.Named

/-- The storage has these entries under this path. -/
def Listed (dirOpen : DirOpen) (path : CString) (entries : List (FileInfo × CString)) : Prop :=
  dirOpen path = .ok entries ∧ entries.length ≤ MAX_DIR_ENTRIES

theorem Listed.lt {dirOpen : DirOpen} {path : CString} {entries : List (FileInfo × CString)}
    (h : Listed dirOpen path entries) : entries.length < 2 ^ 32 :=
  h.2.trans_lt (by norm_num [MAX_DIR_ENTRIES])

/-- The storage has what is below the entries of the directory under this path. -/
def Below (dirOpen : DirOpen) : CString → DirTree → Prop
  | _, nil => True
  | path, file _ _ next => Below dirOpen path next
  | path, dir name _ below next =>
    (Listed dirOpen (DirWalk.joinPath path name) below.entries ∧
      Below dirOpen (DirWalk.joinPath path name) below) ∧ Below dirOpen path next

/-- The storage has the tree under this path. -/
def Stored (dirOpen : DirOpen) (path : CString) (tree : DirTree) : Prop :=
  Listed dirOpen path tree.entries ∧ Below dirOpen path tree

/-- Each entry, followed by what is below it. -/
def preorder : CString → DirTree → List DirEntry
  | _, nil => []
  | path, file name size next => ⟨path, name, ⟨false, size⟩⟩ :: preorder path next
  | path, dir name size below next => ⟨path, name, ⟨true, size⟩⟩ ::
      (preorder (DirWalk.joinPath path name) below ++ preorder path next)

/-- The entries of the top directory alone. -/
def top (path : CString) (tree : DirTree) : List DirEntry :=
  tree.entries.map fun entry => ⟨path, entry.2, entry.1⟩

/-- What a walk is to list. -/
def listing (recursive : Bool) (accepts : CString → FileInfo → Bool) (path : CString)
    (tree : DirTree) : List DirWalkItem :=
  (((if recursive then tree.preorder path else tree.top path).filter
    fun entry => accepts entry.name entry.info).map
      fun entry => (DirWalk.joinPath entry.dir entry.name, entry.info))

end DirTree

namespace DirWalk

variable {dirOpen : DirOpen} {walk : DirWalk} {path name : CString} {info : FileInfo} {k : ℕ}
  {entries rest : List (FileInfo × CString)} {indexList : List UInt32}

/-! ## Paths -/

theorem dropLast_joinPath (hname : SLASH ∉ name) : dropLast (joinPath path name) = path := by
  have hfind : (joinPath path name).reverse.findIdx? (· == SLASH) = some name.length := by
    have hnone : name.reverse.findIdx? (· == SLASH) = none := by
      rw [List.findIdx?_eq_none_iff]
      intro c hc
      rw [beq_eq_false_iff_ne]
      rintro rfl
      exact hname (List.mem_reverse.1 hc)
    simp [joinPath, List.findIdx?_append, List.findIdx?_cons, hnone]
  have hplace : (joinPath path name).length - name.length - 1 = path.length := by
    simp [joinPath]
    omega
  rw [dropLast, hfind]
  simp only [hplace]
  exact List.take_left' rfl

/-! ## Rounds -/

/-- A walk that has read `k` entries of a directory and has these still to read. -/
def place (walk : DirWalk) (path : CString) (k : ℕ) (entries : List (FileInfo × CString))
    (indexList : List UInt32) : DirWalk :=
  { walk with path, currentIndex := UInt32.ofNat k, file := ⟨some entries, .ok⟩, indexList }

theorem ofNat_succ (k : ℕ) : UInt32.ofNat k + 1 = UInt32.ofNat (k + 1) := by
  rw [UInt32.ofNat_add]
  rfl

/-- What a round returns for an entry. -/
def answer (walk : DirWalk) (entry : DirEntry) : Option DirWalkRead :=
  if walk.dirWalkFilter entry.name entry.info then
    some (.ok, some (joinPath entry.dir entry.name, entry.info))
  else none

theorem round_stay (hname : name.length ≤ 254) (hstay : (info.isDir && walk.recursive) = false) :
    iterRound dirOpen (place walk path k ((info, name) :: rest) indexList) =
      (answer walk ⟨path, name, info⟩, place walk path (k + 1) rest indexList) := by
  have htake : name.take 254 = name := List.take_of_length_le hname
  simp only [iterRound, place, storageDirRead, Nat.add_one_sub_one, htake, hstay, ofNat_succ]
  rfl

theorem round_into (hname : name.length ≤ 254) (hinto : (info.isDir && walk.recursive) = true)
    (hopen : dirOpen (joinPath path name) = .ok entries) :
    iterRound dirOpen (place walk path k ((info, name) :: rest) indexList) =
      (answer walk ⟨path, name, info⟩,
        place walk (joinPath path name) 0 entries (UInt32.ofNat (k + 1) :: indexList)) := by
  have htake : name.take 254 = name := List.take_of_length_le hname
  simp only [iterRound, place, storageDirRead, Nat.add_one_sub_one, htake, hinto, ofNat_succ,
    if_true, stepInto, storageDirOpen, hopen]
  rfl

theorem ofNat_inj_of_lt {i j : ℕ} (hi : i < 2 ^ 32) (hj : j < 2 ^ 32)
    (h : UInt32.ofNat i = UInt32.ofNat j) : i = j := by
  have hnat := congrArg UInt32.toNat h
  rwa [UInt32.toNat_ofNat_of_lt' hi, UInt32.toNat_ofNat_of_lt' hj] at hnat

theorem rewindLoop_eq (hlength : entries.length < 2 ^ 32) : ∀ (rounds j : ℕ), j ≤ k →
    k ≤ entries.length → k - j < rounds →
    rewindLoop (UInt32.ofNat k) rounds (place walk path j (entries.drop j) indexList) =
      (true, place walk path k (entries.drop k) indexList)
  | 0, _, _, _, hrounds => absurd hrounds (Nat.not_lt_zero _)
  | rounds + 1, j, hj, hk, hrounds => by
    rw [rewindLoop]
    rcases Nat.eq_or_lt_of_le hj with rfl | hlt
    · exact if_pos rfl
    · have hne : UInt32.ofNat k ≠ (place walk path j (entries.drop j) indexList).currentIndex :=
        fun h => hlt.ne (ofNat_inj_of_lt (by omega) (by omega) h).symm
      rw [if_neg hne]
      have hdrop : entries.drop j = entries[j] :: entries.drop (j + 1) :=
        List.drop_eq_getElem_cons (by omega)
      have ih := rewindLoop_eq hlength rounds (j + 1) hlt hk (by omega)
      simp only [place, storageDirRead, hdrop, Option.isNone_some, Bool.false_eq_true, if_false,
        ofNat_succ]
      exact ih

theorem round_out (hname : SLASH ∉ name) (hopen : dirOpen path = .ok entries)
    (hlength : entries.length < 2 ^ 32) (hk : k ≤ entries.length) {n : ℕ} :
    iterRound dirOpen (place walk (joinPath path name) n [] (UInt32.ofNat k :: indexList)) =
      (none, place walk path k (entries.drop k) indexList) := by
  have hrewind := @rewindLoop_eq walk path k entries indexList hlength (entries.length + 1) 0
    (Nat.zero_le k) hk (by omega)
  have hout : stepOut dirOpen { place walk (joinPath path name) n [] (UInt32.ofNat k :: indexList)
      with file := ⟨some [], .notExist⟩ } (UInt32.ofNat k) indexList =
      (true, place walk path k (entries.drop k) indexList) := by
    simp only [stepOut, place, dropLast_joinPath hname, storageDirOpen, hopen, Option.getD_some]
    exact hrewind
  simp only [iterRound, storageDirRead, place] at hout ⊢
  simp only [hout]
  rfl

/-! ## The tree -/

/-- What the walk returns for these entries. -/
def answers (walk : DirWalk) (entries : List DirEntry) : List DirWalkRead :=
  (entries.filter fun entry => walk.dirWalkFilter entry.name entry.info).map fun entry =>
    (.ok, some (joinPath entry.dir entry.name, entry.info))

theorem answers_cons (walk : DirWalk) (entry : DirEntry) (entries : List DirEntry) :
    answers walk (entry :: entries) = (answer walk entry).toList ++ answers walk entries := by
  unfold answers answer
  rw [List.filter_cons]
  split_ifs <;> rfl

theorem answers_append (walk : DirWalk) (as bs : List DirEntry) :
    answers walk (as ++ bs) = answers walk as ++ answers walk bs := by
  unfold answers
  rw [List.filter_append, List.map_append]

/-- The entries a walk goes through. -/
def visited (walk : DirWalk) (path : CString) (tree : DirTree) : List DirEntry :=
  if walk.recursive then tree.preorder path else tree.top path

theorem emits_cons {entry : DirEntry} {s t u : DirWalk} {os : List DirWalkRead}
    (hround : iterRound dirOpen s = (answer walk entry, t))
    (hrest : Emits (iterRound dirOpen) t os u) :
    Emits (iterRound dirOpen) s ((answer walk entry).toList ++ os) u := by
  have hstep := @Emits.step _ _ (iterRound dirOpen) s u os (by rw [hround]; exact hrest)
  rwa [hround] at hstep

theorem emits_rest : ∀ (tree : DirTree) {path : CString} {k : ℕ} {indexList : List UInt32}
    {entries : List (FileInfo × CString)}, tree.Named → tree.Below dirOpen path →
    DirTree.Listed dirOpen path entries → k + tree.entries.length = entries.length →
    entries.drop k = tree.entries →
    Emits (iterRound dirOpen) (place walk path k tree.entries indexList)
      (answers walk (visited walk path tree)) (place walk path entries.length [] indexList)
  | .nil, path, k, indexList, entries, _, _, _, hk, _ => by
    have hvisited : visited walk path .nil = [] := by
      unfold visited
      split_ifs <;> rfl
    rw [hvisited, ← hk]
    exact .refl _
  | .file name size next, path, k, indexList, entries, ⟨⟨hlength, _⟩, hnext⟩, hbelow, hlisted, hk,
      hdrop => by
    have hvisited : visited walk path (.file name size next) =
        ⟨path, name, ⟨false, size⟩⟩ :: visited walk path next := by
      unfold visited
      split_ifs <;> rfl
    have hdrop' : entries.drop (k + 1) = next.entries := by
      rw [← List.drop_drop, hdrop]
      rfl
    rw [hvisited, answers_cons]
    exact emits_cons (round_stay hlength rfl)
      (emits_rest next hnext hbelow hlisted (by rw [← hk, DirTree.entries, List.length_cons]; omega)
        hdrop')
  | .dir name size below next, path, k, indexList, entries, ⟨⟨hlength, hslash⟩, hbelow, hnext⟩,
      ⟨⟨hlisted', hbelow'⟩, hafter⟩, hlisted, hk, hdrop => by
    have hdrop' : entries.drop (k + 1) = next.entries := by
      rw [← List.drop_drop, hdrop]
      rfl
    have hk' : k + 1 + next.entries.length = entries.length := by
      rw [← hk, DirTree.entries, List.length_cons]
      omega
    have hrest := @emits_rest next path (k + 1) indexList entries hnext hafter hlisted hk' hdrop'
    by_cases hrecursive : walk.recursive = true
    · have hvisited : visited walk path (.dir name size below next) = ⟨path, name, ⟨true, size⟩⟩ ::
          (visited walk (joinPath path name) below ++ visited walk path next) := by
        simp only [visited, hrecursive, if_true]
        rfl
      rw [hvisited, answers_cons, answers_append]
      refine emits_cons (round_into hlength (by simpa using hrecursive) hlisted'.1) ?_
      have hinside := @emits_rest below (joinPath path name) 0 (UInt32.ofNat (k + 1) :: indexList)
        below.entries hbelow hbelow' hlisted' (Nat.zero_add _) rfl
      refine hinside.trans (.silent ?_ ?_)
      · rw [round_out hslash hlisted.1 hlisted.lt (by omega)]
      · rw [round_out hslash hlisted.1 hlisted.lt (by omega), hdrop']
        exact hrest
    · have hvisited : visited walk path (.dir name size below next) =
          ⟨path, name, ⟨true, size⟩⟩ :: visited walk path next := by
        simp only [visited, hrecursive]
        rfl
      rw [hvisited, answers_cons]
      exact emits_cons (round_stay hlength (by simpa using hrecursive)) hrest

/-! ## Calls -/

theorem readAll_emits : ∀ (items : List DirWalkItem) {result : DirWalkRead} {s t : DirWalk},
    result.1 ≠ .ok →
    Emits (iterRound dirOpen) s (items.map (fun item => (.ok, some item)) ++ [result]) t →
    ∃ enough walk', ∀ rounds ≥ enough, ∀ calls > items.length, readAll dirOpen rounds calls s =
      some (items.map (fun item => (.ok, some item)) ++ [result], walk')
  | [], result, s, t, hresult, hemits => by
    obtain ⟨enough, u, hfirst, -⟩ := hemits.uncons
    refine ⟨enough, u, fun rounds hrounds calls hcalls => ?_⟩
    obtain ⟨calls, rfl⟩ := Nat.exists_eq_succ_of_ne_zero (Nat.ne_of_gt hcalls)
    have hread : s.dirWalkRead dirOpen rounds = some (result, u) := firstOutput_mono hrounds hfirst
    rw [readAll, hread, Option.bind_some, if_neg hresult]
    rfl
  | item :: items, result, s, t, hresult, hemits => by
    obtain ⟨first, u, hfirst, hrest⟩ := hemits.uncons
    obtain ⟨enough, walk', hall⟩ := readAll_emits items hresult hrest
    refine ⟨max first enough, walk', fun rounds hrounds calls hcalls => ?_⟩
    obtain ⟨calls, rfl⟩ := Nat.exists_eq_succ_of_ne_zero (Nat.ne_of_gt (Nat.zero_lt_of_lt hcalls))
    have hread : s.dirWalkRead dirOpen rounds = some ((.ok, some item), u) :=
      firstOutput_mono ((le_max_left _ _).trans hrounds) hfirst
    rw [readAll, hread, Option.bind_some, if_pos rfl,
      hall rounds ((le_max_right _ _).trans hrounds) calls (Nat.lt_of_succ_lt_succ hcalls)]
    rfl

/-- A walk lists what its filter accepts and ends. -/
theorem dirWalk_enumerates (walk : DirWalk) (tree : DirTree) (hidle : walk.indexList = [])
    (hnamed : tree.Named) (hstored : tree.Stored dirOpen path) :
    (walk.dirWalkOpen dirOpen path).1 = true ∧
      ∃ enough walk', ∀ rounds ≥ enough,
        ∀ calls > (tree.listing walk.recursive walk.dirWalkFilter path).length,
          readAll dirOpen rounds calls (walk.dirWalkOpen dirOpen path).2 =
            some ((tree.listing walk.recursive walk.dirWalkFilter path).map
              (fun item => (.ok, some item)) ++ [(.last, none)], walk') := by
  have hopen : walk.dirWalkOpen dirOpen path = (true, place walk path 0 tree.entries []) := by
    simp only [dirWalkOpen, storageDirOpen, hstored.1.1, place, hidle]
    rfl
  have hemits := @emits_rest dirOpen walk tree path 0 [] tree.entries hnamed hstored.2 hstored.1
    (Nat.zero_add _) rfl
  have hanswers : answers walk (visited walk path tree) =
      (tree.listing walk.recursive walk.dirWalkFilter path).map
        fun item => ((.ok : DirWalkResult), some item) := by
    simp only [answers, visited, DirTree.listing, List.map_map]
    rfl
  rw [hanswers] at hemits
  rw [hopen]
  exact ⟨rfl, readAll_emits _ (by simp) (hemits.trans (.emit rfl (.refl _)))⟩

/-- A storage with a file and, in a directory, another one. -/
def sampleOpen : DirOpen := fun path =>
  if path = ['/', 'e'] then .ok [(⟨true, 0⟩, ['d']), (⟨false, 3⟩, ['f'])]
  else if path = ['/', 'e', '/', 'd'] then .ok [(⟨false, 5⟩, ['g'])]
  else .error .notExist

theorem dirWalk_enumerates_sample :
    (alloc.dirWalkOpen sampleOpen ['/', 'e']).1 = true ∧
      ∃ enough walk', ∀ rounds ≥ enough, ∀ calls > 3,
        readAll sampleOpen rounds calls (alloc.dirWalkOpen sampleOpen ['/', 'e']).2 =
          some ([(.ok, some (['/', 'e', '/', 'd'], ⟨true, 0⟩)),
            (.ok, some (['/', 'e', '/', 'd', '/', 'g'], ⟨false, 5⟩)),
            (.ok, some (['/', 'e', '/', 'f'], ⟨false, 3⟩)), (.last, none)], walk') :=
  dirWalk_enumerates alloc
    (.dir ['d'] 0 (.file ['g'] 5 .nil) (.file ['f'] 3 .nil)) rfl
    (by simp [DirTree.Named, SLASH])
    (by simp [DirTree.Stored, DirTree.Listed, DirTree.Below, DirTree.entries, sampleOpen, joinPath,
      SLASH, MAX_DIR_ENTRIES])

end DirWalk

end KiisuFirmware
