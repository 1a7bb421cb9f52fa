import KiisuFirmware.Proofs.DirWalk
import KiisuFirmware.DirWalk

/-!
# What is removed

A directory that has directories in it is left for the first of them, and is come back to when that
is gone (`round_deeper`, `clears`); one that has only files in it is removed with them in one round
(`round_files`). What is outside of the directory is as it was all along, and less is left below it
each time it is come back to.
-/

namespace KiisuFirmware

open DirWalk (joinPath dropLast dropLast_joinPath)

variable {disk : StorageTree} {curDir path : CString}

/-! ## Paths -/

theorem pathNames_joinPath {name : CString} (h : StorageName name) :
    pathNames (joinPath curDir name) = pathNames curDir ++ [name] := by
  have hname : name.splitOn '/' = [name] :=
    List.splitOnP_eq_singleton fun c hc => by
      rw [beq_eq_false_iff_ne]
      rintro rfl
      exact h.2.1 hc
  have hsplit : (joinPath curDir name).splitOn '/' = curDir.splitOn '/' ++ name.splitOn '/' :=
    List.splitOnP_append_cons _ _ (beq_self_eq_true _)
  rw [pathNames, hsplit, hname, List.filter_append, pathNames]
  simp [h.1]

theorem take_name {name : CString} (h : StorageName name) :
    name.take (MAX_NAME_LENGTH - 1) = name :=
  List.take_of_length_le h.2.2

theorem joinPath_ne {name : CString} (h : path <+: curDir) : joinPath curDir name ≠ path := by
  rintro heq
  have hle := h.length_le
  rw [← heq, joinPath, List.length_append, List.length_cons] at hle
  omega

/-! ## Entries -/

/-- What a read gives of an entry. -/
def entryInfo (child : DiskEntry CString) : FileInfo × CString :=
  (⟨child.isDir, child.size⟩, child.name)

theorem remove_of_empty {e : DiskEntry CString} (h : e ∈ disk.entries)
    (hpath : pathNames curDir = e.path) (hempty : disk.children e.path = []) :
    disk.remove curDir = (.ok, disk.erase e.path hempty) := by
  rw [StorageTree.remove, hpath, Disk.find_of_mem h]
  exact dif_pos hempty

/-- The files before the first directory are gone after the loop, or all of them. -/
theorem removeEntries_eq {e : DiskEntry CString} (hpath : pathNames curDir = e.path) :
    ∀ (children : List (DiskEntry CString)) {disk : StorageTree}, e ∈ disk.entries →
      disk.children e.path = children → ∃ disk' : StorageTree,
        e ∈ disk'.entries ∧ disk'.outside e.path = disk.outside e.path ∧
        disk'.entries.Sublist disk.entries ∧
        ((removeEntries curDir (children.map entryInfo) disk = some (false, curDir, disk') ∧
            disk'.children e.path = []) ∨
          ∃ child ∈ disk'.children e.path, child.isDir = true ∧
            removeEntries curDir (children.map entryInfo) disk =
              some (true, joinPath curDir child.name, disk'))
  | [], disk, he, hchildren =>
    ⟨disk, he, rfl, List.Sublist.refl _, .inl ⟨rfl, hchildren⟩⟩
  | child :: children, disk, he, hchildren => by
    have hmem : child ∈ disk.children e.path := by
      rw [hchildren]
      exact List.mem_cons_self
    have hentry := (Disk.mem_children.1 hmem).1
    have hname := disk.named child hentry
    have hchild : pathNames (joinPath curDir child.name) = child.path := by
      rw [pathNames_joinPath hname, hpath, Disk.path_of_mem_children hmem]
    rw [List.map_cons, entryInfo, removeEntries, take_name hname]
    dsimp only
    rcases hdir : child.isDir with _ | _
    · have hempty := Disk.children_of_file hentry hdir
      have hne : e.path ≠ child.path := by
        rw [Disk.path_of_mem_children hmem]
        simp
      obtain ⟨disk', he', houtside, hsub, hloop⟩ := removeEntries_eq hpath children
        ((Disk.mem_erase hempty).2 ⟨he, hne⟩) (Disk.children_erase hchildren hempty)
      refine ⟨disk', he', houtside.trans (Disk.outside_erase hempty ?_),
        hsub.trans List.filter_sublist, ?_⟩
      · rw [Disk.path_of_mem_children hmem]
        exact List.prefix_append ..
      · rw [remove_of_empty hentry hchild hempty]
        exact hloop
    · exact ⟨disk, he, rfl, List.Sublist.refl _, .inr ⟨child, hmem, hdir, rfl⟩⟩

/-! ## Rounds -/

theorem storageDirOpen_eq {e : DiskEntry CString} (h : e ∈ disk.entries) (hdir : e.isDir = true)
    (hpath : pathNames curDir = e.path) : storageDirOpen disk.dirOpen curDir =
      (true, ⟨some ((disk.children e.path).map entryInfo), .ok⟩) := by
  have hopen : disk.dirOpen curDir = .ok ((disk.children e.path).map entryInfo) := by
    rw [StorageTree.dirOpen, hpath, Disk.find_of_mem h]
    exact if_pos hdir
  rw [storageDirOpen, hopen]

theorem round_deeper {e : DiskEntry CString} {name : CString} {disk' : StorageTree}
    (h : e ∈ disk.entries) (hdir : e.isDir = true) (hpath : pathNames curDir = e.path)
    (hloop : removeEntries curDir ((disk.children e.path).map entryInfo) disk =
      some (true, joinPath curDir name, disk')) :
    removeRound path (curDir, disk) = (none, joinPath curDir name, disk') := by
  simp [removeRound, storageDirOpen_eq h hdir hpath, hloop]

theorem round_files {e : DiskEntry CString} {disk' : StorageTree} (h : e ∈ disk.entries)
    (hdir : e.isDir = true) (hpath : pathNames curDir = e.path) (h' : e ∈ disk'.entries)
    (hempty : disk'.children e.path = [])
    (hloop : removeEntries curDir ((disk.children e.path).map entryInfo) disk =
      some (false, curDir, disk')) :
    removeRound path (curDir, disk) =
      if curDir = path then (some (some true), curDir, disk'.erase e.path hempty)
      else (none, dropLast curDir, disk'.erase e.path hempty) := by
  rcases eq_or_ne curDir path with rfl | hcur
  · simp [removeRound, storageDirOpen_eq h hdir hpath, hloop, remove_of_empty h' hpath hempty]
  · simp [removeRound, storageDirOpen_eq h hdir hpath, hloop, remove_of_empty h' hpath hempty, hcur]

theorem path_ne_nil (e : DiskEntry CString) : e.path ≠ [] := by
  simp [DiskEntry.path]

theorem clears : ∀ (n : ℕ) {disk : StorageTree} {curDir : CString} {e : DiskEntry CString},
    disk.below e.path < n → e ∈ disk.entries → e.isDir = true → pathNames curDir = e.path →
    path <+: curDir → ∃ disk₁ disk₂ : StorageTree,
      Emits (removeRound path) (curDir, disk) [] (curDir, disk₁) ∧
      disk₂.entries = disk.outside e.path ∧
      removeRound path (curDir, disk₁) =
        if curDir = path then (some (some true), curDir, disk₂)
        else (none, dropLast curDir, disk₂)
  | 0, _, _, _, hn, _, _, _, _ => absurd hn (Nat.not_lt_zero _)
  | n + 1, disk, curDir, e, hn, he, hdir, hpath, hbefore => by
    obtain ⟨disk', he', houtside, hsub, ⟨hloop, hempty⟩ | ⟨child, hchild, hisDir, hloop⟩⟩ :=
      removeEntries_eq hpath _ he rfl
    · refine ⟨disk, disk'.erase e.path hempty, .refl _, ?_,
        round_files he hdir hpath he' hempty hloop⟩
      rw [Disk.entries_erase hempty (path_ne_nil e), houtside]
    · have hentry := (Disk.mem_children.1 hchild).1
      have hname := disk'.named child hentry
      have hchildPath : pathNames (joinPath curDir child.name) = child.path := by
        rw [pathNames_joinPath hname, hpath, Disk.path_of_mem_children hchild]
      have habove : e.path <+: child.path := by
        rw [Disk.path_of_mem_children hchild]
        exact List.prefix_append ..
      have hle := Disk.below_le hsub e.path
      have hlt := Disk.below_child_lt he' hchild
      -- the child goes first
      obtain ⟨disk₁, disk₂, hemits, hentries, hround⟩ := clears n (by omega) hentry hisDir
        hchildPath (hbefore.trans (List.prefix_append ..))
      rw [if_neg (joinPath_ne hbefore), dropLast_joinPath hname.2.1] at hround
      -- and the rest of the directory after it
      have hne : ¬child.path <+: e.path := fun hbelow => by
        have hlength := hbelow.length_le
        rw [Disk.path_of_mem_children hchild, List.length_append, List.length_singleton] at hlength
        omega
      have he₂ : e ∈ disk₂.entries := by
        rw [hentries, Disk.outside, List.mem_filter]
        exact ⟨he', decide_eq_true hne⟩
      have hless := Disk.below_lt hchild hentries
      obtain ⟨disk₃, disk₄, hemits', hentries', hround'⟩ := clears n (by omega) he₂ hdir hpath
        hbefore
      refine ⟨disk₃, disk₄, ?_, ?_, hround'⟩
      · refine .silent (by rw [round_deeper he hdir hpath hloop]) ?_
        rw [round_deeper he hdir hpath hloop]
        refine hemits.trans (.silent (by rw [hround]) ?_)
        rw [hround]
        exact hemits'
      · rw [hentries', Disk.outside_congr habove (Disk.outside_outside hentries), houtside]

theorem exists_of_prefix {names : List CString} (hne : names ≠ []) {e : DiskEntry CString}
    (he : e ∈ disk.entries) (hbefore : names <+: e.path) : ∃ d ∈ disk.entries, d.path = names := by
  rw [DiskEntry.path, List.prefix_concat_iff] at hbefore
  rcases hbefore with heq | hbelow
  · exact ⟨e, he, heq.symm⟩
  · obtain ⟨child, hchild⟩ := Disk.exists_child _ rfl he hbelow hne
    obtain ⟨hmem, hdir⟩ := Disk.mem_children.1 hchild
    obtain ⟨d, hd, hpath, -⟩ := disk.inDir child hmem (by rwa [hdir])
    exact ⟨d, hd, hpath.trans hdir⟩

/-- All that is at the path or below it is removed and nothing else, and no check fails. -/
theorem storageSimplyRemoveRecursive_eq (disk : StorageTree) (path : CString)
    (hpath : pathNames path ≠ []) : ∃ (rounds : ℕ) (disk' : StorageTree),
      storageSimplyRemoveRecursive rounds disk path = some (some true, disk') ∧
      disk'.entries = disk.entries.filter (¬pathNames path <+: ·.path) := by
  rcases hfind : disk.find (pathNames path) with _ | e
  · refine ⟨0, disk, ?_, ?_⟩
    · simp [storageSimplyRemoveRecursive, storageSimplyRemove, StorageTree.remove, hfind]
    · rw [eq_comm, List.filter_eq_self]
      refine fun e he => decide_eq_true fun hbefore => ?_
      obtain ⟨d, hd, hdpath⟩ := exists_of_prefix hpath he hbefore
      rw [← hdpath, Disk.find_of_mem hd] at hfind
      cases hfind
  · obtain ⟨he, hepath⟩ := Disk.mem_of_find hfind
    by_cases hempty : disk.children (pathNames path) = []
    · refine ⟨0, disk.erase (pathNames path) hempty, ?_, Disk.entries_erase hempty hpath⟩
      simp [storageSimplyRemoveRecursive, storageSimplyRemove, StorageTree.remove, hfind, hempty]
    · have hdir : e.isDir = true := by
        by_contra hfile
        exact hempty (hepath ▸ Disk.children_of_file he (Bool.eq_false_iff.2 hfile))
      obtain ⟨disk₁, disk₂, hemits, hentries, hround⟩ := clears (disk.below e.path + 1)
        (Nat.lt_succ_self _) he hdir hepath.symm (List.prefix_refl path)
      rw [if_pos rfl] at hround
      obtain ⟨rounds, hfirst⟩ := hemits.exists_firstOutput (congrArg Prod.fst hround)
      rw [hround] at hfirst
      refine ⟨rounds, disk₂, ?_, by rw [hentries, hepath, Disk.outside]⟩
      simp [storageSimplyRemoveRecursive, storageSimplyRemove, StorageTree.remove, hfind, hempty,
        hfirst]

/-- Two directories, one of which has a directory with a file in it. -/
def nestedTree : StorageTree where
  entries := [⟨[], ['a'], true, 0⟩, ⟨[], ['a', 'a'], true, 0⟩, ⟨[['a']], ['b'], true, 0⟩,
    ⟨[['a'], ['b']], ['a'], false, 7⟩]
  named := by simp [StorageName]
  nodup := by decide
  inDir := by simp [DiskEntry.path]

theorem storageSimplyRemoveRecursive_nested : ∃ (rounds : ℕ) (disk' : StorageTree),
    storageSimplyRemoveRecursive rounds nestedTree ['/', 'a'] = some (some true, disk') ∧
    disk'.entries = nestedTree.entries.filter (¬pathNames ['/', 'a'] <+: ·.path) :=
  storageSimplyRemoveRecursive_eq nestedTree ['/', 'a'] (by decide)

end KiisuFirmware
