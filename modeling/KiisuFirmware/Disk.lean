import Mathlib.Tactic

/-!
# Directory trees

A tree of files and directories, as the list of all there is: what is in a directory has that
directory in the list too, unless it is at the top. The order of the list is that in which a
directory is read (`children`). What has nothing in it can be taken away (`erase`), and all that is
not at a path or below it stays as it is when that is what is taken away (`outside_erase`).
-/

namespace KiisuFirmware

structure DiskEntry (α : Type) where
  dir : List α
  name : α
  isDir : Bool
  size : UInt64

def DiskEntry.path {α : Type} (e : DiskEntry α) : List α := e.dir ++ [e.name]

/-- All names are such as the storage has. -/
structure Disk (α : Type) (Name : α → Prop) where
  entries : List (DiskEntry α)
  named : ∀ e ∈ entries, Name e.name
  nodup : (entries.map DiskEntry.path).Nodup
  inDir : ∀ e ∈ entries, e.dir ≠ [] → ∃ d ∈ entries, d.path = e.dir ∧ d.isDir = true

namespace Disk

variable {α : Type} {Name : α → Prop} (disk : Disk α Name)

theorem eq_of_path {disk : Disk α Name} {e e' : DiskEntry α} (h : e ∈ disk.entries)
    (h' : e' ∈ disk.entries) (hpath : e.path = e'.path) : e = e' :=
  List.inj_on_of_nodup_map disk.nodup h h' hpath

variable [DecidableEq α]

def find (path : List α) : Option (DiskEntry α) := disk.entries.find? (·.path = path)

/-- What is in a directory. -/
def children (dir : List α) : List (DiskEntry α) := disk.entries.filter (·.dir = dir)

/-- All that is neither at the path nor below it. -/
def outside (path : List α) : List (DiskEntry α) := disk.entries.filter (¬path <+: ·.path)

/-- How much there is at the path and below it. -/
def below (path : List α) : ℕ := disk.entries.countP (path <+: ·.path)

section Entries

variable {disk}

theorem find_of_mem {e : DiskEntry α} (h : e ∈ disk.entries) : disk.find e.path = some e := by
  have hsome : (disk.find e.path).isSome := by
    rw [find, List.find?_isSome]
    exact ⟨e, h, decide_eq_true rfl⟩
  obtain ⟨e', he'⟩ := Option.isSome_iff_exists.1 hsome
  have hpath : e'.path = e.path := by simpa using List.find?_some he'
  rw [he', eq_of_path (List.mem_of_find?_eq_some he') h hpath]

theorem mem_of_find {path : List α} {e : DiskEntry α} (h : disk.find path = some e) :
    e ∈ disk.entries ∧ e.path = path :=
  ⟨List.mem_of_find?_eq_some h, by simpa using List.find?_some h⟩

theorem mem_children {dir : List α} {e : DiskEntry α} :
    e ∈ disk.children dir ↔ e ∈ disk.entries ∧ e.dir = dir := by
  simp [children]

theorem path_of_mem_children {dir : List α} {e : DiskEntry α} (h : e ∈ disk.children dir) :
    e.path = dir ++ [e.name] := by
  rw [DiskEntry.path, (mem_children.1 h).2]

theorem children_of_file {e : DiskEntry α} (h : e ∈ disk.entries) (hfile : e.isDir = false) :
    disk.children e.path = [] := by
  refine List.eq_nil_iff_forall_not_mem.2 fun child hchild => ?_
  obtain ⟨hmem, hdir⟩ := mem_children.1 hchild
  obtain ⟨d, hd, hpath, hisDir⟩ := disk.inDir child hmem (by rw [hdir]; simp [DiskEntry.path])
  rw [eq_of_path hd h (hpath.trans hdir), hfile] at hisDir
  exact Bool.false_ne_true hisDir

/-- Where there is something below, there is something in the directory itself. -/
theorem exists_child {dir : List α} : ∀ (length : ℕ) {e : DiskEntry α}, e.dir.length = length →
    e ∈ disk.entries → dir <+: e.dir → dir ≠ [] → ∃ child, child ∈ disk.children dir
  | 0, e, hlength, h, hprefix, hne => by
    rw [List.length_eq_zero_iff.1 hlength, List.prefix_nil] at hprefix
    exact absurd hprefix hne
  | length + 1, e, hlength, h, hprefix, hne => by
    by_cases heq : e.dir = dir
    · exact ⟨e, mem_children.2 ⟨h, heq⟩⟩
    · have hdir : e.dir ≠ [] := by
        rintro hnil
        rw [hnil] at hlength
        cases hlength
      obtain ⟨d, hd, hpath, -⟩ := disk.inDir e h hdir
      have hlt : d.dir.length = length := by
        rw [← hpath, DiskEntry.path, List.length_append, List.length_singleton] at hlength
        omega
      have hprefix' : dir <+: d.dir := by
        rw [← hpath, DiskEntry.path, List.prefix_concat_iff] at hprefix
        rcases hprefix with hall | hprefix
        · exact absurd (hpath.symm.trans hall.symm) heq
        · exact hprefix
      exact exists_child length hlt hd hprefix' hne

theorem outside_of_empty {path : List α} (hempty : disk.children path = []) (hne : path ≠ [])
    {e : DiskEntry α} (h : e ∈ disk.entries) (hbelow : path <+: e.path) : e.path = path := by
  rw [DiskEntry.path, List.prefix_concat_iff] at hbelow
  rcases hbelow with heq | hprefix
  · exact heq.symm
  · obtain ⟨child, hchild⟩ := exists_child _ rfl h hprefix hne
    rw [hempty] at hchild
    cases hchild

end Entries

/-! ## Taking away -/

section Erase

variable {disk} {path : List α} (hempty : disk.children path = [])

/-- The tree without what is at a path, where nothing is below that. -/
def erase (disk : Disk α Name) (path : List α) (hempty : disk.children path = []) :
    Disk α Name where
  entries := disk.entries.filter (·.path ≠ path)
  named e he := disk.named e (List.mem_of_mem_filter he)
  nodup := disk.nodup.sublist (List.filter_sublist.map _)
  inDir e he hdir := by
    have hmem := List.mem_of_mem_filter he
    obtain ⟨d, hd, hpath, hisDir⟩ := disk.inDir e hmem hdir
    refine ⟨d, List.mem_filter.2 ⟨hd, decide_eq_true fun heq => ?_⟩, hpath, hisDir⟩
    have hchild : e ∈ disk.children path := mem_children.2 ⟨hmem, hpath.symm.trans heq⟩
    rw [hempty] at hchild
    cases hchild

theorem mem_erase {e : DiskEntry α} :
    e ∈ (disk.erase path hempty).entries ↔ e ∈ disk.entries ∧ e.path ≠ path := by
  simp [erase]

theorem outside_erase {above : List α} (habove : above <+: path) :
    (disk.erase path hempty).outside above = disk.outside above := by
  rw [outside, erase, outside, List.filter_filter]
  refine List.filter_congr fun e _ => ?_
  by_cases h : above <+: e.path
  · simp [h]
  · have hne : e.path ≠ path := by
      rintro heq
      exact h (heq ▸ habove)
    simp [h, hne]

theorem entries_erase (hne : path ≠ []) :
    (disk.erase path hempty).entries = disk.outside path := by
  rw [outside, erase]
  refine List.filter_congr fun e he => ?_
  by_cases h : path <+: e.path
  · simp [outside_of_empty hempty hne he h]
  · have hne' : e.path ≠ path := by
      rintro heq
      exact h (heq ▸ List.prefix_refl path)
    simp [h, hne']

theorem children_erase {dir : List α} {e : DiskEntry α} {rest : List (DiskEntry α)}
    (hchildren : disk.children dir = e :: rest) (hempty : disk.children e.path = []) :
    (disk.erase e.path hempty).children dir = rest := by
  have hfilter : (disk.erase e.path hempty).children dir =
      (disk.children dir).filter (·.path ≠ e.path) := by
    rw [children, erase, children, List.filter_filter, List.filter_filter]
    exact List.filter_congr fun _ _ => Bool.and_comm ..
  have hnodup : ((e :: rest).map DiskEntry.path).Nodup := by
    rw [← hchildren]
    exact disk.nodup.sublist (List.filter_sublist.map _)
  rw [hfilter, hchildren, List.filter_cons_of_neg (by simp), List.filter_eq_self]
  intro other hother
  rw [List.map_cons, List.nodup_cons] at hnodup
  refine decide_eq_true fun heq => hnodup.1 ?_
  rw [← heq]
  exact List.mem_map_of_mem hother

theorem outside_congr {disk' : Disk α Name} {above : List α} (habove : above <+: path)
    (h : disk'.outside path = disk.outside path) : disk'.outside above = disk.outside above := by
  have hfilter : ∀ d : Disk α Name, (d.outside path).filter (¬above <+: ·.path) =
      d.outside above := fun d => by
    rw [outside, outside, List.filter_filter]
    refine List.filter_congr fun e _ => ?_
    by_cases hbelow : path <+: e.path
    · simp [habove.trans hbelow]
    · simp [hbelow]
  rw [← hfilter, ← hfilter, h]

theorem outside_outside {disk' : Disk α Name} (h : disk'.entries = disk.outside path) :
    disk'.outside path = disk.outside path := by
  rw [outside, h, outside, List.filter_filter]
  exact List.filter_congr fun _ _ => Bool.and_self _

end Erase

/-! ## How much is left -/

section Below

theorem countP_lt {β : Type} {p q : β → Bool} {l : List β} (h : ∀ x ∈ l, p x → q x) {x : β}
    (hx : x ∈ l) (hq : q x = true) (hp : p x = false) : l.countP p < l.countP q := by
  obtain ⟨s, t, rfl⟩ := List.append_of_mem hx
  have hs : s.countP p ≤ s.countP q :=
    List.countP_mono_left fun y hy => h y (List.mem_append_left _ hy)
  have ht : t.countP p ≤ t.countP q :=
    List.countP_mono_left fun y hy => h y (List.mem_append_right _ (List.mem_cons_of_mem _ hy))
  rw [List.countP_append, List.countP_append, List.countP_cons_of_pos hq,
    List.countP_cons_of_neg (by simp [hp])]
  omega

variable {disk}

theorem below_child_lt {d child : DiskEntry α} (hd : d ∈ disk.entries)
    (hchild : child ∈ disk.children d.path) : disk.below child.path < disk.below d.path := by
  have hpath := path_of_mem_children hchild
  refine countP_lt (fun e _ he => ?_) hd (by simp) ?_
  · have hprefix : child.path <+: e.path := by simpa using he
    rw [hpath] at hprefix
    exact decide_eq_true ((List.prefix_append ..).trans hprefix)
  · refine decide_eq_false fun hprefix => ?_
    have hlength := hprefix.length_le
    rw [hpath, List.length_append, List.length_singleton] at hlength
    omega

theorem below_lt {disk' : Disk α Name} {dir : List α} {child : DiskEntry α}
    (hchild : child ∈ disk.children dir) (h : disk'.entries = disk.outside child.path) :
    disk'.below dir < disk.below dir := by
  have hpath := path_of_mem_children hchild
  rw [below, h, outside, List.countP_filter, below]
  refine countP_lt (fun e _ he => (Bool.and_eq_true_iff.1 he).1) (mem_children.1 hchild).1 ?_ ?_
  · exact decide_eq_true (hpath ▸ List.prefix_append ..)
  · simp

theorem below_le {disk' : Disk α Name} (h : disk'.entries.Sublist disk.entries) (dir : List α) :
    disk'.below dir ≤ disk.below dir :=
  h.countP_le

end Below

end Disk

end KiisuFirmware
