import Mathlib.Data.List.Perm.Basic
import KiisuFirmware.CliShellLine

/-!
# What holds of the line editor

The slots that are in use point to the strings there are, each to its own. Those behind the line that
is edited hold the last commands, each once. The cursor stays in the line, and no string is read
outside, unless a blank line is entered with the cursor in it or a run of characters that is skipped
to the left begins where the line does.
-/

namespace KiisuFirmware

/-! ## What was done last -/

section Recent

variable {α : Type} [BEq α]

/-- Each of some things once, the last one first. -/
def recent : List α → List α := List.foldl (fun before a => a :: before.erase a) []

theorem recent_concat (as : List α) (a : α) : recent (as ++ [a]) = a :: (recent as).erase a := by
  simp [recent]

variable [LawfulBEq α]

theorem nodup_recent (as : List α) : (recent as).Nodup := by
  induction as using List.reverseRecOn with
  | nil => exact List.nodup_nil
  | append_singleton as a ih =>
    rw [recent_concat]
    exact List.nodup_cons.2 ⟨ih.not_mem_erase, ih.erase a⟩

theorem mem_recent {as : List α} {a : α} : a ∈ recent as ↔ a ∈ as := by
  induction as using List.reverseRecOn with
  | nil => exact Iff.rfl
  | append_singleton as b ih =>
    rw [recent_concat, List.mem_cons, List.mem_append, List.mem_singleton]
    by_cases h : a = b
    · simp [h]
    · simp [h, List.mem_erase_of_ne, ih]

theorem take_cons_erase (a : α) : ∀ (n : ℕ) (as : List α),
    (a :: as.erase a).take n = (a :: (as.take n).erase a).take n
  | 0, _ => rfl
  | n + 1, as => by
    rw [List.take_succ_cons, List.take_succ_cons]
    refine congrArg (a :: ·) ?_
    induction as generalizing n with
    | nil => simp
    | cons b as ih =>
      by_cases h : b = a
      · simp [h]
      · rw [List.take_succ_cons, List.erase_cons_tail (by simpa using h),
          List.erase_cons_tail (by simpa using h)]
        rcases n with _ | n
        · rfl
        · rw [List.take_succ_cons, List.take_succ_cons, ih]

end Recent

/-! ## Who owns what -/

section OwnsCells

variable {β : Type} {get : ℕ → Option β} {next p : ℕ} {b b' : β} {cells cells' : List (ℕ × β)}

/-- These are the objects there are, each one at an address of its own. -/
structure OwnsCells (get : ℕ → Option β) (next : ℕ) (cells : List (ℕ × β)) : Prop where
  nodup : (cells.map Prod.fst).Nodup
  mem : ∀ {p b}, get p = some b ↔ (p, b) ∈ cells
  fresh : ∀ {cell}, cell ∈ cells → cell.1 < next

namespace OwnsCells

theorem perm (h : OwnsCells get next cells) (hperm : cells.Perm cells') :
    OwnsCells get next cells' where
  nodup := (hperm.map Prod.fst).nodup_iff.1 h.nodup
  mem := h.mem.trans hperm.mem_iff
  fresh hcell := h.fresh (hperm.mem_iff.2 hcell)

theorem get_eq (h : OwnsCells get next cells) {cell : ℕ × β} (hcell : cell ∈ cells) :
    get cell.1 = some cell.2 := h.mem.2 hcell

theorem ne_of_mem (h : OwnsCells get next ((p, b) :: cells)) {cell : ℕ × β} (hcell : cell ∈ cells) :
    cell.1 ≠ p := by
  intro hp
  have hmem : cell.1 ∈ cells.map Prod.fst := List.mem_map_of_mem hcell
  exact (List.nodup_cons.1 h.nodup).1 (hp ▸ hmem)

theorem alloc (h : OwnsCells get next cells) (b : β) :
    OwnsCells (Function.update get next (some b)) (next + 1) ((next, b) :: cells) where
  nodup := by
    refine List.nodup_cons.2 ⟨fun hmem => ?_, h.nodup⟩
    obtain ⟨cell, hcell, hnext⟩ := List.mem_map.1 hmem
    exact absurd (h.fresh hcell) (by simp [hnext])
  mem {p c} := by
    by_cases hp : p = next
    · have hnone : (next, c) ∉ cells := fun hmem => lt_irrefl _ (h.fresh hmem)
      simp [hp, hnone, eq_comm]
    · simp [hp, h.mem]
  fresh {cell} hcell := by
    rcases List.mem_cons.1 hcell with rfl | hcell
    · exact Nat.lt_succ_self _
    · exact Nat.lt_succ_of_lt (h.fresh hcell)

theorem free (h : OwnsCells get next ((p, b) :: cells)) :
    OwnsCells (Function.update get p none) next cells where
  nodup := (List.nodup_cons.1 h.nodup).2
  mem {q c} := by
    by_cases hq : q = p
    · have hnone : (p, c) ∉ cells := fun hmem => h.ne_of_mem hmem rfl
      simp [hq, hnone]
    · simp [hq, h.mem]
  fresh hcell := h.fresh (List.mem_cons_of_mem _ hcell)

theorem set (h : OwnsCells get next ((p, b) :: cells)) (b' : β) :
    OwnsCells (Function.update get p (some b')) next ((p, b') :: cells) where
  nodup := h.nodup
  mem {q c} := by
    by_cases hq : q = p
    · have hnone : (p, c) ∉ cells := fun hmem => h.ne_of_mem hmem rfl
      simp [hq, hnone, eq_comm]
    · simp [hq, h.mem]
  fresh {cell} hcell := by
    rcases List.mem_cons.1 hcell with rfl | hcell
    · exact @fresh _ _ _ _ h (p, b) List.mem_cons_self
    · exact h.fresh (List.mem_cons_of_mem _ hcell)

end OwnsCells

end OwnsCells

/-! ## Runs of characters -/

namespace CliText

variable {text : CliText}

/-- Not all characters before a place are of one class. -/
def Mixed (text : CliText) (pos : ℕ) : Prop :=
  ∃ c ∈ text.take pos, ∃ d ∈ text.take pos, cliShellLineCharClass c ≠ cliShellLineCharClass d

instance (text : CliText) (pos : ℕ) : Decidable (Mixed text pos) := by
  unfold Mixed
  infer_instance

theorem getChar_of_lt {index : ℤ} {n : ℕ} (hindex : index = n) (h : n < text.length) :
    text.getChar index = .ok text[n] := by
  subst hindex
  have hin : 0 ≤ (n : ℤ) ∧ (n : ℤ).toNat < text.length := ⟨by omega, by omega⟩
  rw [getChar, dif_pos hin]
  rfl

theorem getChar_of_neg {index : ℤ} (h : index < 0) : text.getChar index = .error .outOfRange :=
  dif_neg fun hin => by omega

theorem skipRunLoop_right (startClass : CliCharClass) : ∀ (turns n : ℕ), n < text.length →
    text.length < n + turns → ∃ r : ℕ, r ≤ text.length ∧
      cliShellLineSkipRunLoop text 0 1 startClass turns n = .ok r
  | 0, n, hn, hturns => absurd hturns (by omega)
  | turns + 1, n, hn, hturns => by
    have hsucc : (n : ℤ) + 1 = (n + 1 : ℕ) := rfl
    rw [cliShellLineSkipRunLoop]
    rw [hsucc, if_neg (by omega)]
    by_cases hend : text.length ≤ n + 1
    · rw [if_pos (by omega)]
      exact ⟨n + 1, hn, rfl⟩
    · rw [if_neg (by omega), Int.add_zero, getChar_of_lt rfl (by omega)]
      dsimp only [bind, Except.bind, pure, Except.pure]
      split_ifs
      · exact ⟨n + 1, hn, rfl⟩
      · exact skipRunLoop_right startClass turns (n + 1) (by omega) (by omega)

/-- The loop to the left ends where the class changes, and reads outside if it does not. -/
theorem skipRunLoop_left {startClass : CliCharClass} : ∀ (n turns : ℕ) (hn : n < text.length),
    n + 1 < turns → cliShellLineCharClass text[n] = startClass →
    (text.Mixed (n + 1) → ∃ r : ℕ, r ≤ n ∧
      cliShellLineSkipRunLoop text (-1) (-1) startClass turns (n + 1 : ℕ) = .ok r) ∧
    (¬text.Mixed (n + 1) →
      cliShellLineSkipRunLoop text (-1) (-1) startClass turns (n + 1 : ℕ) = .error .outOfRange)
  | _, 0, _, hturns, _ => absurd hturns (by omega)
  | 0, turns + 1, hn, hturns, hclass => by
    have hpos : ((0 + 1 : ℕ) : ℤ) + -1 = 0 := rfl
    rw [cliShellLineSkipRunLoop]
    rw [hpos, if_neg (by omega), if_neg (by omega), getChar_of_neg (by omega)]
    refine ⟨fun hmixed => ?_, fun _ => rfl⟩
    obtain ⟨c, hc, d, hd, hne⟩ := hmixed
    have htake : text.take (0 + 1) = [text[0]] := by
      rw [← List.take_concat_get' text 0 hn]
      rfl
    rw [htake, List.mem_singleton] at hc hd
    exact absurd (by rw [hc, hd]) hne
  | n + 1, turns + 1, hn, hturns, hclass => by
    have hpos : ((n + 1 + 1 : ℕ) : ℤ) + -1 = (n + 1 : ℕ) := by omega
    rw [cliShellLineSkipRunLoop]
    have hlt : n < text.length := by omega
    rw [hpos, if_neg (by omega), if_neg (by omega), getChar_of_lt (by omega) hlt]
    dsimp only [bind, Except.bind, pure, Except.pure]
    have htake : text.take (n + 1 + 1) = text.take (n + 1) ++ [text[n + 1]] :=
      (List.take_concat_get' text (n + 1) hn).symm
    have hmem : text[n] ∈ text.take (n + 1) := by
      rw [← List.take_concat_get' text n (by omega)]
      exact List.mem_append_right _ (List.mem_singleton_self _)
    by_cases hsame : cliShellLineCharClass text[n] = startClass
    · rw [if_neg (not_not.2 hsame)]
      have hmixed : text.Mixed (n + 1 + 1) ↔ text.Mixed (n + 1) := by
        unfold Mixed
        rw [htake]
        constructor
        · rintro ⟨c, hc, d, hd, hne⟩
          -- the last character has the class of the one before
          have hback : ∀ e ∈ text.take (n + 1) ++ [text[n + 1]], ∃ e' ∈ text.take (n + 1),
              cliShellLineCharClass e' = cliShellLineCharClass e := by
            intro e he
            rcases List.mem_append.1 he with he | he
            · exact ⟨e, he, rfl⟩
            · rw [List.mem_singleton.1 he, hclass]
              exact ⟨text[n], hmem, hsame⟩
          obtain ⟨c', hc', hcc'⟩ := hback c hc
          obtain ⟨d', hd', hdd'⟩ := hback d hd
          exact ⟨c', hc', d', hd', by rwa [hcc', hdd']⟩
        · rintro ⟨c, hc, d, hd, hne⟩
          exact ⟨c, List.mem_append_left _ hc, d, List.mem_append_left _ hd, hne⟩
      rw [hmixed]
      obtain ⟨hok, herror⟩ := skipRunLoop_left n turns (by omega) (by omega) hsame
      refine ⟨fun h => ?_, herror⟩
      obtain ⟨r, hr, hloop⟩ := hok h
      exact ⟨r, by omega, hloop⟩
    · rw [if_pos hsame]
      refine ⟨fun _ => ⟨n + 1, le_rfl, rfl⟩, fun hmixed => absurd ?_ hmixed⟩
      refine ⟨text[n], htake ▸ List.mem_append_left _ hmem, text[n + 1],
        htake ▸ List.mem_append_right _ (List.mem_singleton_self _), ?_⟩
      rwa [hclass]

theorem skipRun_right {pos : ℕ} (h : pos ≤ text.length) :
    ∃ r ≤ text.length, cliShellLineSkipRun text pos .right = .ok r := by
  unfold cliShellLineSkipRun
  by_cases hempty : text.length = 0
  · rw [if_pos hempty]
    exact ⟨pos, h, rfl⟩
  rw [if_neg hempty, if_neg (by simp)]
  by_cases hend : pos = text.length
  · rw [if_pos ⟨rfl, hend⟩]
    exact ⟨pos, h, rfl⟩
  rw [if_neg (by simpa using hend)]
  have hlt : pos < text.length := lt_of_le_of_ne h hend
  obtain ⟨r, hr, hloop⟩ := skipRunLoop_right (cliShellLineCharClass text[pos])
    (pos + text.length + 1) pos hlt (by omega)
  refine ⟨r, hr, ?_⟩
  simp only [reduceCtorEq, if_false, Int.add_zero]
  rw [getChar_of_lt rfl hlt]
  simp only [bind, Except.bind]
  rw [hloop]
  simp [pure, Except.pure]

theorem skipRun_left_zero : cliShellLineSkipRun text 0 .left = .ok 0 := by
  unfold cliShellLineSkipRun
  by_cases hempty : text.length = 0
  · rw [if_pos hempty]
  · rw [if_neg hempty, if_pos ⟨rfl, rfl⟩]

theorem skipRun_left {pos : ℕ} (hpos : 0 < pos) (h : pos ≤ text.length) :
    (text.Mixed pos → ∃ r ≤ pos, cliShellLineSkipRun text pos .left = .ok r) ∧
    (¬text.Mixed pos → cliShellLineSkipRun text pos .left = .error .outOfRange) := by
  obtain ⟨n, rfl⟩ : ∃ n, pos = n + 1 := ⟨pos - 1, by omega⟩
  have hloop := skipRunLoop_left n (n + 1 + text.length + 1) h (by omega) rfl
  have heq : cliShellLineSkipRun text (n + 1) .left =
      (cliShellLineSkipRunLoop text (-1) (-1) (cliShellLineCharClass text[n])
        (n + 1 + text.length + 1) (n + 1 : ℕ)).bind fun position => .ok (max 0 position).toNat := by
    unfold cliShellLineSkipRun
    rw [if_neg (by omega), if_neg (by simp), if_neg (by simp)]
    simp only [if_true]
    rw [getChar_of_lt (by omega) h]
    rfl
  rw [heq]
  refine ⟨fun hmixed => ?_, fun hmixed => by rw [hloop.2 hmixed]; rfl⟩
  obtain ⟨r, hr, hok⟩ := hloop.1 hmixed
  rw [hok]
  exact ⟨r, by omega, by simp [Except.bind]⟩

end CliText

namespace CliShellLine

variable {line : CliShellLine} {cells locals : List (ℕ × CliText)} {c : ℕ × CliText} {i : ℕ}

/-! ## Slots -/

/-- These strings are in the slots that are in use, and there are no others but some local ones. -/
structure Slots (line : CliShellLine) (cells locals : List (ℕ × CliText)) : Prop where
  depth : line.history.length = HISTORY_DEPTH
  entries : line.historyEntries = cells.length
  slots : line.history.take cells.length = cells.map Prod.fst
  owns : OwnsCells line.strings line.next (cells ++ locals)

namespace Slots

theorem le (h : Slots line cells locals) : cells.length ≤ HISTORY_DEPTH := by
  have hlength := congrArg List.length h.slots
  rw [List.length_take, List.length_map, h.depth] at hlength
  omega

theorem slot_eq (h : Slots line cells locals) (hi : cells[i]? = some c) :
    line.slot i = .ok c.1 := by
  obtain ⟨hlt, -⟩ := List.getElem?_eq_some_iff.1 hi
  have hslot : line.history[i]? = some c.1 := by
    rw [← List.getElem?_take_of_lt hlt, h.slots, List.getElem?_map, hi]
    rfl
  rw [slot, hslot]

theorem stringGet_eq (h : Slots line cells locals) (hc : c ∈ cells ++ locals) :
    line.stringGet c.1 = .ok c.2 := by
  rw [stringGet, h.owns.get_eq hc]

theorem perm_set (locals : List (ℕ × CliText)) (hi : cells[i]? = some c) (d : ℕ × CliText) :
    (cells ++ locals).Perm (c :: (cells.eraseIdx i ++ locals)) ∧
      (cells.set i d ++ locals).Perm (d :: (cells.eraseIdx i ++ locals)) := by
  obtain ⟨hlt, rfl⟩ := List.getElem?_eq_some_iff.1 hi
  refine ⟨(List.getElem_cons_eraseIdx_perm hlt).symm.append_right locals, ?_⟩
  exact (List.set_perm_cons_eraseIdx hlt d).append_right locals

theorem map_fst_set (hi : cells[i]? = some c) (text : CliText) :
    (cells.set i (c.1, text)).map Prod.fst = cells.map Prod.fst := by
  obtain ⟨hlt, rfl⟩ := List.getElem?_eq_some_iff.1 hi
  rw [List.map_set]
  refine List.ext_getElem (by simp) fun j hj hj' => ?_
  rw [List.getElem_set]
  split_ifs with heq
  · subst heq
    simp
  · rfl

theorem stringSet_eq (h : Slots line cells locals) (hi : cells[i]? = some c) (text : CliText) :
    line.stringSet c.1 text =
      .ok { line with strings := Function.update line.strings c.1 (some text) } ∧
    Slots { line with strings := Function.update line.strings c.1 (some text) }
      (cells.set i (c.1, text)) locals := by
  obtain ⟨hperm, hperm'⟩ := perm_set locals hi (c.1, text)
  have hmem : c ∈ cells ++ locals := List.mem_append_left _ (List.mem_of_getElem? hi)
  refine ⟨if_pos (by rw [h.owns.get_eq hmem]; rfl), h.depth, by simp [h.entries], ?_, ?_⟩
  · rw [List.length_set, map_fst_set hi]
    exact h.slots
  · exact ((h.owns.perm hperm).set text).perm hperm'.symm

theorem stringFree_eq (h : Slots line cells (c :: locals)) :
    line.stringFree c.1 = .ok { line with strings := Function.update line.strings c.1 none } ∧
      Slots { line with strings := Function.update line.strings c.1 none } cells locals := by
  have hmem : c ∈ cells ++ c :: locals := List.mem_append_right _ List.mem_cons_self
  refine ⟨if_pos (by rw [h.owns.get_eq hmem]; rfl), h.depth, h.entries, h.slots, ?_⟩
  exact (h.owns.perm List.perm_middle).free

theorem stringAlloc (h : Slots line cells locals) (text : CliText) :
    Slots (line.stringAlloc text).2 cells (((line.stringAlloc text).1, text) :: locals) where
  depth := h.depth
  entries := h.entries
  slots := h.slots
  owns := (h.owns.alloc text).perm List.perm_middle.symm

end Slots

theorem take_memmove_down {history : List ℕ} {n pos : ℕ} (hn : n ≤ history.length) (hpos : pos < n) :
    (overwrite history pos ((history.drop (pos + 1)).take (n - pos - 1))).take (n - 1) =
      (history.take n).eraseIdx pos := by
  have hmoved : ((history.drop (pos + 1)).take (n - pos - 1)).length = n - pos - 1 := by
    rw [List.length_take, List.length_drop]
    omega
  have hn' : n - 1 = pos + ((history.drop (pos + 1)).take (n - pos - 1)).length := by
    rw [hmoved]
    omega
  rw [hn', take_overwrite_length (by omega), List.eraseIdx_eq_take_drop_succ, List.take_take,
    min_eq_left hpos.le, List.drop_take]
  refine congrArg (fun count => history.take pos ++ (history.drop (pos + 1)).take count) ?_
  omega

theorem take_memmove_up {history : List ℕ} {n : ℕ} (hn : n < history.length) (p : ℕ) :
    ((overwrite history 1 ((history.drop 0).take n)).set 0 p).take (n + 1) =
      p :: history.take n := by
  have hpos : 0 < history.length := by omega
  obtain ⟨q, rest, rfl⟩ := List.exists_cons_of_ne_nil (List.ne_nil_of_length_pos hpos)
  have hlength : ((q :: rest).take n).length = n := by
    rw [List.length_take]
    omega
  have htake := take_overwrite_length (c := q :: rest) (p := 1) (by simp) ((q :: rest).take n)
  rw [hlength, Nat.add_comm] at htake
  rw [List.drop_zero, List.take_set, htake]
  rfl

/-! ## The invariant -/

/-- The line that is edited, the entries behind it, and the text that is selected. -/
structure At (line : CliShellLine) (editing : ℕ × CliText) (entries : List (ℕ × CliText))
    (text : CliText) : Prop where
  slots : Slots line (editing :: entries) []
  selected : ((editing :: entries)[line.historyPosition]?).map Prod.snd = some text
  cursor : line.linePosition ≤ text.length
  latest : entries.map Prod.snd = (recent line.executed).take (HISTORY_DEPTH - 1)
  trimmed : ∀ command ∈ line.executed, command.trim = command ∧ command ≠ []

def Inv (line : CliShellLine) : Prop := ∃ editing entries text, line.At editing entries text

/-- The text that is selected. -/
def selectedText (line : CliShellLine) : Except CliShellFault CliText := do
  line.stringGet (← line.getSelected)

namespace At

variable {editing : ℕ × CliText} {entries : List (ℕ × CliText)} {text : CliText}

theorem exists_cell (h : line.At editing entries text) :
    ∃ p, (editing :: entries)[line.historyPosition]? = some (p, text) := by
  obtain ⟨⟨p, text'⟩, hcell, rfl⟩ := Option.map_eq_some_iff.1 h.selected
  exact ⟨p, hcell⟩

theorem getSelected_eq (h : line.At editing entries text) :
    ∃ p, line.getSelected = .ok p ∧ line.stringGet p = .ok text := by
  obtain ⟨p, hp⟩ := h.exists_cell
  exact ⟨p, h.slots.slot_eq hp, h.slots.stringGet_eq (c := (p, text))
    (List.mem_append_left _ (List.mem_of_getElem? hp))⟩

theorem selectedText_eq (h : line.At editing entries text) : line.selectedText = .ok text := by
  obtain ⟨p, hp, hget⟩ := h.getSelected_eq
  rw [selectedText, hp]
  exact hget

theorem trimmed_of_mem (h : line.At editing entries text) {cell : ℕ × CliText}
    (hcell : cell ∈ entries) : cell.2.trim = cell.2 ∧ cell.2 ≠ [] := by
  have hmem : cell.2 ∈ entries.map Prod.snd := List.mem_map_of_mem hcell
  rw [h.latest] at hmem
  exact h.trimmed _ (mem_recent.1 (List.mem_of_mem_take hmem))

theorem nodup (h : line.At editing entries text) : (entries.map Prod.snd).Nodup := by
  rw [h.latest]
  exact (nodup_recent _).sublist (List.take_sublist _ _)

theorem move (h : line.At editing entries text) {pos : ℕ} (hpos : pos ≤ text.length) :
    At { line with linePosition := pos } editing entries text :=
  ⟨⟨h.slots.depth, h.slots.entries, h.slots.slots, h.slots.owns⟩, h.selected, hpos, h.latest,
    h.trimmed⟩

theorem edit (h : line.At editing entries text) (text' : CliText) {pos : ℕ}
    (hpos : pos ≤ text'.length) :
    ∃ strings, line.stringSet editing.1 text' = .ok { line with strings := strings } ∧
      At { line with
        historyPosition := 0
        linePosition := pos
        strings := strings } (editing.1, text') entries text' := by
  obtain ⟨hset, hslots⟩ := h.slots.stringSet_eq (i := 0) rfl text'
  exact ⟨_, hset, ⟨hslots.depth, hslots.entries, hslots.slots, hslots.owns⟩, rfl, hpos, h.latest,
    h.trimmed⟩

end At

/-- A key leads to where the invariant holds, and executes these commands. -/
def Gives (line : CliShellLine) (result : Except CliShellFault CliShellLine)
    (commands : List CliText) : Prop :=
  ∃ line', result = .ok line' ∧ line'.Inv ∧ line'.executed = line.executed ++ commands

/-- A key leads to where this text is selected and the cursor is here, too. -/
def Leaves (line : CliShellLine) (result : Except CliShellFault CliShellLine) (text : CliText)
    (pos : ℕ) (commands : List CliText) : Prop :=
  ∃ line', result = .ok line' ∧ (∃ editing entries, line'.At editing entries text) ∧
    line'.linePosition = pos ∧ line'.executed = line.executed ++ commands

theorem Leaves.gives {result : Except CliShellFault CliShellLine} {text : CliText} {pos : ℕ}
    {commands : List CliText} (h : line.Leaves result text pos commands) :
    line.Gives result commands := by
  obtain ⟨line', hresult, ⟨editing, entries, hat⟩, -, hexecuted⟩ := h
  exact ⟨line', hresult, ⟨editing, entries, text, hat⟩, hexecuted⟩

namespace At

variable {editing : ℕ × CliText} {entries : List (ℕ × CliText)} {text : CliText}

theorem leaves_move (h : line.At editing entries text) {pos : ℕ} (hpos : pos ≤ text.length) :
    line.Leaves (.ok { line with linePosition := pos }) text pos [] :=
  ⟨_, rfl, ⟨_, _, h.move hpos⟩, rfl, (List.append_nil _).symm⟩

theorem ensureNotOverwritingHistory_eq (h : line.At editing entries text) :
    ∃ strings, line.ensureNotOverwritingHistory = .ok { line with
        historyPosition := 0
        strings := strings } ∧
      At { line with
        historyPosition := 0
        strings := strings } (editing.1, text) entries text := by
  unfold ensureNotOverwritingHistory
  by_cases hpos : 0 < line.historyPosition
  · obtain ⟨p, hp, hget⟩ := h.getSelected_eq
    obtain ⟨strings, hset, hat⟩ := h.edit text h.cursor
    have hediting : line.getEditing = .ok editing.1 := h.slots.slot_eq (i := 0) rfl
    refine ⟨strings, ?_, hat⟩
    simp only [if_pos hpos, hp, hediting, hget, hset, bind, Except.bind]
    rfl
  · have hzero : line.historyPosition = 0 := by omega
    have hediting : (editing.1, text) = editing := by
      obtain ⟨p, hp⟩ := h.exists_cell
      rw [hzero] at hp
      cases Option.some.inj hp
      rfl
    have hline : { line with historyPosition := 0 } = line := by
      rw [← hzero]
    refine ⟨line.strings, ?_, ?_⟩
    · rw [if_neg hpos, hline]
      rfl
    · rw [hline, hediting]
      exact h

/-! ## Keys that leave the texts as they are -/

theorem inputUpDown (h : line.At editing entries text) (combo : CliKeyCombo) :
    line.Gives (line.inputUpDown combo) [] := by
  have hpos : line.historyPosition < entries.length + 1 := by
    obtain ⟨p, hp⟩ := h.exists_cell
    exact (List.getElem?_eq_some_iff.1 hp).1
  have hentries : line.historyEntries = entries.length + 1 := h.slots.entries
  unfold CliShellLine.inputUpDown
  dsimp only
  obtain ⟨pos, hnew, hlt⟩ : ∃ pos, (clamp (line.historyPosition +
      if combo.key = CliKey.Up then 1 else -1) (line.historyEntries - 1) 0).toNat = pos ∧
      pos < (editing :: entries).length := by
    refine ⟨_, rfl, ?_⟩
    rw [clamp, hentries, List.length_cons]
    omega
  rw [hnew]
  by_cases hsame : pos = line.historyPosition
  · rw [if_neg (not_not.2 hsame)]
    exact (h.leaves_move h.cursor).gives
  · rw [if_pos hsame]
    have hcell : (editing :: entries)[pos]? = some (editing :: entries)[pos] :=
      List.getElem?_eq_getElem hlt
    have hslots : Slots { line with historyPosition := pos } (editing :: entries) [] :=
      ⟨h.slots.depth, h.slots.entries, h.slots.slots, h.slots.owns⟩
    have hselected : getSelected { line with historyPosition := pos } =
      .ok (editing :: entries)[pos].1 := hslots.slot_eq hcell
    have hget := hslots.stringGet_eq (List.mem_append_left _ (List.getElem_mem hlt))
    simp only [hselected, hget, bind, Except.bind]
    exact ⟨_, rfl, ⟨_, _, _, ⟨hslots.depth, hslots.entries, hslots.slots, hslots.owns⟩,
      congrArg (Option.map Prod.snd) hcell, le_rfl, h.latest, h.trimmed⟩, (List.append_nil _).symm⟩

theorem inputLeftRight (h : line.At editing entries text) (combo : CliKeyCombo) :
    line.Leaves (line.inputLeftRight combo) text (clamp (line.linePosition +
      if combo.key = CliKey.Right then 1 else -1) text.length 0).toNat [] := by
  obtain ⟨p, hp, hget⟩ := h.getSelected_eq
  simp only [CliShellLine.inputLeftRight, hp, hget, bind, Except.bind]
  refine h.leaves_move ?_
  rw [clamp]
  omega

theorem inputEnd (h : line.At editing entries text) :
    line.Leaves line.inputEnd text text.length [] := by
  obtain ⟨p, hp, hget⟩ := h.getSelected_eq
  simp only [CliShellLine.inputEnd, hp, hget, bind, Except.bind]
  exact h.leaves_move le_rfl

theorem inputCtrlL (h : line.At editing entries text) :
    line.Leaves line.inputCtrlL text line.linePosition [] := by
  obtain ⟨p, hp, hget⟩ := h.getSelected_eq
  simp only [CliShellLine.inputCtrlL, hp, hget, bind, Except.bind]
  exact h.leaves_move h.cursor

theorem inputCtrlLeftRight (h : line.At editing entries text) {combo : CliKeyCombo}
    (hrun : combo.key = CliKey.Left → line.linePosition = 0 ∨ text.Mixed line.linePosition) :
    line.Gives (line.inputCtrlLeftRight combo) [] := by
  obtain ⟨p, hp, hget⟩ := h.getSelected_eq
  obtain ⟨pos, hpos, hskip⟩ : ∃ pos ≤ text.length, cliShellLineSkipRun text line.linePosition
      (if combo.key = CliKey.Left then .left else .right) = .ok pos := by
    by_cases hleft : combo.key = CliKey.Left
    · rw [if_pos hleft]
      rcases Nat.eq_zero_or_pos line.linePosition with hzero | hpos
      · rw [hzero]
        exact ⟨0, Nat.zero_le _, CliText.skipRun_left_zero⟩
      · have hmixed := (hrun hleft).resolve_left hpos.ne'
        obtain ⟨r, hr, hskip⟩ := (CliText.skipRun_left hpos h.cursor).1 hmixed
        exact ⟨r, hr.trans h.cursor, hskip⟩
    · rw [if_neg hleft]
      exact CliText.skipRun_right h.cursor
  simp only [CliShellLine.inputCtrlLeftRight, hp, hget, hskip, bind, Except.bind]
  exact (h.leaves_move hpos).gives

/-! ## Keys that change the line -/

theorem inputCtrlC (h : line.At editing entries text) : line.Leaves line.inputCtrlC [] 0 [] := by
  obtain ⟨strings, hset, hat⟩ := h.edit [] le_rfl
  have hediting : line.getEditing = .ok editing.1 := h.slots.slot_eq (i := 0) rfl
  simp only [CliShellLine.inputCtrlC, hediting, hset, bind, Except.bind]
  exact ⟨_, rfl, ⟨_, _, hat⟩, rfl, (List.append_nil _).symm⟩

theorem leaves_edit (h : line.At editing entries text) {text' : CliText} {pos : ℕ}
    (hpos : pos ≤ text'.length) : ∃ strings,
      line.stringSet editing.1 text' = .ok { line with strings := strings } ∧
      line.Leaves (.ok { line with
        historyPosition := 0
        linePosition := pos
        strings := strings }) text' pos [] := by
  obtain ⟨strings, hset, hat⟩ := h.edit text' hpos
  exact ⟨strings, hset, _, rfl, ⟨_, _, hat⟩, rfl, (List.append_nil _).symm⟩

theorem inputBksp (h : line.At editing entries text) :
    line.Leaves line.inputBksp (text.take (line.linePosition - 1) ++ text.drop line.linePosition)
      (line.linePosition - 1) [] := by
  obtain ⟨strings, hensure, hat⟩ := h.ensureNotOverwritingHistory_eq
  have hediting := hat.slots.slot_eq (i := 0) rfl
  have hget := hat.slots.stringGet_eq (c := (editing.1, text)) List.mem_cons_self
  unfold CliShellLine.inputBksp
  rw [hensure]
  simp only [bind, Except.bind, getEditing]
  rw [hediting]
  dsimp only
  by_cases hzero : line.linePosition = 0
  · have hsame : text.take (line.linePosition - 1) ++ text.drop line.linePosition = text := by
      rw [hzero]
      rfl
    rw [if_pos hzero, hsame]
    exact ⟨_, rfl, ⟨_, _, hat⟩, hzero.trans (by rw [hzero]), (List.append_nil _).symm⟩
  have hcursor := h.cursor
  have hremove : text.replaceAt (line.linePosition - 1) 1 [] =
      .ok (text.take (line.linePosition - 1) ++ text.drop line.linePosition) := by
    rw [CliText.replaceAt, if_pos (by omega), List.append_nil, Nat.sub_add_cancel (by omega)]
  have hlength : line.linePosition - 1 ≤
      (text.take (line.linePosition - 1) ++ text.drop line.linePosition).length := by
    rw [List.length_append, List.length_take]
    omega
  have hmoved : At { line with
      historyPosition := 0
      linePosition := line.linePosition - 1
      strings := strings } (editing.1, text) entries text := hat.move (by omega)
  obtain ⟨strings', hset, hleaves⟩ := hmoved.leaves_edit hlength
  rw [if_neg hzero]
  simp only [stringGet] at hget ⊢
  simp only [hget, hremove, hset, CliText.rest, if_pos hlength]
  exact hleaves

theorem inputCtrlBksp (h : line.At editing entries text)
    (hrun : line.linePosition = 0 ∨ text.Mixed line.linePosition) :
    ∃ start ≤ line.linePosition, line.Leaves line.inputCtrlBksp
      (text.take start ++ text.drop line.linePosition) start [] := by
  obtain ⟨strings, hensure, hat⟩ := h.ensureNotOverwritingHistory_eq
  have hediting := hat.slots.slot_eq (i := 0) rfl
  have hget := hat.slots.stringGet_eq (c := (editing.1, text)) List.mem_cons_self
  obtain ⟨start, hstart, hskip⟩ : ∃ start ≤ line.linePosition,
      cliShellLineSkipRun text line.linePosition .left = .ok start := by
    rcases Nat.eq_zero_or_pos line.linePosition with hzero | hpos
    · rw [hzero]
      exact ⟨0, le_rfl, CliText.skipRun_left_zero⟩
    · exact (CliText.skipRun_left hpos h.cursor).1 (hrun.resolve_left hpos.ne')
  have hcursor := h.cursor
  have hremove : text.replaceAt start (line.linePosition - start) [] =
      .ok (text.take start ++ text.drop line.linePosition) := by
    rw [CliText.replaceAt, if_pos (by omega), List.append_nil, Nat.add_sub_cancel' hstart]
  have hlength : start ≤ (text.take start ++ text.drop line.linePosition).length := by
    rw [List.length_append, List.length_take]
    omega
  obtain ⟨strings', hset, hleaves⟩ := hat.leaves_edit hlength
  refine ⟨start, hstart, ?_⟩
  simp only [CliShellLine.inputCtrlBksp, hensure, getSelected, hediting, hget, hskip, hremove, hset,
    CliText.rest, if_pos hlength, bind, Except.bind]
  exact hleaves

theorem inputNormal_skip (h : line.At editing entries text) {combo : CliKeyCombo}
    (hcombo : combo.modifiers ≠ CliModKeyNo ∨ combo.key < CliKey.Space ∨ CliKey.DEL ≤ combo.key) :
    line.Leaves (line.inputNormal combo) text line.linePosition [] := by
  unfold CliShellLine.inputNormal
  split_ifs with hmodifiers hkey
  · exact h.leaves_move h.cursor
  · exact h.leaves_move h.cursor
  · exact absurd hcombo (not_or.2 ⟨hmodifiers, hkey⟩)

theorem inputNormal (h : line.At editing entries text) {combo : CliKeyCombo}
    (hmodifiers : combo.modifiers = CliModKeyNo)
    (hkey : CliKey.Space ≤ combo.key ∧ combo.key < CliKey.DEL) :
    line.Leaves (line.inputNormal combo) (text.take line.linePosition ++
      [UInt8.ofNat combo.key] ++ text.drop line.linePosition) (line.linePosition + 1) [] := by
  unfold CliShellLine.inputNormal
  rw [if_neg (not_not.2 hmodifiers), if_neg (by omega)]
  obtain ⟨strings, hensure, hat⟩ := h.ensureNotOverwritingHistory_eq
  have hediting := hat.slots.slot_eq (i := 0) rfl
  have hget := hat.slots.stringGet_eq (c := (editing.1, text)) List.mem_cons_self
  have hcursor := h.cursor
  have hlength : line.linePosition + 1 ≤ (text.take line.linePosition ++
      [UInt8.ofNat combo.key] ++ text.drop line.linePosition).length := by
    simp only [List.length_append, List.length_take, List.length_cons, List.length_nil]
    omega
  obtain ⟨strings', hset, hleaves⟩ := hat.leaves_edit hlength
  simp only [hensure, getEditing, hediting, hget, bind, Except.bind, pure, Except.pure]
  by_cases hend : line.linePosition = text.length
  · have happend : text ++ [UInt8.ofNat combo.key] = text.take line.linePosition ++
        [UInt8.ofNat combo.key] ++ text.drop line.linePosition := by
      rw [hend, List.take_length, List.drop_length, List.append_nil]
    rw [if_pos hend, happend, hset]
    exact hleaves
  · have hinsert : text.replaceAt line.linePosition 0 [UInt8.ofNat combo.key] =
        .ok (text.take line.linePosition ++ [UInt8.ofNat combo.key] ++
          text.drop line.linePosition) := by
      rw [CliText.replaceAt, if_pos (by omega), Nat.add_zero]
    simp only [if_neg hend, hinsert, hset]
    exact hleaves

end At

/-! ## Enter -/

theorem trim_trim (text : CliText) : text.trim.trim = text.trim := by
  have hstart : ∀ text : CliText, (text.trim).dropWhile CliText.isTrimmed = text.trim := by
    intro text
    rw [List.dropWhile_eq_self_iff]
    intro hpos hfirst
    obtain ⟨tail, htail⟩ : text.trim <+: text.dropWhile CliText.isTrimmed :=
      List.rdropWhile_prefix CliText.isTrimmed _
    have hkept := List.dropWhile_idempotent CliText.isTrimmed text
    rw [List.dropWhile_eq_self_iff] at hkept
    have hpos' : 0 < (text.dropWhile CliText.isTrimmed).length := by
      rw [← htail, List.length_append]
      omega
    refine hkept hpos' ?_
    rw [← hfirst]
    simp only [← htail, List.getElem_append_left hpos]
  rw [CliText.trim, hstart]
  exact List.rdropWhile_idempotent CliText.isTrimmed _

section Enter

variable {editing : ℕ × CliText} {entries : List (ℕ × CliText)} {command : CliText} {p q : ℕ}

theorem findEntry_eq (h : Slots line (editing :: entries) locals)
    (hcommand : line.stringGet p = .ok command) : ∀ (left i : ℕ), i + left = entries.length →
    (line.findEntry p left (i + 1) = .ok none ∧ command ∉ (entries.drop i).map Prod.snd) ∨
      ∃ j q, line.findEntry p left (i + 1) = .ok (some (j + 1)) ∧ entries[j]? = some (q, command)
  | 0, i, hi => by
    refine .inl ⟨rfl, ?_⟩
    rw [List.drop_of_length_le (by omega)]
    exact List.not_mem_nil
  | left + 1, i, hi => by
    have hlt : i < entries.length := by omega
    have hcell : (editing :: entries)[i + 1]? = some entries[i] := by
      rw [List.getElem?_cons_succ, List.getElem?_eq_getElem hlt]
    have hget := h.stringGet_eq (List.mem_append_left _ (List.mem_of_getElem? hcell))
    rw [findEntry, h.slot_eq hcell]
    simp only [bind, Except.bind, pure, Except.pure]
    rw [hget, hcommand]
    dsimp only
    by_cases hsame : entries[i].2 = command
    · rw [if_pos hsame]
      exact .inr ⟨i, entries[i].1, rfl, by rw [← hsame, List.getElem?_eq_getElem hlt]⟩
    · rw [if_neg hsame]
      refine (findEntry_eq h hcommand left (i + 1) (by omega)).imp_left fun ⟨hnone, hrest⟩ => ?_
      refine ⟨hnone, fun hmem => ?_⟩
      rw [List.drop_eq_getElem_cons hlt, List.map_cons] at hmem
      exact (List.mem_cons.1 hmem).elim (fun heq => hsame heq.symm) hrest

/-- What is done with a command: it is the line that is edited and no entry, or an entry. -/
def Selects (line : CliShellLine) (editing : ℕ × CliText) (entries : List (ℕ × CliText))
    (command : CliText) (p : ℕ) : Prop :=
  (line.historyPosition = 0 ∧ editing = (p, command) ∧ command ∉ entries.map Prod.snd) ∨
    ∃ i, line.historyPosition = i + 1 ∧ entries[i]? = some (p, command)

theorem selectEntered_eq (h : Slots line (editing :: entries) locals)
    (hselected : (editing :: entries)[line.historyPosition]? = some (p, command))
    (htrim : command.trim = command) : ∃ q line', line.selectEntered p = .ok (q, line') ∧
      Slots line' (editing :: entries) locals ∧ line'.Selects editing entries command q ∧
      line'.executed = line.executed := by
  unfold selectEntered
  rcases hpos : line.historyPosition with _ | i
  swap
  · rw [hpos] at hselected
    exact ⟨p, line, rfl, h, .inr ⟨i, hpos, hselected⟩, rfl⟩
  rw [hpos] at hselected
  have hediting : editing = (p, command) := Option.some.inj hselected
  have hcommand : line.stringGet p = .ok command :=
    h.stringGet_eq (c := (p, command)) (List.mem_append_left _ (List.mem_of_getElem? hselected))
  have hentries : line.historyEntries - 1 = entries.length := by
    rw [h.entries, List.length_cons, Nat.add_sub_cancel]
  rw [if_pos rfl, hentries]
  rcases findEntry_eq h hcommand entries.length 0 (Nat.zero_add _) with
    ⟨hnone, hfresh⟩ | ⟨j, q, hsome, hentry⟩
  · rw [hnone]
    exact ⟨p, line, rfl, h, .inl ⟨hpos, hediting, hfresh⟩, rfl⟩
  · have hcell : (editing :: entries)[j + 1]? = some (q, command) := hentry
    have hslots : Slots { line with historyPosition := j + 1 } (editing :: entries) locals :=
      ⟨h.depth, h.entries, h.slots, h.owns⟩
    have hselected' : getSelected { line with historyPosition := j + 1 } = .ok q :=
      hslots.slot_eq hcell
    have hget := hslots.stringGet_eq (c := (q, command))
      (List.mem_append_left _ (List.mem_of_getElem? hcell))
    obtain ⟨hset, hset'⟩ := hslots.stringSet_eq hcell command
    obtain ⟨hlt, heq⟩ := List.getElem?_eq_some_iff.1 hcell
    have hsame : (editing :: entries).set (j + 1) (q, command) = editing :: entries := by
      rw [← heq]
      exact List.set_getElem_self hlt
    rw [hsame] at hset'
    rw [hsome]
    simp only [bind, Except.bind, pure, Except.pure]
    simp only [hselected', stringTrim, hget, htrim, hset, bind, Except.bind]
    exact ⟨q, _, rfl, hset', .inr ⟨j, rfl, hentry⟩, rfl⟩

theorem stringMove_eq {text old : CliText}
    (h : OwnsCells line.strings line.next ((p, text) :: (q, old) :: cells)) :
    ∃ strings, line.stringMove q p = .ok { line with strings := strings } ∧
      OwnsCells strings line.next ((q, text) :: cells) := by
  have hget : line.stringGet p = .ok text := by
    rw [stringGet, h.mem.2 List.mem_cons_self]
  have hset : line.stringSet q text =
      .ok { line with strings := Function.update line.strings q (some text) } :=
    if_pos (congrArg Option.isSome (h.mem.2 (List.mem_cons_of_mem _ List.mem_cons_self)))
  have howns := ((h.perm (.swap _ _ _)).set text).perm (.swap _ _ _)
  have hfree : stringFree { line with strings := Function.update line.strings q (some text) } p =
      .ok { line with
        strings := Function.update (Function.update line.strings q (some text)) p none } :=
    if_pos (congrArg Option.isSome (howns.mem.2 List.mem_cons_self))
  refine ⟨_, ?_, howns.free⟩
  rw [stringMove, hget]
  simp only [bind, Except.bind]
  rw [hset]
  exact hfree

/-- The command takes the place of the line that is edited, and is no entry any more. -/
theorem moveToFront_eq (h : Slots line (editing :: entries) locals)
    (hselects : line.Selects editing entries command p) (hnodup : (entries.map Prod.snd).Nodup) :
    ∃ line' entries', line.moveToFront p = .ok line' ∧
      Slots line' ((editing.1, command) :: entries') locals ∧
      entries'.map Prod.snd = (entries.map Prod.snd).erase command ∧
      line'.executed = line.executed := by
  unfold moveToFront
  rcases hselects with ⟨hpos, rfl, hfresh⟩ | ⟨i, hpos, hentry⟩
  · rw [if_neg (by omega)]
    exact ⟨line, entries, rfl, h, (List.erase_of_not_mem hfresh).symm, rfl⟩
  obtain ⟨hi, heq⟩ := List.getElem?_eq_some_iff.1 hentry
  have hle := h.le
  have hentries : line.historyEntries = entries.length + 1 := h.entries
  have hdepth := h.depth
  rw [List.length_cons] at hle
  -- the entry is no slot any more
  obtain ⟨history, hmove, hlength, htake⟩ : ∃ history,
      line.memmove (i + 1) (i + 1 + 1) (line.historyEntries - (i + 1) - 1) =
        .ok { line with history := history } ∧ history.length = HISTORY_DEPTH ∧
      history.take entries.length = editing.1 :: (entries.map Prod.fst).eraseIdx i := by
    refine ⟨_, if_pos ⟨by omega, by omega⟩, ?_, ?_⟩
    · rw [length_overwrite (by omega), List.length_take, List.length_drop]
      omega
    · have hdown := @take_memmove_down line.history line.historyEntries (i + 1) (by omega) (by omega)
      have hslots := h.slots
      rw [List.length_cons, ← hentries] at hslots
      rw [hslots, hentries, Nat.add_sub_cancel] at hdown
      rw [hentries]
      exact hdown
  have hslot : slot { line with history := history } 0 = .ok editing.1 := by
    have hfirst : history[0]? = some editing.1 := by
      rw [← List.getElem?_take_of_lt (by omega : 0 < entries.length), htake]
      rfl
    rw [slot]
    dsimp only
    rw [hfirst]
  -- and its string is moved
  have howns : OwnsCells line.strings line.next
      ((p, command) :: (editing.1, editing.2) :: (entries.eraseIdx i ++ locals)) := by
    refine h.owns.perm ?_
    obtain ⟨hperm, -⟩ := Slots.perm_set locals hentry (p, command)
    exact (List.Perm.cons editing hperm).trans (.swap _ _ _)
  obtain ⟨strings, hmoved, howns'⟩ := @stringMove_eq { line with history := history }
    (entries.eraseIdx i ++ locals) p editing.1 command editing.2 howns
  have herase : entries.length - 1 + 1 = entries.length := by omega
  rw [if_pos (by omega), hpos]
  dsimp only
  rw [hmove]
  simp only [bind, Except.bind, pure, Except.pure]
  rw [hslot]
  dsimp only
  rw [hmoved]
  refine ⟨_, entries.eraseIdx i, rfl, ⟨hlength, ?_, ?_, howns'⟩, ?_, rfl⟩
  · rw [List.length_cons, List.length_eraseIdx_of_lt hi, herase]
    exact congrArg (· - 1) hentries
  · rw [List.length_cons, List.length_eraseIdx_of_lt hi, herase, htake, List.map_cons,
      List.eraseIdx_map]
  · have hmap : (entries.map Prod.snd)[i]? = some command := by
      rw [List.getElem?_map, hentry]
      rfl
    obtain ⟨hlt, hget⟩ := List.getElem?_eq_some_iff.1 hmap
    rw [← List.eraseIdx_map, ← hget]
    exact (hnodup.erase_getElem i hlt).symm

theorem makeRoom_eq (h : Slots line cells locals) : ∃ line', line.makeRoom = .ok line' ∧
    Slots line' (cells.take (HISTORY_DEPTH - 1)) locals ∧ line'.executed = line.executed := by
  have hle := h.le
  have hentries := h.entries
  unfold makeRoom
  by_cases hfull : line.historyEntries = HISTORY_DEPTH
  · have hlast : HISTORY_DEPTH - 1 < cells.length := by
      rw [← hentries, hfull]
      decide
    have hcell : cells[HISTORY_DEPTH - 1]? = some cells[HISTORY_DEPTH - 1] :=
      List.getElem?_eq_getElem hlast
    have hcells : cells = cells.take (HISTORY_DEPTH - 1) ++ [cells[HISTORY_DEPTH - 1]] := by
      rw [List.take_concat_get' cells _ hlast, List.take_of_length_le (by omega)]
    have howns : OwnsCells line.strings line.next (cells[HISTORY_DEPTH - 1] ::
        (cells.take (HISTORY_DEPTH - 1) ++ locals)) := by
      refine h.owns.perm ?_
      conv_lhs => rw [hcells, List.append_assoc]
      exact List.perm_middle
    have hfree : line.stringFree cells[HISTORY_DEPTH - 1].1 = .ok { line with
        strings := Function.update line.strings cells[HISTORY_DEPTH - 1].1 none } :=
      if_pos (congrArg Option.isSome (howns.mem.2 List.mem_cons_self))
    have htake : (cells.take (HISTORY_DEPTH - 1)).length = HISTORY_DEPTH - 1 := by
      rw [List.length_take]
      omega
    rw [if_pos hfull, h.slot_eq hcell]
    simp only [bind, Except.bind, pure, Except.pure]
    rw [hfree]
    refine ⟨_, rfl, ⟨h.depth, ?_, ?_, howns.free⟩, rfl⟩
    · rw [htake]
      exact congrArg (· - 1) hfull
    · rw [htake, List.map_take, ← h.slots, List.take_take]
      exact congrArg (line.history.take ·) (by omega)
  · have htake : cells.take (HISTORY_DEPTH - 1) = cells := List.take_of_length_le (by omega)
    rw [if_neg hfull, htake]
    exact ⟨line, rfl, h, rfl⟩

theorem insertEmpty_eq (h : Slots line cells locals) :
    ∃ line' editing, line.insertEmpty = .ok line' ∧
      Slots line' ((editing, []) :: cells.take (HISTORY_DEPTH - 1)) locals ∧
      line'.historyPosition = 0 ∧ line'.linePosition = 0 ∧ line'.executed = line.executed := by
  obtain ⟨line', hroom, hslots, hexecuted⟩ := makeRoom_eq h
  have hlt : line'.historyEntries < line'.history.length := by
    rw [hslots.entries, hslots.depth, List.length_take]
    have hdepth : HISTORY_DEPTH = 10 := rfl
    omega
  have hmove : line'.memmove 1 0 line'.historyEntries = .ok { line' with
      history := overwrite line'.history 1 ((line'.history.drop 0).take line'.historyEntries) } :=
    if_pos ⟨by omega, by omega⟩
  have htake := take_memmove_up hlt line'.next
  rw [hslots.entries, hslots.slots] at htake
  unfold insertEmpty
  rw [hroom]
  simp only [bind, Except.bind, pure, Except.pure]
  rw [hmove]
  refine ⟨_, line'.next, rfl, ⟨?_, congrArg (· + 1) hslots.entries, ?_, ?_⟩, rfl, rfl, hexecuted⟩
  · dsimp only [stringAlloc]
    rw [List.length_set, length_overwrite (by omega), List.length_take, List.length_drop,
      hslots.depth]
    rw [hslots.depth] at hlt
    omega
  · rw [List.length_cons, List.map_cons, ← htake, hslots.entries]
    rfl
  · exact hslots.owns.alloc []

end Enter

namespace At

variable {editing : ℕ × CliText} {entries : List (ℕ × CliText)} {text : CliText}

theorem inputCr_blank (h : line.At editing entries text) (hblank : text.trim = []) :
    ∃ strings, line.inputCr = .ok { line with strings := strings } ∧
      line.historyPosition = 0 ∧
      Slots { line with strings := strings } ((editing.1, []) :: entries) [] := by
  have hpos : line.historyPosition = 0 := by
    by_contra hne
    obtain ⟨i, hi⟩ := Nat.exists_eq_succ_of_ne_zero hne
    obtain ⟨p, hp⟩ := h.exists_cell
    rw [hi, List.getElem?_cons_succ] at hp
    obtain ⟨htrim, hnil⟩ := h.trimmed_of_mem (List.mem_of_getElem? hp)
    exact hnil (htrim.symm.trans hblank)
  have hediting : editing.2 = text := by
    have hselected := h.selected
    rw [hpos] at hselected
    exact Option.some.inj hselected
  have hselected : line.getSelected = .ok editing.1 := h.slots.slot_eq (by rw [hpos]; rfl)
  have hget := h.slots.stringGet_eq (c := editing) List.mem_cons_self
  obtain ⟨hset, hslots⟩ := h.slots.stringSet_eq (i := 0) rfl []
  have hget' := hslots.stringGet_eq (c := (editing.1, [])) List.mem_cons_self
  refine ⟨_, ?_, hpos, hslots⟩
  simp only [inputCr, stringTrim, hselected, hget, hediting, hblank, hset, hget', bind, Except.bind]
  rfl

/-- A blank line does nothing if the cursor is at its beginning. -/
theorem inputCr_ignores (h : line.At editing entries text) (hblank : text.trim = [])
    (hcursor : line.linePosition = 0) : line.Leaves line.inputCr [] 0 [] := by
  obtain ⟨strings, hresult, hpos, hslots⟩ := h.inputCr_blank hblank
  refine ⟨_, hresult, ⟨_, _, hslots, ?_, hcursor.le, h.latest, h.trimmed⟩, hcursor,
    (List.append_nil _).symm⟩
  dsimp only
  rw [hpos]
  rfl

/-- What is entered is executed, and is the first entry from then on. -/
theorem inputCr_command (h : line.At editing entries text) (hcommand : text.trim ≠ []) :
    line.Leaves line.inputCr [] 0 [text.trim] := by
  generalize hcommand' : text.trim = command at hcommand
  have htrim : command.trim = command := by rw [← hcommand', trim_trim]
  obtain ⟨p, hp⟩ := h.exists_cell
  have hselected : line.getSelected = .ok p := h.slots.slot_eq hp
  have hget := h.slots.stringGet_eq (c := (p, text))
    (List.mem_append_left _ (List.mem_of_getElem? hp))
  obtain ⟨hset, hslots⟩ := h.slots.stringSet_eq hp command
  -- trimming changes the line that is edited only
  obtain ⟨editing', hcells⟩ : ∃ editing',
      (editing :: entries).set line.historyPosition (p, command) = editing' :: entries := by
    rcases hpos : line.historyPosition with _ | i
    · exact ⟨_, rfl⟩
    · refine ⟨editing, ?_⟩
      rw [hpos, List.getElem?_cons_succ] at hp
      obtain ⟨hi, heq⟩ := List.getElem?_eq_some_iff.1 hp
      have hsame : text.trim = text := (h.trimmed_of_mem (List.mem_of_getElem? hp)).1
      rw [List.set_cons_succ, ← hcommand', hsame, ← heq, List.set_getElem_self]
  rw [hcells] at hslots
  have hp' : (editing' :: entries)[line.historyPosition]? = some (p, command) := by
    rw [← hcells, List.getElem?_set_self (List.getElem?_eq_some_iff.1 hp).1]
  generalize hstrings : Function.update line.strings p (some command) = strings at hset hslots
  have hget' := hslots.stringGet_eq (c := (p, command))
    (List.mem_append_left _ (List.mem_of_getElem? hp'))
  have hcopy := hslots.stringAlloc command
  obtain ⟨q, line₁, hselect, hslots₁, hselects, hexecuted₁⟩ := selectEntered_eq hcopy hp' htrim
  obtain ⟨line₂, entries', hfront, hslots₂, herase, hexecuted₂⟩ :=
    moveToFront_eq hslots₁ hselects h.nodup
  obtain ⟨line₃, r, hinsert, hslots₃, hpos₃, hcursor₃, hexecuted₃⟩ := insertEmpty_eq hslots₂
  have hget₃ := hslots₃.stringGet_eq (List.mem_append_right _ List.mem_cons_self)
  obtain ⟨hfree, hslots₄⟩ := hslots₃.stringFree_eq
  have hexecuted : line₃.executed = line.executed :=
    hexecuted₃.trans (hexecuted₂.trans hexecuted₁)
  refine ⟨{ line₃ with
      strings := Function.update line₃.strings
        (stringAlloc { line with strings := strings } command).1 none
      executed := line₃.executed ++ [command] }, ?_,
    ⟨(r, []), ((editing'.1, command) :: entries').take (HISTORY_DEPTH - 1),
      ⟨hslots₄.depth, hslots₄.entries, hslots₄.slots, hslots₄.owns⟩, ?_, ?_, ?_, ?_⟩, hcursor₃, ?_⟩
  · simp only [inputCr, stringTrim, hselected, hget, hcommand', hset, hget', if_neg hcommand,
      hselect, hfront, hinsert, hget₃, bind, Except.bind]
    have hsome : (line₃.strings (stringAlloc { line with strings := strings } command).1).isSome :=
      congrArg Option.isSome (hslots₃.owns.get_eq (List.mem_append_right _ List.mem_cons_self))
    exact if_pos hsome
  · rw [hpos₃]
    rfl
  · rw [hcursor₃]
    exact Nat.zero_le _
  · rw [List.map_take, List.map_cons, herase, h.latest, hexecuted, recent_concat]
    exact (take_cons_erase command _ _).symm
  · intro c hc
    rw [hexecuted] at hc
    rcases List.mem_append.1 hc with hc | hc
    · exact h.trimmed c hc
    · rw [List.mem_singleton.1 hc]
      exact ⟨htrim, hcommand⟩
  · rw [← hexecuted]

end At

/-! ## Every key -/

/-- The slots that are in use. -/
def inUse (line : CliShellLine) : List ℕ := line.history.take line.historyEntries

/-- The slots that are in use own the strings there are, each its own; those behind the first one
hold the last commands, each once; and the cursor is in the text that is selected. -/
structure WellFormed (line : CliShellLine) : Prop where
  entries : 1 ≤ line.historyEntries ∧ line.historyEntries ≤ HISTORY_DEPTH
  position : line.historyPosition < line.historyEntries
  cursor : ∃ text, line.selectedText = .ok text ∧ line.linePosition ≤ text.length
  once : line.inUse.Nodup
  owned : ∀ p, (line.strings p).isSome ↔ p ∈ line.inUse
  latest : line.inUse.tail.map line.strings =
    ((recent line.executed).take (HISTORY_DEPTH - 1)).map some
  distinct : (line.inUse.tail.map line.strings).Nodup
  nonempty : some [] ∉ line.inUse.tail.map line.strings

/-- The commands that a key executes: Enter the trimmed text that is selected, if any is left. -/
def executes (line : CliShellLine) (combo : CliKeyCombo) : List CliText :=
  if combo = ⟨CliModKeyNo, CliKey.CR⟩ then
    match line.selectedText with
    | .ok text => if text.trim = [] then [] else [text.trim]
    | .error _ => []
  else []

/-- No access is a fault, the editor is well-formed afterwards, and what has been entered is
executed. -/
def Lawful (line : CliShellLine) (combo : CliKeyCombo) : Prop :=
  ∃ line', line.input combo = .ok line' ∧ line'.WellFormed ∧
    line'.executed = line.executed ++ line.executes combo

/-- A blank line is entered with the cursor at its beginning only, and a run of characters that is
skipped to the left begins behind the beginning of the line. -/
structure Allowed (line : CliShellLine) (combo : CliKeyCombo) : Prop where
  enter : combo = ⟨CliModKeyNo, CliKey.CR⟩ → ∀ text, line.selectedText = .ok text →
    text.trim = [] → line.linePosition = 0
  skip : combo = ⟨CliModKeyCtrl, CliKey.Left⟩ ∨ combo = ⟨CliModKeyNo, CliKey.ETB⟩ →
    ∀ text, line.selectedText = .ok text → line.linePosition = 0 ∨ text.Mixed line.linePosition

theorem At.wellFormed {editing : ℕ × CliText} {entries : List (ℕ × CliText)} {text : CliText}
    (h : line.At editing entries text) : line.WellFormed := by
  have hentries : line.historyEntries = (editing :: entries).length := h.slots.entries
  have hinUse : line.inUse = (editing :: entries).map Prod.fst := by
    rw [inUse, hentries, h.slots.slots]
  have howns := h.slots.owns
  rw [List.append_nil] at howns
  have htexts : line.inUse.tail.map line.strings =
      ((recent line.executed).take (HISTORY_DEPTH - 1)).map some := by
    rw [hinUse, ← h.latest, List.map_cons, List.tail_cons, List.map_map, List.map_map]
    exact List.map_congr_left fun cell hcell => howns.get_eq (List.mem_cons_of_mem _ hcell)
  refine ⟨⟨by rw [hentries]; exact Nat.succ_pos _, hentries ▸ h.slots.le⟩, ?_,
    ⟨text, h.selectedText_eq, h.cursor⟩, hinUse ▸ howns.nodup, fun p => ?_, htexts, ?_, ?_⟩
  · obtain ⟨p, hp⟩ := h.exists_cell
    rw [hentries]
    exact (List.getElem?_eq_some_iff.1 hp).1
  · rw [hinUse, List.mem_map, Option.isSome_iff_exists]
    constructor
    · rintro ⟨text, hget⟩
      exact ⟨(p, text), howns.mem.1 hget, rfl⟩
    · rintro ⟨cell, hcell, rfl⟩
      exact ⟨cell.2, howns.get_eq hcell⟩
  · rw [htexts]
    exact ((nodup_recent _).sublist (List.take_sublist _ _)).map (Option.some_injective _)
  · rw [htexts]
    intro hmem
    obtain ⟨command, hcommand, hnil⟩ := List.mem_map.1 hmem
    have hexecuted := mem_recent.1 (List.mem_of_mem_take hcommand)
    exact (h.trimmed command hexecuted).2 (Option.some.inj hnil)

/-- Every key that is allowed keeps the invariant. -/
theorem Inv.gives (h : line.Inv) {combo : CliKeyCombo} (hallowed : line.Allowed combo) :
    line.Gives (line.input combo) (line.executes combo) := by
  obtain ⟨editing, entries, text, h⟩ := h
  by_cases hcr : combo = ⟨CliModKeyNo, CliKey.CR⟩
  · have hexecutes : line.executes combo = if text.trim = [] then [] else [text.trim] := by
      rw [executes, if_pos hcr, h.selectedText_eq]
    rw [hexecutes]
    subst hcr
    split_ifs with hblank
    · exact (h.inputCr_ignores hblank (hallowed.enter rfl text h.selectedText_eq hblank)).gives
    · exact (h.inputCr_command hblank).gives
  rw [executes, if_neg hcr]
  unfold input
  split
  swap
  · by_cases hcombo : combo.modifiers ≠ CliModKeyNo ∨ combo.key < CliKey.Space ∨
        CliKey.DEL ≤ combo.key
    · exact (h.inputNormal_skip hcombo).gives
    · exact (h.inputNormal (by omega) (by omega)).gives
  next key action hfind =>
  have hkey : key = combo := by simpa using List.find?_some hfind
  have hmem := List.mem_of_find?_eq_some hfind
  simp only [keyComboSet, List.mem_cons, List.not_mem_nil, Prod.mk.injEq, or_false] at hmem
  rcases hmem with ⟨-, rfl⟩ | ⟨hcombo, rfl⟩ | ⟨-, rfl⟩ | ⟨-, rfl⟩ | ⟨-, rfl⟩ | ⟨-, rfl⟩ | ⟨-, rfl⟩ |
    ⟨-, rfl⟩ | ⟨-, rfl⟩ | ⟨-, rfl⟩ | ⟨-, rfl⟩ | ⟨hcombo, rfl⟩ | ⟨hcombo, rfl⟩ | ⟨hcombo, rfl⟩
  · exact h.inputCtrlC.gives
  · exact absurd (hkey.symm.trans hcombo) hcr
  · exact h.inputUpDown combo
  · exact h.inputUpDown combo
  · exact (h.inputLeftRight combo).gives
  · exact (h.inputLeftRight combo).gives
  · exact (h.leaves_move (Nat.zero_le _)).gives
  · exact h.inputEnd.gives
  · exact h.inputBksp.gives
  · exact h.inputBksp.gives
  · exact h.inputCtrlL.gives
  · have hskip := hallowed.skip (.inl (hkey.symm.trans hcombo)) text h.selectedText_eq
    exact h.inputCtrlLeftRight fun _ => hskip
  · refine h.inputCtrlLeftRight fun hleft => ?_
    rw [← hkey, hcombo] at hleft
    exact absurd hleft (by decide)
  · have hskip := hallowed.skip (.inr (hkey.symm.trans hcombo)) text h.selectedText_eq
    obtain ⟨start, -, hleaves⟩ := h.inputCtrlBksp hskip
    exact hleaves.gives

/-- A key that is not allowed leaves the cursor behind the line, or something outside is read. -/
theorem Inv.allowed_of_lawful (h : line.Inv) {combo : CliKeyCombo} (hlawful : line.Lawful combo) :
    line.Allowed combo := by
  obtain ⟨editing, entries, text, h⟩ := h
  obtain ⟨line', hinput, hwell, -⟩ := hlawful
  constructor
  · rintro rfl text' htext' hblank
    cases h.selectedText_eq.symm.trans htext'
    obtain ⟨strings, hresult, hpos, hslots⟩ := h.inputCr_blank hblank
    cases hinput.symm.trans hresult
    obtain ⟨text', htext', hcursor⟩ := hwell.cursor
    have hselected : getSelected { line with strings := strings } = .ok editing.1 :=
      hslots.slot_eq (c := (editing.1, [])) (by rw [hpos]; rfl)
    have hget := hslots.stringGet_eq (c := (editing.1, [])) List.mem_cons_self
    have hempty : selectedText { line with strings := strings } = .ok [] := by
      rw [selectedText, hselected]
      exact hget
    cases hempty.symm.trans htext'
    exact Nat.le_zero.1 hcursor
  · rintro hcombo text' htext'
    cases h.selectedText_eq.symm.trans htext'
    by_contra hrun
    rw [not_or] at hrun
    have hskip := (CliText.skipRun_left (Nat.pos_of_ne_zero hrun.1) h.cursor).2 hrun.2
    obtain ⟨p, hp, hget⟩ := h.getSelected_eq
    rcases hcombo with rfl | rfl
    · have hfault : line.inputCtrlLeftRight ⟨CliModKeyCtrl, CliKey.Left⟩ = .error .outOfRange := by
        simp only [inputCtrlLeftRight, hp, hget, if_true, hskip, bind, Except.bind]
      cases hinput.symm.trans hfault
    · obtain ⟨strings, hensure, hat⟩ := h.ensureNotOverwritingHistory_eq
      have hediting := hat.slots.slot_eq (i := 0) rfl
      have hget' := hat.slots.stringGet_eq (c := (editing.1, text)) List.mem_cons_self
      have hfault : line.inputCtrlBksp = .error .outOfRange := by
        simp only [inputCtrlBksp, hensure, getSelected, hediting, hget', hskip, bind, Except.bind]
      cases hinput.symm.trans hfault

theorem inv_alloc : alloc.Inv := by
  have howns : OwnsCells alloc.strings alloc.next [(1, [])] :=
    @OwnsCells.alloc CliText (fun _ => none) 1 [] ⟨List.nodup_nil, by simp, by simp⟩ []
  exact ⟨(1, []), [], [], ⟨rfl, rfl, rfl, howns⟩, rfl, le_rfl, rfl, by simp [alloc]⟩

theorem Inv.step (h : line.Inv) {line' : CliShellLine} {combo : CliKeyCombo}
    (hallowed : line.Allowed combo) (hinput : line.input combo = .ok line') : line'.Inv := by
  obtain ⟨line'', hinput', hinv, -⟩ := h.gives hallowed
  cases hinput.symm.trans hinput'
  exact hinv

theorem Inv.lawful (h : line.Inv) {combo : CliKeyCombo} (hallowed : line.Allowed combo) :
    line.Lawful combo := by
  obtain ⟨line', hinput, ⟨_, _, _, hat⟩, hexecuted⟩ := h.gives hallowed
  exact ⟨line', hinput, hat.wellFormed, hexecuted⟩

theorem keys_lawful_iff (keys : List CliKeyCombo) :
    alloc.WellFormed ∧ ExecAlong Lawful input alloc keys ↔ ExecAlong Allowed input alloc keys := by
  have hwell : alloc.WellFormed := by
    obtain ⟨_, _, _, hat⟩ := inv_alloc
    exact hat.wellFormed
  rw [and_iff_right hwell]
  constructor
  · exact ExecAlong.mono (P := Inv) (fun _ _ h hlawful => h.allowed_of_lawful hlawful)
      (fun _ _ _ h hlawful hinput => h.step (h.allowed_of_lawful hlawful) hinput) inv_alloc
  · exact ExecAlong.mono (P := Inv) (fun _ _ h hallowed => h.lawful hallowed)
      (fun _ _ _ h hallowed hinput => h.step hallowed hinput) inv_alloc

theorem not_keys_lawful :
    ¬∀ keys : List CliKeyCombo, alloc.WellFormed ∧ ExecAlong Lawful input alloc keys := by
  intro h
  obtain ⟨-, -, hrest⟩ := h [⟨CliModKeyNo, CliKey.Space⟩, ⟨CliModKeyNo, CliKey.CR⟩]
  obtain ⟨line', hinput, hwell, -⟩ := (hrest _ rfl).1
  cases hinput
  obtain ⟨text, htext, hcursor⟩ := hwell.cursor
  cases htext
  exact absurd hcursor (by decide)

end CliShellLine

end KiisuFirmware
