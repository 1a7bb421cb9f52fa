import Mathlib.Logic.Function.Iterate
import KiisuFirmware.Proofs.CliShell

/-!
# The menu of completions

The keys up and down go through the commands of the menu column by column. As long as the menu is
opened for new lines only, the selection stays in it and every command in it begins with the word
before the cursor, in the place of which Enter puts it.
-/

namespace KiisuFirmware

/-! ## The selection -/

namespace ShellComponents

variable {size i j : ℕ}

theorem rowsAtColumn_eq {x : ℕ} (hx : x < 3) :
    cliShellCompletionsRowsAtColumn size x = (size + 2 - x) / 3 := by
  rw [cliShellCompletionsRowsAtColumn, COMPLETION_COLUMNS]
  split_ifs
  · omega
  · omega

theorem move_down (hi : i < size) : cliShellCompletionsMove size i .down =
    if i + 3 < size then i + 3 else if i % 3 + 1 < min 3 size then i % 3 + 1 else 0 := by
  have hrows : cliShellCompletionsRowsAtColumn size ((i : ℤ) % 3).toNat =
      (size + 2 - i % 3) / 3 := by
    rw [rowsAtColumn_eq (by omega)]
    omega
  simp only [cliShellCompletionsMove, COMPLETION_COLUMNS, Nat.cast_ofNat, hrows, clampWraparound]
  grind

/-- The last column before that of the first row. -/
def columnBefore (size i : ℕ) : ℕ := if i = 0 then min 3 size - 1 else i - 1

theorem move_up (hi : i < size) : cliShellCompletionsMove size i .up =
    if 3 ≤ i then i - 3
    else 3 * ((size + 2 - columnBefore size i) / 3 - 1) + columnBefore size i := by
  have hcolumns : (COMPLETION_COLUMNS : ℤ) = 3 := rfl
  unfold cliShellCompletionsMove
  dsimp only
  by_cases h3 : 3 ≤ i
  · have hneg : ¬(i : ℤ) / COMPLETION_COLUMNS - 1 < 0 := by
      rw [hcolumns]
      omega
    rw [if_neg hneg, if_pos h3, hcolumns, clampWraparound]
    grind
  · have hpos : (i : ℤ) / COMPLETION_COLUMNS - 1 < 0 := by
      rw [hcolumns]
      omega
    have hbefore : clampWraparound ((i : ℤ) % COMPLETION_COLUMNS - 1)
        ((if COMPLETION_COLUMNS ≤ size then (COMPLETION_COLUMNS : ℤ) else size) - 1) 0 =
          columnBefore size i := by
      simp only [clampWraparound, columnBefore, COMPLETION_COLUMNS]
      grind
    have hlt : columnBefore size i < 3 ∧ columnBefore size i < size := by
      unfold columnBefore
      grind
    rw [if_pos hpos, if_neg h3, hbefore, Int.toNat_natCast, rowsAtColumn_eq hlt.1, hcolumns,
      clampWraparound]
    grind

theorem up_down (hi : i < size) : cliShellCompletionsMove size i .down < size ∧
    cliShellCompletionsMove size (cliShellCompletionsMove size i .down) .up = i := by
  have hlt : cliShellCompletionsMove size i .down < size := by
    rw [move_down hi]
    grind
  refine ⟨hlt, ?_⟩
  rw [move_up hlt, move_down hi]
  unfold columnBefore
  grind

/-- The place of a variant if the columns are gone through one after the other. -/
def rank (size i : ℕ) : ℕ :=
  i / 3 + if i % 3 = 0 then 0 else if i % 3 = 1 then (size + 2) / 3 else (2 * size + 2) / 3

theorem rank_lt (hi : i < size) : rank size i < size := by
  unfold rank
  grind

theorem rank_injective (hi : i < size) (hj : j < size) (h : rank size i = rank size j) :
    i = j := by
  unfold rank at h
  grind

theorem rank_down (hi : i < size) :
    rank size (cliShellCompletionsMove size i .down) = (rank size i + 1) % size := by
  have hlt := rank_lt hi
  have hnext : rank size (cliShellCompletionsMove size i .down) =
      if rank size i + 1 = size then 0 else rank size i + 1 := by
    rw [move_down hi]
    unfold rank
    by_cases hrow : i + 3 < size
    · rw [if_pos hrow]
      grind
    · rw [if_neg hrow]
      by_cases hcolumn : i % 3 + 1 < min 3 size
      · rw [if_pos hcolumn]
        grind
      · rw [if_neg hcolumn]
        grind
  rw [hnext]
  split_ifs with hlast
  · rw [hlast, Nat.mod_self]
  · rw [Nat.mod_eq_of_lt (by omega)]

theorem iterate_down (hi : i < size) : ∀ k,
    (cliShellCompletionsMove size · .down)^[k] i < size ∧
      rank size ((cliShellCompletionsMove size · .down)^[k] i) = (rank size i + k) % size ∧
      (cliShellCompletionsMove size · .up)^[k] ((cliShellCompletionsMove size · .down)^[k] i) = i
  | 0 => ⟨hi, (Nat.mod_eq_of_lt (rank_lt hi)).symm, rfl⟩
  | k + 1 => by
    obtain ⟨hlt, hrank, hup⟩ := iterate_down hi k
    rw [Function.iterate_succ_apply']
    refine ⟨(up_down hlt).1, ?_, ?_⟩
    · rw [rank_down hlt, hrank, Nat.mod_add_mod, Nat.add_assoc]
    · rw [Function.iterate_succ_apply, (up_down hlt).2, hup]

/-- From every variant the key down leads to every other one within one round, column by column, and
the key up leads back. -/
theorem down_visits (hi : i < size) (hj : j < size) : ∃ k < size,
    (cliShellCompletionsMove size · .down)^[k] i = j ∧
      (cliShellCompletionsMove size · .up)^[k] j = i := by
  have hrank := rank_lt hi
  have hrank' := rank_lt hj
  obtain ⟨k, hk, hplace⟩ : ∃ k < size, (rank size i + k) % size = rank size j := by
    refine ⟨(rank size j + size - rank size i) % size, Nat.mod_lt _ (by omega), ?_⟩
    rw [Nat.add_mod_mod, Nat.add_sub_cancel' (by omega), Nat.add_mod_right, Nat.mod_eq_of_lt hrank']
  obtain ⟨hlt, hrankk, hup⟩ := iterate_down hi k
  obtain rfl := rank_injective hlt hj (hrankk.trans hplace)
  exact ⟨k, hk, rfl, hup⟩

theorem down_visits_seven : ∃ k < 7, (cliShellCompletionsMove 7 · .down)^[k] 5 = 3 ∧
    (cliShellCompletionsMove 7 · .up)^[k] 3 = 5 :=
  down_visits (by decide) (by decide)

end ShellComponents

/-! ## What is completed -/

namespace CliText

theorem searchChar_eq (input : CliText) {start : ℕ} (hstart : start ≤ input.length) :
    ∃ result, input.searchChar 0x20 start = .ok result ∧
      ∀ ret ∈ result, start ≤ ret ∧ ret < input.length := by
  refine ⟨_, if_pos hstart, fun ret hret => ?_⟩
  obtain ⟨k, hk, rfl⟩ := Option.map_eq_some_iff.1 hret
  obtain ⟨hlt, -⟩ := List.findIdx?_eq_some_iff_getElem.1 hk
  rw [List.length_drop] at hlt
  omega

theorem firstNonSpace_eq (input : CliText) : ∀ (turns : ℕ) {first : ℕ}, first ≤ input.length →
    input.length < turns + first →
      ∃ result, input.firstNonSpace turns first = .ok result ∧ result ≤ input.length
  | 0, first, hfirst, hturns => by omega
  | turns + 1, first, hfirst, hturns => by
    obtain ⟨result, hresult, hbound⟩ := input.searchChar_eq hfirst
    simp only [firstNonSpace, hresult, bind, Except.bind]
    cases result with
    | none => exact ⟨first, rfl, hfirst⟩
    | some ret =>
      have hret := hbound ret rfl
      dsimp only
      split_ifs
      · exact ⟨first, rfl, hfirst⟩
      · exact firstNonSpace_eq input turns (by omega) (by omega)

/-- What is completed is the last part of what is before the cursor. -/
theorem segment_eq (input : CliText) : ∃ segment, input.segment = .ok segment ∧
    (segment.type = .command → ∃ before word, input = before ++ word ∧
      segment.start = before.length ∧ segment.length = word.length) := by
  obtain ⟨first, hfirst, hle⟩ :=
    input.firstNonSpace_eq (input.length + 1) (Nat.zero_le _) (by omega)
  obtain ⟨result, hresult, -⟩ := input.searchChar_eq hle
  simp only [segment, hfirst, hresult, bind, Except.bind]
  cases result with
  | none =>
    refine ⟨_, rfl, fun _ => ⟨input.take first, input.drop first,
      (List.take_append_drop _ _).symm, ?_, ?_⟩⟩
    · rw [List.length_take, Nat.min_eq_left hle]
    · rw [List.length_drop]
  | some ret => exact ⟨_, rfl, nofun⟩

end CliText

namespace ShellComponents

open CliShellLine

variable {shell : ShellComponents} {combo : CliKeyCombo}

/-- A command that begins with the word before the cursor, in the place of which it can be put. -/
def Offers (shell : ShellComponents) (command : CliText) : Prop :=
  ∃ before word after, shell.line.Cut ⟨before ++ word, after⟩ ∧
    shell.getSegment = .ok ⟨.command, before.length, word.length⟩ ∧ word <+: command

/-- The selection of the menu is one of its commands, which are for the line that is edited. -/
structure Menu (shell : ShellComponents) : Prop where
  position : shell.line.historyPosition = 0
  selected : shell.completions.variants ≠ [] →
    shell.completions.selected < shell.completions.variants.length
  offers : ∀ command ∈ shell.completions.variants, shell.Offers command

theorem getEditing_eq {line : CliShellLine} {zipper : Zipper} (h : line.Cut zipper)
    (hpos : line.historyPosition = 0) : ∃ p, line.getEditing = .ok p ∧
      line.getSelected = .ok p ∧ line.stringGet p = .ok (zipper.before ++ zipper.after) := by
  obtain ⟨⟨editing, entries, hat⟩, -⟩ := h
  obtain ⟨p, hp, hget⟩ := hat.getSelected_eq
  refine ⟨p, ?_, hp, hget⟩
  rw [← hp, getSelected, hpos]
  rfl

theorem fillVariants_eq {zipper : Zipper} (h : shell.line.Cut zipper)
    (hpos : shell.line.historyPosition = 0) : ∃ variants,
      shell.fillVariants = .ok variants ∧ ∀ command ∈ variants, shell.Offers command := by
  obtain ⟨p, hediting, -, hget⟩ := getEditing_eq h hpos
  have hcut : (zipper.before ++ zipper.after).take shell.line.linePosition =
      zipper.before := by
    rw [h.2, List.take_left]
  obtain ⟨⟨type, start, length⟩, hsegment, hcommand⟩ := zipper.before.segment_eq
  have hget' : shell.getSegment = .ok ⟨type, start, length⟩ := by
    simp only [getSegment, hediting, hget, hcut, hsegment, bind, Except.bind]
  simp only [fillVariants, hget', hediting, hget, bind, Except.bind]
  cases type with
  | arguments => exact ⟨[], rfl, by simp⟩
  | command =>
    obtain ⟨before, word, hbefore, rfl, rfl⟩ := hcommand rfl
    refine ⟨_, rfl, fun command hmem => ⟨before, word, zipper.after, hbefore ▸ h, hget', ?_⟩⟩
    have hprefix := (List.mem_filter.1 hmem).2
    rw [hbefore, List.append_assoc, List.drop_left, List.take_left, List.isPrefixOf_iff_prefix]
      at hprefix
    exact hprefix

/-- A command of the menu takes the place of the word before the cursor, which it begins with. -/
def Completes (shell : ShellComponents) (line : CliShellLine) : Prop :=
  (shell.completions.variants = [] ∧ line = shell.line) ∨
    ∃ before word after, ∃ command ∈ shell.completions.variants,
      shell.line.Cut ⟨before ++ word, after⟩ ∧ word <+: command ∧
        line.Cut ⟨before ++ command, after⟩

theorem Completes.inv {line : CliShellLine} (h : shell.Completes line)
    (hinv : shell.line.Inv) : line.Inv := by
  rcases h with ⟨-, rfl⟩ | ⟨_, _, _, _, _, _, _, ⟨editing, entries, hat⟩, -⟩
  · exact hinv
  · exact ⟨editing, entries, _, hat⟩

theorem renderSelectNoClose_eq (hmenu : shell.Menu) : ∃ line,
    shell.renderSelectNoClose = .ok { shell with line := line } ∧
      shell.Completes line ∧ line.executed = shell.line.executed := by
  by_cases hnil : shell.completions.variants = []
  · exact ⟨shell.line, if_pos hnil, .inl ⟨hnil, rfl⟩, rfl⟩
  have hlt := hmenu.selected hnil
  obtain ⟨before, word, after, hcut, hsegment, hword⟩ := hmenu.offers _ (List.getElem_mem hlt)
  have hvariant := List.getElem?_eq_getElem hlt
  have hmem := List.getElem_mem hlt
  generalize shell.completions.variants[shell.completions.selected] = command
    at hword hvariant hmem
  obtain ⟨p, hediting, hselected, hget⟩ := getEditing_eq hcut hmenu.position
  obtain ⟨⟨editing, entries, hat⟩, hcursor⟩ := hcut
  have hreplace : (before ++ word ++ after).replaceAt before.length word.length command =
      .ok (before ++ command ++ after) := by
    have htake : (before ++ word ++ after).take before.length = before := by
      rw [List.append_assoc, List.take_left]
    have hdrop : (before ++ word ++ after).drop (before.length + word.length) = after := by
      rw [← List.length_append, List.drop_left]
    rw [CliText.replaceAt, if_pos (by simp), htake, hdrop]
  have hlength : (before ++ command).length ≤ (before ++ command ++ after).length := by
    rw [@List.length_append _ (before ++ command)]
    omega
  obtain ⟨strings, hset, hat'⟩ := hat.edit (before ++ command ++ after) hlength
  obtain rfl : editing.1 = p :=
    Except.ok.inj ((hat.slots.slot_eq (i := 0) rfl).symm.trans hediting)
  have hposition : (max 0 ((shell.line.linePosition : ℤ) +
      (command.length - word.length))).toNat = (before ++ command).length := by
    rw [hcursor, List.length_append, List.length_append]
    omega
  refine ⟨{ shell.line with
      linePosition := (before ++ command).length
      strings := strings }, ?_, .inr ⟨before, word, after, command, hmem,
    ⟨⟨editing, entries, hat⟩, hcursor⟩, hword,
    ⟨⟨(editing.1, before ++ command ++ after), entries, ?_⟩, rfl⟩⟩, rfl⟩
  · dsimp only at hget
    simp only [renderSelectNoClose, if_neg hnil, hsegment, hselected, hvariant, hget, hreplace,
      hset, hposition, bind, Except.bind]
    rfl
  · have hzero := hmenu.position
    rw [← hzero] at hat'
    exact hat'

/-! ## Every key -/

theorem press_handled {combo' : CliKeyCombo}
    {action : ShellComponents → CliKeyCombo → Handling} {next : ShellComponents}
    (hfind : keyComboSet.find? (·.1 = combo) = some (combo', action))
    (haction : action shell combo = .ok (true, next))
    (hkey : combo.key ≠ CliKey.Unrecognized) : shell.press combo = .ok next := by
  simp only [press, processParserResult, if_neg hkey, completionsInput, hfind, haction, bind,
    Except.bind]
  rfl

/-- A key that the menu does not handle closes it. -/
theorem press_passed (hdisplaying : shell.completions.isDisplaying = true)
    (hkey : combo.key ≠ CliKey.Unrecognized) (hkeys : combo ∉ keyComboSet.map Prod.fst) :
    shell.press combo = shell.renderClose.press combo := by
  have hfind : keyComboSet.find? (·.1 = combo) = none := by
    rw [List.find?_eq_none]
    intro key hkey hcombo
    exact hkeys (List.mem_map.2 ⟨key, hkey, of_decide_eq_true hcombo⟩)
  have hhide : shell.hideIfOpenAndContinueHandling = shell.renderClose :=
    if_pos hdisplaying
  have hhide' : shell.renderClose.hideIfOpenAndContinueHandling = shell.renderClose :=
    if_neg Bool.false_ne_true
  simp only [press, processParserResult, if_neg hkey, completionsInput, hfind, hhide, hhide', bind,
    Except.bind]

theorem move_lt {size : ℕ} (hsize : 0 < size) (old : ℕ) (action : CliShellCompletionsAction) :
    cliShellCompletionsMove size old action < size := by
  unfold cliShellCompletionsMove
  dsimp only
  rw [clampWraparound]
  split_ifs <;> omega

structure Inv (shell : ShellComponents) : Prop where
  line : shell.line.Inv
  menu : shell.completions.isDisplaying = true → shell.Menu

/-- The editor is well-formed, and what can be selected in the menu can be put into the line. -/
structure WellFormed (shell : ShellComponents) : Prop where
  line : shell.line.WellFormed
  menu : shell.completions.isDisplaying = true → shell.Menu

/-- The menu is opened for a new line only, and what it does not handle is allowed in the line. -/
def Allowed (shell : ShellComponents) (combo : CliKeyCombo) : Prop :=
  if combo ∈ keyComboSet.map Prod.fst ∧ shell.completions.isDisplaying = true then True
  else if combo = ⟨CliModKeyNo, CliKey.Tab⟩ then shell.line.historyPosition = 0
  else shell.line.Allowed combo

/-- A key, or a change of the commands that there are. -/
def handle (shell : ShellComponents) : CliKeyCombo ⊕ List CliText →
    Except CliShellFault ShellComponents
  | .inl combo => shell.press combo
  | .inr registry => .ok { shell with registry := registry }

theorem Menu.renderMove (h : shell.Menu) (action : CliShellCompletionsAction) :
    (shell.renderMove action).Menu := by
  unfold ShellComponents.renderMove
  split_ifs with hnil
  · exact h
  · exact ⟨h.position, fun _ => move_lt (List.length_pos_iff.2 hnil) _ _, h.offers⟩

theorem executes_eq_nil {line : CliShellLine} (hcombo : combo ≠ ⟨CliModKeyNo, CliKey.CR⟩) :
    line.executed = line.executed ++ line.executes combo := by
  rw [executes, if_neg hcombo, List.append_nil]

/-- A key that leads to where the invariant holds. -/
def Gives (shell : ShellComponents) (combo : CliKeyCombo) : Prop :=
  ∃ next, shell.press combo = .ok next ∧ next.Inv ∧
    next.line.executed = shell.line.executed ++
      if shell.completions.isDisplaying then [] else shell.line.executes combo

theorem press_enter (hdisplaying : shell.completions.isDisplaying = true)
    (hmenu : shell.Menu) : ∃ line, shell.press ⟨CliModKeyNo, CliKey.CR⟩ =
      .ok { shell with line := line }.renderClose ∧ shell.Completes line ∧
        line.executed = shell.line.executed := by
  obtain ⟨line, hselect, hcompletes, hexecuted⟩ := renderSelectNoClose_eq hmenu
  have hcr : shell.keyComboCr = .ok (true, { shell with line := line }.renderClose) := by
    rw [keyComboCr, whileDisplaying, if_pos hdisplaying, renderSelect, hselect]
    rfl
  exact ⟨line, press_handled rfl hcr (by decide), hcompletes, hexecuted⟩

theorem Inv.gives_menu (h : shell.Inv)
    (hdisplaying : shell.completions.isDisplaying = true)
    (hkeys : combo ∈ keyComboSet.map Prod.fst) : shell.Gives combo := by
  have hmenu := h.menu hdisplaying
  have hmove : ∀ action, (shell.renderMove action).Inv ∧
      (shell.renderMove action).line.executed = shell.line.executed ++
        if shell.completions.isDisplaying then [] else shell.line.executes combo := by
    intro action
    have hline : (shell.renderMove action).line = shell.line := by
      unfold ShellComponents.renderMove
      split_ifs <;> rfl
    exact ⟨⟨hline ▸ h.line, fun _ => hmenu.renderMove action⟩,
      by rw [hline, if_pos hdisplaying, List.append_nil]⟩
  have hwhile : ∀ action, shell.whileDisplaying action = _ := fun _ => if_pos hdisplaying
  simp only [keyComboSet, List.map_cons, List.map_nil, List.mem_cons, List.not_mem_nil, or_false]
    at hkeys
  rcases hkeys with rfl | rfl | rfl | rfl | rfl | rfl | rfl
  · obtain ⟨line, hpress, hcompletes, hexecuted⟩ := press_enter hdisplaying hmenu
    refine ⟨_, hpress, ⟨hcompletes.inv h.line, fun hopened => ?_⟩, ?_⟩
    · exact absurd hopened Bool.false_ne_true
    rw [if_pos hdisplaying, List.append_nil]
    exact hexecuted
  · exact ⟨_, press_handled rfl (hwhile _) (by decide), hmove _⟩
  · exact ⟨_, press_handled rfl (hwhile _) (by decide), hmove _⟩
  · exact ⟨_, press_handled rfl (hwhile _) (by decide), hmove _⟩
  · exact ⟨_, press_handled rfl (hwhile _) (by decide), hmove _⟩
  · exact ⟨_, press_handled rfl (if_pos hdisplaying) (by decide), hmove _⟩
  · refine ⟨_, press_handled rfl (hwhile _) (by decide),
      ⟨h.line, fun hopened => absurd hopened Bool.false_ne_true⟩, ?_⟩
    rw [if_pos hdisplaying, List.append_nil]
    rfl

theorem Inv.gives_tab (h : shell.Inv) (hclosed : shell.completions.isDisplaying = false)
    (hpos : shell.line.historyPosition = 0) :
    shell.Gives ⟨CliModKeyNo, CliKey.Tab⟩ := by
  obtain ⟨editing, entries, text, hat⟩ := h.line
  have hcut : shell.line.Cut ⟨text.take shell.line.linePosition,
      text.drop shell.line.linePosition⟩ := by
    refine ⟨⟨editing, entries, ?_⟩, ?_⟩
    · dsimp only
      rwa [List.take_append_drop]
    · rw [List.length_take, Nat.min_eq_left hat.cursor]
  obtain ⟨variants, hfill, hoffers⟩ := fillVariants_eq hcut hpos
  have hexecutes : ∀ line : CliShellLine, line.executed = shell.line.executed →
      line.executed = shell.line.executed ++ if shell.completions.isDisplaying then []
        else shell.line.executes ⟨CliModKeyNo, CliKey.Tab⟩ := by
    intro line hline
    rw [if_neg (by rw [hclosed]; decide), hline]
    exact executes_eq_nil (by decide)
  have hmenu : ∀ isDisplaying, Menu ⟨⟨variants, 0, isDisplaying⟩, shell.line,
      shell.registry⟩ := fun _ =>
    ⟨hpos, fun hne => List.length_pos_iff.2 hne, hoffers⟩
  have htab : ∀ {next}, shell.renderOpen = .ok next →
      shell.press ⟨CliModKeyNo, CliKey.Tab⟩ = .ok next := by
    intro next hopen
    refine press_handled rfl ?_ (by decide)
    simp only [keyComboTab, hclosed, hopen, bind, Except.bind]
    rfl
  by_cases hone : variants.length = 1
  · obtain ⟨line, hselect, hcompletes, hexecuted⟩ :=
      renderSelectNoClose_eq (hmenu shell.completions.isDisplaying)
    have hopen : shell.renderOpen = .ok ⟨⟨variants, 0, shell.completions.isDisplaying⟩,
        line, shell.registry⟩ := by
      simp only [renderOpen, hfill, if_pos hone, hselect, bind, Except.bind]
    refine ⟨_, htab hopen, ⟨hcompletes.inv h.line, fun hopened => ?_⟩, hexecutes line hexecuted⟩
    exact absurd (hclosed.symm.trans hopened) Bool.false_ne_true
  · have hopen : shell.renderOpen = .ok ⟨⟨variants, 0, true⟩, shell.line,
        shell.registry⟩ := by
      simp only [renderOpen, hfill, if_neg hone, bind, Except.bind]
      rfl
    exact ⟨_, htab hopen, ⟨h.line, fun _ => hmenu true⟩, hexecutes _ rfl⟩

theorem Inv.gives_line (h : shell.Inv) (hclosed : shell.completions.isDisplaying = false)
    (hkey : combo.key ≠ CliKey.Unrecognized) (htab : combo ≠ ⟨CliModKeyNo, CliKey.Tab⟩)
    (hallowed : shell.line.Allowed combo) : shell.Gives combo := by
  obtain ⟨line, hinput, hinv, hexecuted⟩ := h.line.gives hallowed
  refine ⟨{ shell with line := line }, ?_, ⟨hinv, fun hopened => ?_⟩, ?_⟩
  · rw [press_closed hclosed htab hkey, hinput]
    rfl
  · exact absurd (hclosed.symm.trans hopened) Bool.false_ne_true
  · rw [if_neg (by rw [hclosed]; decide)]
    exact hexecuted

theorem Inv.gives (h : shell.Inv) (hallowed : shell.Allowed combo) :
    shell.Gives combo := by
  by_cases hkey : combo.key = CliKey.Unrecognized
  · have hcr : combo ≠ ⟨CliModKeyNo, CliKey.CR⟩ := by
      rintro rfl
      exact absurd hkey (by decide)
    refine ⟨shell, if_pos hkey, h, ?_⟩
    split_ifs
    · rw [List.append_nil]
    · exact executes_eq_nil hcr
  unfold Allowed at hallowed
  cases hdisplaying : shell.completions.isDisplaying with
  | false =>
    rw [if_neg (by simp [hdisplaying])] at hallowed
    split_ifs at hallowed with htab
    · rw [htab]
      exact h.gives_tab hdisplaying hallowed
    · exact h.gives_line hdisplaying hkey htab hallowed
  | true =>
    by_cases hkeys : combo ∈ keyComboSet.map Prod.fst
    · exact h.gives_menu hdisplaying hkeys
    · have htab : combo ≠ ⟨CliModKeyNo, CliKey.Tab⟩ := by
        rintro rfl
        exact hkeys (by decide)
      have hcr : combo ≠ ⟨CliModKeyNo, CliKey.CR⟩ := by
        rintro rfl
        exact hkeys (by decide)
      rw [if_neg (fun hand => hkeys hand.1), if_neg htab] at hallowed
      have hclosed : shell.renderClose.Inv := ⟨h.line, nofun⟩
      obtain ⟨next, hpress, hinv, hexecuted⟩ := hclosed.gives_line rfl hkey htab hallowed
      refine ⟨next, (press_passed hdisplaying hkey hkeys).trans hpress, hinv, ?_⟩
      rw [if_pos hdisplaying, List.append_nil, hexecuted]
      exact (executes_eq_nil hcr).symm

/-- No access is a fault, and the shell is well-formed afterwards. Enter executes what is entered,
or it takes a command of the menu into the line. -/
def Lawful (shell : ShellComponents) : CliKeyCombo ⊕ List CliText → Prop
  | .inl combo => ∃ next, shell.press combo = .ok next ∧
      next.WellFormed ∧ (next.line.executed = shell.line.executed ++
        if shell.completions.isDisplaying then [] else shell.line.executes combo) ∧
      (shell.completions.isDisplaying = true → combo = ⟨CliModKeyNo, CliKey.CR⟩ →
        shell.Completes next.line)
  | .inr _ => True

theorem Inv.wellFormed (h : shell.Inv) : shell.WellFormed := by
  obtain ⟨_, _, _, hat⟩ := h.line
  exact ⟨hat.wellFormed, h.menu⟩

/-- In a run in which the menu is opened for new lines only and no key does what the editor does not
allow, every key is lawful, whatever commands are added and removed. -/
theorem events_lawful (registry : List CliText) {events : List (CliKeyCombo ⊕ List CliText)}
    (hallowed : ExecAlong (fun shell event => ∀ combo, event = .inl combo →
      shell.Allowed combo) handle (CliShell.init registry).components events) :
    ExecAlong Lawful handle (CliShell.init registry).components events := by
  have hinit : (CliShell.init registry).components.Inv := ⟨inv_alloc, nofun⟩
  refine ExecAlong.mono (P := Inv) (fun shell event h hallowed => ?_)
    (fun shell event next h hallowed hhandle => ?_) hinit hallowed
  · rcases event with combo | registry
    · obtain ⟨next, hpress, hinv, hexecuted⟩ := h.gives (hallowed combo rfl)
      refine ⟨next, hpress, hinv.wellFormed, hexecuted, ?_⟩
      rintro hdisplaying rfl
      obtain ⟨line, hpress', hcompletes, -⟩ := press_enter hdisplaying (h.menu hdisplaying)
      cases hpress.symm.trans hpress'
      exact hcompletes
    · trivial
  · rcases event with combo | registry
    · obtain ⟨next, hpress, hinv, -⟩ := h.gives (hallowed combo rfl)
      cases hhandle.symm.trans hpress
      exact hinv
    · cases hhandle
      exact ⟨h.line, fun hopened =>
        ⟨(h.menu hopened).position, (h.menu hopened).selected, (h.menu hopened).offers⟩⟩

/-- A letter, the menu of the commands that begin with it, the second one of these and Enter. -/
theorem events_lawful_menu : ExecAlong Lawful handle
    (CliShell.init [[0x68, 0x65], [0x68, 0x69]]).components
    [.inl ⟨0, 0x68⟩, .inl ⟨0, CliKey.Tab⟩, .inl ⟨0, CliKey.Right⟩, .inl ⟨0, CliKey.CR⟩] := by
  refine events_lawful _ ⟨?_, ?_⟩
  · rintro _ ⟨⟩
    exact ⟨fun hcr => absurd hcr (by decide), fun hskip => absurd hskip (by decide)⟩
  rintro _ ⟨⟩
  refine ⟨?_, ?_⟩
  · rintro _ ⟨⟩
    exact (rfl : (0 : ℕ) = 0)
  rintro _ ⟨⟩
  refine ⟨?_, ?_⟩
  · rintro _ ⟨⟩
    exact trivial
  rintro _ ⟨⟩
  refine ⟨?_, fun _ _ => trivial⟩
  rintro _ ⟨⟩
  exact trivial

end ShellComponents

end KiisuFirmware
