import KiisuFirmware.CliShell
import KiisuFirmware.Proofs.CliShellLine

/-!
# What the shell makes of what is typed

Keys are sent as words, of which the parser reads each as the key that it encodes. The keys that edit
a line leave in it what they leave in a text that is cut at the cursor.
-/

namespace KiisuFirmware

/-! ## Keys as they are sent -/

namespace CliAnsiParser

/-- What a key is sent as, a character or a timeout at a time. A sequence that is not ended in time
is no key. -/
inductive Encodes : List (Option UInt8) → Option CliKeyCombo → Prop
  | idle : Encodes [none] none
  | char {c : UInt8} : c ≠ 0x1B → Encodes [c] (some ⟨CliModKeyNo, c.toNat⟩)
  | esc {last : Option UInt8} : last = none ∨ last = some 0x1B →
      Encodes [some 0x1B, last] (some ⟨CliModKeyNo, CliKey.Esc⟩)
  | alt {c : UInt8} : c ≠ 0x1B → c ≠ 0x5B →
      Encodes [some 0x1B, some c] (some ⟨CliModKeyAlt, c.toNat⟩)
  | special {c : UInt8} : c ≠ 0x31 →
      Encodes [some 0x1B, some 0x5B, some c] (some ⟨CliModKeyNo, cliAnsiKeyFromMnemonic c⟩)
  | unrecognized {c : UInt8} : c ≠ 0x3B →
      Encodes [some 0x1B, some 0x5B, some 0x31, some c] (some ⟨CliModKeyNo, CliKey.Unrecognized⟩)
  | modified {c key : UInt8} :
      Encodes [some 0x1B, some 0x5B, some 0x31, some 0x3B, some c, some key]
        (some ⟨modifiersOf c, cliAnsiKeyFromMnemonic key⟩)
  | late {sent : List (Option UInt8)} : sent ≠ [] →
      sent <+: [some 0x5B, some 0x31, some 0x3B] → Encodes (some 0x1B :: sent ++ [none]) none
  | lateModified {c : UInt8} :
      Encodes [some 0x1B, some 0x5B, some 0x31, some 0x3B, some c, none] none

/-- What has been sent of a key that has not ended. -/
def Pending : CliAnsiParser → List (Option UInt8) → Prop
  | ⟨.initial, _⟩, sent => sent = []
  | ⟨.escape, _⟩, sent => sent = [some 0x1B]
  | ⟨.escapeBrace, _⟩, sent => sent = [some 0x1B, some 0x5B]
  | ⟨.escapeBraceOne, _⟩, sent => sent = [some 0x1B, some 0x5B, some 0x31]
  | ⟨.escapeBraceOneSemicolon, _⟩, sent => sent = [some 0x1B, some 0x5B, some 0x31, some 0x3B]
  | ⟨.escapeBraceOneSemicolonModifiers, modifiers⟩, sent => ∃ c,
      sent = [some 0x1B, some 0x5B, some 0x31, some 0x3B, some c] ∧ modifiers = modifiersOf c

/-- The keys that come of some inputs, and the parser after them. -/
def parse : CliAnsiParser → List (Option UInt8) → CliAnsiParser × List CliKeyCombo
  | parser, [] => (parser, [])
  | parser, input :: inputs =>
    let (parser, key) := parser.step input
    let (parser, keys) := parser.parse inputs
    (parser, key.toList ++ keys)

theorem step_pending {parser : CliAnsiParser} {sent : List (Option UInt8)}
    (h : parser.Pending sent) (input : Option UInt8) :
    ((parser.step input).1.state = .initial ∧ Encodes (sent ++ [input]) (parser.step input).2) ∨
      ((parser.step input).2 = none ∧ (parser.step input).1.Pending (sent ++ [input])) := by
  obtain ⟨state, modifiers⟩ := parser
  cases state with
  | initial =>
    cases h
    cases input with
    | none => exact .inl ⟨rfl, .idle⟩
    | some c =>
      simp only [step, feed]
      split_ifs with hc
      · exact .inl ⟨rfl, .char hc⟩
      · cases not_not.1 hc
        exact .inr ⟨rfl, rfl⟩
  | escape =>
    cases h
    cases input with
    | none => exact .inl ⟨rfl, .esc (.inl rfl)⟩
    | some c =>
      simp only [step, feed]
      split_ifs with hesc hc
      · cases hesc
        exact .inl ⟨rfl, .esc (.inr rfl)⟩
      · exact .inl ⟨rfl, .alt hesc hc⟩
      · cases not_not.1 hc
        exact .inr ⟨rfl, rfl⟩
  | escapeBrace =>
    cases h
    cases input with
    | none => exact .inl ⟨rfl, .late (by simp) ⟨_, rfl⟩⟩
    | some c =>
      simp only [step, feed]
      split_ifs with hc
      · exact .inl ⟨rfl, .special hc⟩
      · cases not_not.1 hc
        exact .inr ⟨rfl, rfl⟩
  | escapeBraceOne =>
    cases h
    cases input with
    | none => exact .inl ⟨rfl, .late (by simp) ⟨_, rfl⟩⟩
    | some c =>
      simp only [step, feed]
      split_ifs with hc
      · exact .inl ⟨rfl, .unrecognized hc⟩
      · cases not_not.1 hc
        exact .inr ⟨rfl, rfl⟩
  | escapeBraceOneSemicolon =>
    cases h
    cases input with
    | none => exact .inl ⟨rfl, .late (by simp) List.prefix_rfl⟩
    | some c => exact .inr ⟨rfl, c, rfl, rfl⟩
  | escapeBraceOneSemicolonModifiers =>
    obtain ⟨c, rfl, rfl⟩ := h
    cases input with
    | none => exact .inl ⟨rfl, .lateModified⟩
    | some key => exact .inl ⟨rfl, .modified⟩

theorem Pending.initial {parser : CliAnsiParser} (h : parser.state = .initial) :
    parser.Pending [] := by
  obtain ⟨state, modifiers⟩ := parser
  cases h
  rfl

theorem Encodes.parse_eq {sent : List (Option UInt8)} {key : Option CliKeyCombo}
    (h : Encodes sent key) {parser : CliAnsiParser} (hinitial : parser.state = .initial) :
    (parser.parse sent).1.state = .initial ∧ (parser.parse sent).2 = key.toList := by
  obtain ⟨state, modifiers⟩ := parser
  cases hinitial
  cases h with
  | idle => exact ⟨rfl, rfl⟩
  | char hc => simp [parse, step, feed, resetAndReturn, hc]
  | esc hlast =>
    rcases hlast with rfl | rfl
    · exact ⟨rfl, rfl⟩
    · exact ⟨rfl, rfl⟩
  | alt hesc hc => simp [parse, step, feed, goTo, resetAndReturn, hesc, hc]
  | special hc => simp [parse, step, feed, goTo, resetAndReturn, hc]
  | unrecognized hc => simp [parse, step, feed, goTo, resetAndReturn, hc]
  | modified => exact ⟨rfl, rfl⟩
  | lateModified => exact ⟨rfl, rfl⟩
  | @late sent hne hbefore =>
    rcases sent with _ | ⟨a, _ | ⟨b, _ | ⟨c, rest⟩⟩⟩
    · exact absurd rfl hne
    all_goals
      simp only [List.cons_prefix_cons, List.prefix_nil] at hbefore
    · cases hbefore.1
      exact ⟨rfl, rfl⟩
    · obtain ⟨rfl, rfl, -⟩ := hbefore
      exact ⟨rfl, rfl⟩
    · obtain ⟨rfl, rfl, rfl, rfl⟩ := hbefore
      exact ⟨rfl, rfl⟩

theorem parse_append : ∀ (inputs inputs' : List (Option UInt8)) (parser : CliAnsiParser),
    parser.parse (inputs ++ inputs') = (((parser.parse inputs).1.parse inputs').1,
      (parser.parse inputs).2 ++ ((parser.parse inputs).1.parse inputs').2)
  | [], _, _ => rfl
  | input :: inputs, inputs', parser => by
    simp only [List.cons_append, parse, parse_append inputs inputs', List.append_assoc]

/-- A word of some inputs, and the key that it encodes. -/
abbrev Word := List (Option UInt8) × Option CliKeyCombo

theorem parse_words : ∀ {words : List Word}, (∀ word ∈ words, Encodes word.1 word.2) →
    ∀ {parser : CliAnsiParser}, parser.state = .initial →
      (parser.parse (words.flatMap Prod.fst)).1.state = .initial ∧
        (parser.parse (words.flatMap Prod.fst)).2 = words.filterMap Prod.snd
  | [], _, _, hinitial => ⟨hinitial, rfl⟩
  | (sent, key) :: words, hwords, parser, hinitial => by
    obtain ⟨hfirst, hkey⟩ := (hwords _ List.mem_cons_self).parse_eq hinitial
    obtain ⟨hrest, hkeys⟩ := parse_words
      (fun word hword => hwords word (List.mem_cons_of_mem _ hword)) hfirst
    rw [List.flatMap_cons, parse_append]
    refine ⟨hrest, ?_⟩
    rw [hkey, hkeys]
    cases key with
    | none => rfl
    | some key => rfl

/-- Every input is cut into words, but for the last ones. -/
theorem Pending.words : ∀ (inputs : List (Option UInt8)) {parser : CliAnsiParser}
    {sent : List (Option UInt8)}, parser.Pending sent → ∃ (words : List Word)
      (rest : List (Option UInt8)), (∀ word ∈ words, Encodes word.1 word.2) ∧
        sent ++ inputs = words.flatMap Prod.fst ++ rest ∧ (parser.parse inputs).1.Pending rest ∧
        (parser.parse inputs).2 = words.filterMap Prod.snd
  | [], parser, sent, h => ⟨[], sent, by simp, by simp, h, rfl⟩
  | input :: inputs, parser, sent, h => by
    rcases step_pending h input with ⟨hinitial, hencodes⟩ | ⟨hnone, hpending⟩
    · obtain ⟨words, rest, hwords, hinputs, hrest, hkeys⟩ :=
        Pending.words inputs (Pending.initial hinitial)
      refine ⟨(sent ++ [input], (parser.step input).2) :: words, rest, ?_, ?_, hrest, ?_⟩
      · exact List.forall_mem_cons.2 ⟨hencodes, hwords⟩
      · rw [List.flatMap_cons, List.append_assoc, ← hinputs, List.nil_append, List.append_assoc]
        rfl
      · simp only [parse, hkeys]
        cases (parser.step input).2 with
        | none => rfl
        | some key => rfl
    · obtain ⟨words, rest, hwords, hinputs, hrest, hkeys⟩ := Pending.words inputs hpending
      refine ⟨words, rest, hwords, ?_, hrest, ?_⟩
      · rw [← hinputs, List.append_assoc]
        rfl
      · simp only [parse, hnone, hkeys]
        rfl

/-- The inputs after which the parser is where it began are those that are made of words, and the keys
are those of the words. -/
theorem parses_iff (inputs : List (Option UInt8)) (keys : List CliKeyCombo) :
    (∃ parser, alloc.parse inputs = (parser, keys) ∧ parser.state = .initial) ↔
      ∃ words : List Word, (∀ word ∈ words, Encodes word.1 word.2) ∧
        words.flatMap Prod.fst = inputs ∧ words.filterMap Prod.snd = keys := by
  constructor
  · rintro ⟨parser, hparse, hinitial⟩
    obtain ⟨words, rest, hwords, hinputs, hrest, hkeys⟩ :=
      Pending.words inputs (@Pending.initial alloc rfl)
    rw [hparse] at hrest hkeys
    obtain ⟨state, modifiers⟩ := parser
    cases hinitial
    cases hrest
    exact ⟨words, hwords, by simpa using hinputs.symm, hkeys.symm⟩
  · rintro ⟨words, hwords, rfl, rfl⟩
    obtain ⟨hinitial, hkeys⟩ := parse_words hwords (rfl : alloc.state = .initial)
    exact ⟨_, Prod.ext rfl hkeys, hinitial⟩

end CliAnsiParser

/-! ## What is typed -/

namespace CliShellLine

/-- What is before the cursor and what is behind it. -/
structure Zipper where
  before : CliText
  after : CliText
  deriving DecidableEq

/-- A character that is typed, or a key that moves the cursor or erases a character. -/
def Edits (combo : CliKeyCombo) : Prop :=
  combo.modifiers = CliModKeyNo ∧ (CliKey.Space ≤ combo.key ∧ combo.key < CliKey.DEL ∨
    combo.key ∈ [CliKey.Left, CliKey.Right, CliKey.Home, CliKey.End, CliKey.Backspace, CliKey.DEL])

def Zipper.press (zipper : Zipper) (combo : CliKeyCombo) : Zipper :=
  if combo.key < CliKey.DEL ∧ CliKey.Space ≤ combo.key then
    ⟨zipper.before ++ [UInt8.ofNat combo.key], zipper.after⟩
  else if combo.key = CliKey.Left then
    ⟨zipper.before.dropLast, zipper.before.drop (zipper.before.length - 1) ++ zipper.after⟩
  else if combo.key = CliKey.Right then
    ⟨zipper.before ++ zipper.after.take 1, zipper.after.drop 1⟩
  else if combo.key = CliKey.Home then ⟨[], zipper.before ++ zipper.after⟩
  else if combo.key = CliKey.End then ⟨zipper.before ++ zipper.after, []⟩
  else ⟨zipper.before.dropLast, zipper.after⟩

variable {line : CliShellLine} {zipper : Zipper}

/-- The text that is selected, and where the cursor is in it. -/
def Cut (line : CliShellLine) (zipper : Zipper) : Prop :=
  (∃ editing entries, line.At editing entries (zipper.before ++ zipper.after)) ∧
    line.linePosition = zipper.before.length

theorem Leaves.cut {result : Except CliShellFault CliShellLine} {text : CliText} {pos : ℕ}
    {commands : List CliText} (h : line.Leaves result text pos commands)
    (htext : zipper.before ++ zipper.after = text) (hpos : zipper.before.length = pos) :
    ∃ line', result = .ok line' ∧ line'.Cut zipper ∧
      line'.executed = line.executed ++ commands := by
  obtain ⟨line', hresult, hat, hcursor, hexecuted⟩ := h
  exact ⟨line', hresult, ⟨htext ▸ hat, hcursor.trans hpos.symm⟩, hexecuted⟩

theorem Cut.press (h : line.Cut zipper) {combo : CliKeyCombo} (hcombo : Edits combo) :
    ∃ line', line.input combo = .ok line' ∧ line'.Cut (zipper.press combo) ∧
      line'.executed = line.executed ++ [] := by
  obtain ⟨⟨editing, entries, hat⟩, hpos⟩ := h
  obtain ⟨before, after⟩ := zipper
  obtain ⟨modifiers, key⟩ := combo
  obtain ⟨hmodifiers, hkey⟩ := hcombo
  obtain rfl : modifiers = CliModKeyNo := hmodifiers
  dsimp only at hat hpos hkey
  have htake : (before ++ after).take line.linePosition = before := by
    rw [hpos, List.take_left]
  have hdrop : (before ++ after).drop line.linePosition = after := by
    rw [hpos, List.drop_left]
  by_cases hnormal : key < CliKey.DEL ∧ CliKey.Space ≤ key
  · have hinput : line.input ⟨CliModKeyNo, key⟩ = line.inputNormal ⟨CliModKeyNo, key⟩ := by
      have hnone : keyComboSet.find? (·.1 = ⟨CliModKeyNo, key⟩) = none := by
        simp only [keyComboSet, List.find?_eq_none, List.forall_mem_cons]
        obtain ⟨hlt, hle⟩ := hnormal
        simp [CliKey.DEL, CliKey.Space, CliKey.ETX, CliKey.CR, CliKey.Up, CliKey.Down, CliKey.Left,
          CliKey.Right, CliKey.Home, CliKey.End, CliKey.Backspace, CliKey.FF, CliKey.ETB,
          CliModKeyCtrl, CliModKeyNo] at hlt hle ⊢
        omega
      rw [input, hnone]
    rw [hinput, Zipper.press, if_pos hnormal]
    refine (hat.inputNormal rfl hnormal.symm).cut ?_ ?_
    · rw [htake, hdrop]
    · rw [List.length_append, hpos]
      rfl
  · replace hkey := hkey.resolve_left fun h => hnormal h.symm
    rw [Zipper.press, if_neg hnormal]
    have herase : before.dropLast ++ after = (before ++ after).take (line.linePosition - 1) ++
        (before ++ after).drop line.linePosition := by
      rw [hdrop, hpos, List.take_append_of_le_length (Nat.sub_le _ _), List.dropLast_eq_take]
    have hlength : before.dropLast.length = line.linePosition - 1 := by
      rw [List.length_dropLast, hpos]
    simp only [List.mem_cons, List.not_mem_nil, or_false] at hkey
    rcases hkey with rfl | rfl | rfl | rfl | rfl | rfl
    · refine (hat.inputLeftRight ⟨CliModKeyNo, CliKey.Left⟩).cut ?_ ?_
      · change before.dropLast ++ (before.drop (before.length - 1) ++ after) = _
        rw [List.dropLast_eq_take, ← List.append_assoc, List.take_append_drop]
      · change before.dropLast.length = _
        rw [hpos, clamp, if_neg (by decide), List.length_dropLast, List.length_append]
        omega
    · refine (hat.inputLeftRight ⟨CliModKeyNo, CliKey.Right⟩).cut ?_ ?_
      · change before ++ after.take 1 ++ after.drop 1 = _
        rw [List.append_assoc, List.take_append_drop]
      · change (before ++ after.take 1).length = _
        rw [hpos, clamp, if_pos rfl, List.length_append, List.length_append, List.length_take]
        omega
    · exact (hat.leaves_move (Nat.zero_le _)).cut rfl rfl
    · exact hat.inputEnd.cut (List.append_nil _) rfl
    · exact hat.inputBksp.cut herase hlength
    · exact hat.inputBksp.cut herase hlength

theorem Cut.presses : ∀ {keys : List CliKeyCombo} {line : CliShellLine} {zipper : Zipper},
    line.Cut zipper → (∀ combo ∈ keys, Edits combo) → ∃ line', exec input line keys = .ok line' ∧
      line'.Cut (keys.foldl Zipper.press zipper) ∧ line'.executed = line.executed
  | [], line, _, h, _ => ⟨line, rfl, h, rfl⟩
  | combo :: keys, line, zipper, h, hkeys => by
    obtain ⟨hcombo, hrest⟩ := List.forall_mem_cons.1 hkeys
    obtain ⟨line', hinput, hcut, hexecuted⟩ := h.press hcombo
    obtain ⟨line'', hexec, hcut', hexecuted'⟩ := hcut.presses hrest
    refine ⟨line'', ?_, hcut', by rw [hexecuted', hexecuted, List.append_nil]⟩
    rw [exec, List.foldlM_cons, hinput]
    exact hexec

/-- The text that some keys leave in an empty line. -/
def typed (keys : List CliKeyCombo) : CliText :=
  let zipper := keys.foldl Zipper.press ⟨[], []⟩
  zipper.before ++ zipper.after

/-- Keys that edit a line, which is empty in the end or not blank, and Enter. -/
def Enters (keys : List CliKeyCombo) : Prop :=
  (∀ combo ∈ keys, Edits combo) ∧ ((typed keys).trim = [] → typed keys = [])

theorem Cut.enter (h : line.Cut ⟨[], []⟩) {keys : List CliKeyCombo} (hkeys : Enters keys) :
    ∃ line', exec input line (keys ++ [⟨CliModKeyNo, CliKey.CR⟩]) = .ok line' ∧
      line'.Cut ⟨[], []⟩ ∧
      line'.executed = line.executed ++ [(typed keys).trim].filter (· ≠ []) := by
  obtain ⟨line', hexec, ⟨⟨editing, entries, hat⟩, hpos⟩, hexecuted⟩ := h.presses hkeys.1
  have hleaves : line'.Leaves line'.inputCr [] 0 ([(typed keys).trim].filter (· ≠ [])) := by
    by_cases hblank : (typed keys).trim = []
    · have hnil := List.append_eq_nil_iff.1 (hkeys.2 hblank)
      rw [hblank]
      exact hat.inputCr_ignores hblank (by rw [hpos, hnil.1]; rfl)
    · rw [List.filter_cons_of_pos (by simpa using hblank)]
      exact hat.inputCr_command hblank
  have hrun : exec input line (keys ++ [⟨CliModKeyNo, CliKey.CR⟩]) = line'.inputCr := by
    rw [exec_append, hexec]
    exact exec_singleton _ _
  rw [hrun, ← hexecuted]
  refine hleaves.cut ?_ ?_
  · rfl
  · rfl

/-- The commands of some lines. -/
def commands (lines : List (List CliKeyCombo)) : List CliText :=
  (lines.map fun keys => (typed keys).trim).filter (· ≠ [])

theorem Cut.session : ∀ {lines : List (List CliKeyCombo)} {line : CliShellLine},
    line.Cut ⟨[], []⟩ → (∀ keys ∈ lines, Enters keys) → ∃ line',
      exec input line (lines.flatMap (· ++ [⟨CliModKeyNo, CliKey.CR⟩])) = .ok line' ∧
        line'.Cut ⟨[], []⟩ ∧ line'.executed = line.executed ++ commands lines
  | [], line, h, _ => ⟨line, rfl, h, (List.append_nil _).symm⟩
  | keys :: lines, line, h, hlines => by
    obtain ⟨hkeys, hrest⟩ := List.forall_mem_cons.1 hlines
    obtain ⟨line', hexec, hcut, hexecuted⟩ := h.enter hkeys
    obtain ⟨line'', hexec', hcut', hexecuted'⟩ := hcut.session hrest
    refine ⟨line'', ?_, hcut', ?_⟩
    · rw [List.flatMap_cons, exec_append, hexec]
      exact hexec'
    · rw [hexecuted', hexecuted, List.append_assoc, commands, commands, List.map_cons,
        ← List.filter_append]
      rfl

theorem cut_alloc : alloc.Cut ⟨[], []⟩ := by
  obtain ⟨editing, entries, text, hat⟩ := inv_alloc
  have hselected := hat.selectedText_eq
  cases Except.ok.inj hselected
  exact ⟨⟨editing, entries, hat⟩, rfl⟩

end CliShellLine

/-! ## From characters to commands -/

namespace ShellComponents

/-- What a key that has been recognized does. -/
def press (shell : ShellComponents) (combo : CliKeyCombo) :
    Except CliShellFault ShellComponents :=
  shell.processParserResult (some combo)

variable {shell : ShellComponents} {combo : CliKeyCombo}

/-- While the menu is not displayed, a key other than the one that opens it goes to the line. -/
theorem press_closed (hclosed : shell.completions.isDisplaying = false)
    (htab : combo ≠ ⟨CliModKeyNo, CliKey.Tab⟩) (hkey : combo.key ≠ CliKey.Unrecognized) :
    shell.press combo =
      (shell.line.input combo).map fun line => { shell with line := line } := by
  have hinput : shell.completionsInput combo = .ok (false, shell) := by
    have hhide : shell.hideIfOpenAndContinueHandling = shell :=
      if_neg (by rw [hclosed]; decide)
    have hwhile : ∀ action, shell.whileDisplaying action = .ok (false, shell) :=
      fun action => if_neg (by rw [hclosed]; decide)
    unfold completionsInput
    split
    · next key action hfind =>
      have hsame : key = combo := by simpa using List.find?_some hfind
      have hmem := List.mem_of_find?_eq_some hfind
      simp only [keyComboSet, List.mem_cons, List.not_mem_nil, Prod.mk.injEq, or_false] at hmem
      rcases hmem with ⟨-, rfl⟩ | ⟨-, rfl⟩ | ⟨-, rfl⟩ | ⟨-, rfl⟩ | ⟨-, rfl⟩ | ⟨hcombo, -⟩ | ⟨-, rfl⟩
      case inr.inr.inr.inr.inr.inl => exact absurd (hsame.symm.trans hcombo) htab
      all_goals
        simp only [keyComboCr, keyComboUpDown, keyComboLeftRight, keyComboEsc, hwhile, bind,
          Except.bind]
        rw [hhide]
        rfl
    · rw [hhide]
      rfl
  unfold press processParserResult
  simp only [if_neg hkey, hinput, bind, Except.bind]
  cases shell.line.input combo with
  | error fault => rfl
  | ok line => rfl

theorem exec_press_closed : ∀ {keys : List CliKeyCombo} {shell : ShellComponents},
    shell.completions.isDisplaying = false →
    (∀ combo ∈ keys, combo ≠ ⟨CliModKeyNo, CliKey.Tab⟩ ∧ combo.key ≠ CliKey.Unrecognized) →
      exec press shell keys = (exec CliShellLine.input shell.line keys).map
        fun line => { shell with line := line }
  | [], _, _, _ => rfl
  | combo :: keys, shell, hclosed, hkeys => by
    obtain ⟨hcombo, hrest⟩ := List.forall_mem_cons.1 hkeys
    rw [exec, exec, List.foldlM_cons, List.foldlM_cons, press_closed hclosed hcombo.1 hcombo.2]
    cases shell.line.input combo with
    | error fault => rfl
    | ok line => exact @exec_press_closed keys { shell with line := line } hclosed hrest

end ShellComponents

namespace CliShell

open CliShellLine

theorem exec_step : ∀ (inputs : List (Option UInt8)) (shell : CliShell),
    exec step shell inputs =
      (exec ShellComponents.press shell.components (shell.ansiParser.parse inputs).2).map
        fun components => ⟨(shell.ansiParser.parse inputs).1, components⟩
  | [], _ => rfl
  | input :: inputs, shell => by
    rw [exec, List.foldlM_cons]
    simp only [CliAnsiParser.parse]
    cases hstep : shell.ansiParser.step input with
    | mk parser key =>
      cases key with
      | none =>
        have hnone : shell.step input = .ok ⟨parser, shell.components⟩ := by
          rw [step, hstep]
          rfl
        rw [hnone]
        exact exec_step inputs ⟨parser, shell.components⟩
      | some combo =>
        dsimp only [Option.toList, List.singleton_append]
        rw [exec, List.foldlM_cons]
        cases hpress : shell.components.press combo with
        | error fault =>
          have herror : shell.step input = .error fault := by
            rw [ShellComponents.press] at hpress
            simp only [step, hstep, hpress, bind, Except.bind]
          rw [herror]
          rfl
        | ok components =>
          have hok : shell.step input = .ok ⟨parser, components⟩ := by
            rw [ShellComponents.press] at hpress
            simp only [step, hstep, hpress, bind, Except.bind]
            rfl
          rw [hok]
          exact exec_step inputs ⟨parser, components⟩

theorem Edits.ne_tab {combo : CliKeyCombo} (h : Edits combo) :
    combo ≠ ⟨CliModKeyNo, CliKey.Tab⟩ ∧ combo.key ≠ CliKey.Unrecognized := by
  obtain ⟨modifiers, key⟩ := combo
  obtain ⟨-, hkey⟩ := h
  simp only [List.mem_cons, List.not_mem_nil, or_false, CliKey.Left, CliKey.Right, CliKey.Home,
    CliKey.End, CliKey.Backspace, CliKey.DEL, CliKey.Space] at hkey
  simp only [CliKey.Tab, CliKey.Unrecognized, ne_eq, CliKeyCombo.mk.injEq]
  omega

end CliShell

end KiisuFirmware
