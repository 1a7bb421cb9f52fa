import KiisuFirmware.CliShellLine

/-!
# The shell of the command line

`cli_ansi.c`, `cli_shell_completions.c` and the event handlers of `cli_shell.c`: bytes become keys,
which the menu of completions handles before the line does. What is printed is left out, and of a
registered command everything but its name.
-/

namespace KiisuFirmware

namespace CliKey

def Tab : ℕ := 0x09

end CliKey

/-! ## Escape sequences -/

inductive CliAnsiParserState
  | initial
  | escape
  | escapeBrace
  | escapeBraceOne
  | escapeBraceOneSemicolon
  | escapeBraceOneSemicolonModifiers
  deriving DecidableEq

structure CliAnsiParser where
  state : CliAnsiParserState
  modifiers : ℕ

/-- `cli_ansi_key_from_mnemonic` -/
def cliAnsiKeyFromMnemonic (c : UInt8) : ℕ :=
  if c = 0x41 then CliKey.Up
  else if c = 0x42 then CliKey.Down
  else if c = 0x43 then CliKey.Right
  else if c = 0x44 then CliKey.Left
  else if c = 0x46 then CliKey.End
  else if c = 0x48 then CliKey.Home
  else CliKey.Unrecognized

namespace CliAnsiParser

/-- `cli_ansi_parser_alloc`, of memory that is zero. -/
def alloc : CliAnsiParser := ⟨.initial, 0⟩

variable (parser : CliAnsiParser)

/-- `PARSER_RESET_AND_RETURN` -/
def resetAndReturn (modifiers key : ℕ) : CliAnsiParser × Option CliKeyCombo :=
  ({ parser with state := .initial }, some ⟨modifiers, key⟩)

def goTo (state : CliAnsiParserState) : CliAnsiParser × Option CliKeyCombo :=
  ({ parser with state := state }, none)

/-- `c - '0'` with its lowest bit cleared, in the byte that the enumeration has. -/
def modifiersOf (c : UInt8) : ℕ := ((c - 0x30) &&& 0xFE).toNat

/-- `cli_ansi_parser_feed` -/
def feed (c : UInt8) : CliAnsiParser × Option CliKeyCombo :=
  match parser.state with
  | .initial =>
    if c ≠ 0x1B then parser.resetAndReturn CliModKeyNo c.toNat else parser.goTo .escape
  | .escape =>
    if c = 0x1B then parser.resetAndReturn CliModKeyNo c.toNat
    else if c ≠ 0x5B then parser.resetAndReturn CliModKeyAlt c.toNat
    else parser.goTo .escapeBrace
  | .escapeBrace =>
    if c ≠ 0x31 then parser.resetAndReturn CliModKeyNo (cliAnsiKeyFromMnemonic c)
    else parser.goTo .escapeBraceOne
  | .escapeBraceOne =>
    if c ≠ 0x3B then parser.resetAndReturn CliModKeyNo CliKey.Unrecognized
    else parser.goTo .escapeBraceOneSemicolon
  | .escapeBraceOneSemicolon =>
    ({ parser with
      modifiers := modifiersOf c
      state := .escapeBraceOneSemicolonModifiers }, none)
  | .escapeBraceOneSemicolonModifiers =>
    parser.resetAndReturn parser.modifiers (cliAnsiKeyFromMnemonic c)

/-- `cli_ansi_parser_feed_timeout` -/
def feedTimeout : CliAnsiParser × Option CliKeyCombo :=
  if parser.state = .escape then parser.resetAndReturn CliModKeyNo CliKey.Esc
  else parser.goTo .initial

/-- A character, or the time in which none has come. -/
def step : Option UInt8 → CliAnsiParser × Option CliKeyCombo
  | some c => parser.feed c
  | none => parser.feedTimeout

end CliAnsiParser

/-! ## Completions -/

inductive CliShellCompletionSegmentType
  | command
  | arguments
  deriving DecidableEq

structure CliShellCompletionSegment where
  type : CliShellCompletionSegmentType
  start : ℕ
  length : ℕ

structure CliShellCompletions where
  variants : List CliText
  selected : ℕ
  isDisplaying : Bool

inductive CliShellCompletionsAction
  | up
  | down
  | left
  | right
  deriving DecidableEq

namespace CliText

/-- `furi_string_search_char` -/
def searchChar (text : CliText) (c : UInt8) (start : ℕ) : Except CliShellFault (Option ℕ) :=
  if start ≤ text.length then .ok (((text.drop start).findIdx? (· = c)).map (start + ·))
  else .error .outOfRange

/-- The loop of `cli_shell_completions_segment`, in at most this many turns. -/
def firstNonSpace (input : CliText) : ℕ → ℕ → Except CliShellFault ℕ
  | 0, _ => .error .endless
  | turns + 1, first => do
    match ← input.searchChar 0x20 first with
    | none => return first
    | some ret => if 1 < ret - first then return first else firstNonSpace input turns (first + 1)

/-- `cli_shell_completions_segment`, of what is before the cursor. -/
def segment (input : CliText) : Except CliShellFault CliShellCompletionSegment := do
  let first ← input.firstNonSpace (input.length + 1) 0
  match ← input.searchChar 0x20 first with
  | none => return ⟨.command, first, input.length - first⟩
  | some _ => return ⟨.arguments, 0, 0⟩

end CliText

def COMPLETION_COLUMNS : ℕ := 3

/-- `cli_shell_completions_rows_at_column` -/
def cliShellCompletionsRowsAtColumn (size x : ℕ) : ℕ :=
  size / COMPLETION_COLUMNS + if size % COMPLETION_COLUMNS ≤ x then 0 else 1

def clampWraparound (x upper lower : ℤ) : ℤ :=
  if upper < x then lower else if x < lower then upper else x

/-- The selection that an arrow key moves to. Each column that the wraparound leads to has a row. -/
def cliShellCompletionsMove (size old : ℕ) (action : CliShellCompletionsAction) : ℕ :=
  let columns : ℤ := if COMPLETION_COLUMNS ≤ size then COMPLETION_COLUMNS else size
  let rows (x : ℤ) : ℤ := cliShellCompletionsRowsAtColumn size x.toNat
  let x : ℤ := old % COMPLETION_COLUMNS
  let y : ℤ := old / COMPLETION_COLUMNS
  let unclamped : ℤ := match action with
    | .left => old - 1
    | .right => old + 1
    | .up =>
      if y - 1 < 0 then
        (rows (clampWraparound (x - 1) (columns - 1) 0) - 1) * COMPLETION_COLUMNS +
          clampWraparound (x - 1) (columns - 1) 0
      else (y - 1) * COMPLETION_COLUMNS + x
    | .down =>
      if rows x - 1 < y + 1 then clampWraparound (x + 1) (columns - 1) 0
      else (y + 1) * COMPLETION_COLUMNS + x
  (clampWraparound unclamped (size - 1) 0).toNat

/-! ## The shell -/

structure ShellComponents where
  completions : CliShellCompletions
  line : CliShellLine
  /-- The names of the commands, in the order in which they are gone through. -/
  registry : List CliText

/-- Whether a key is handled. -/
abbrev Handling := Except CliShellFault (Bool × ShellComponents)

namespace ShellComponents

variable (shell : ShellComponents)

def getSegment : Except CliShellFault CliShellCompletionSegment := do
  let input ← shell.line.stringGet (← shell.line.getEditing)
  CliText.segment (input.take shell.line.linePosition)

/-- `cli_shell_completions_fill_variants` -/
def fillVariants : Except CliShellFault (List CliText) := do
  let segment ← shell.getSegment
  let input ← shell.line.stringGet (← shell.line.getEditing)
  let input := (input.drop segment.start).take segment.length
  match segment.type with
  | .command => return shell.registry.filter input.isPrefixOf
  | .arguments => return []

/-- `CliShellCompletionsActionSelectNoClose` -/
def renderSelectNoClose : Except CliShellFault ShellComponents := do
  if shell.completions.variants = [] then return shell
  let segment ← shell.getSegment
  let input ← shell.line.getSelected
  match shell.completions.variants[shell.completions.selected]? with
  | none => throw .outOfRange
  | some completion =>
    let text ← (← shell.line.stringGet input).replaceAt segment.start segment.length completion
    let line ← shell.line.stringSet input text
    let positionChange : ℤ := completion.length - segment.length
    let position := (max 0 (line.linePosition + positionChange)).toNat
    return { shell with line := { line with linePosition := position } }

/-- `CliShellCompletionsActionOpen` -/
def renderOpen : Except CliShellFault ShellComponents := do
  let variants ← shell.fillVariants
  let shell := { shell with completions := ⟨variants, 0, shell.completions.isDisplaying⟩ }
  if variants.length = 1 then shell.renderSelectNoClose
  else return { shell with completions := ⟨variants, 0, true⟩ }

/-- `CliShellCompletionsActionClose` -/
def renderClose : ShellComponents :=
  { shell with completions := { shell.completions with isDisplaying := false } }

def renderMove (action : CliShellCompletionsAction) : ShellComponents :=
  if shell.completions.variants = [] then shell
  else { shell with completions := { shell.completions with
    selected := cliShellCompletionsMove shell.completions.variants.length
      shell.completions.selected action } }

/-- `CliShellCompletionsActionSelect` -/
def renderSelect : Except CliShellFault ShellComponents := do
  return (← shell.renderSelectNoClose).renderClose

/-! ## Keys -/

/-- A handler that does something while the menu is displayed only. -/
def whileDisplaying (action : ShellComponents → Except CliShellFault ShellComponents) :
    Handling := do
  if shell.completions.isDisplaying then return (true, ← action shell) else return (false, shell)

def keyComboCr : Handling := shell.whileDisplaying renderSelect

def keyComboUpDown (combo : CliKeyCombo) : Handling :=
  shell.whileDisplaying fun shell =>
    .ok (shell.renderMove (if combo.key = CliKey.Up then .up else .down))

def keyComboLeftRight (combo : CliKeyCombo) : Handling :=
  shell.whileDisplaying fun shell =>
    .ok (shell.renderMove (if combo.key = CliKey.Left then .left else .right))

def keyComboTab : Handling := do
  if shell.completions.isDisplaying then return (true, shell.renderMove .right)
  else return (true, ← shell.renderOpen)

def keyComboEsc : Handling :=
  shell.whileDisplaying fun shell => .ok shell.renderClose

/-- `hide_if_open_and_continue_handling` -/
def hideIfOpenAndContinueHandling : ShellComponents :=
  if shell.completions.isDisplaying then shell.renderClose else shell

/-- `cli_shell_completions_key_combo_set` -/
def keyComboSet :
    List (CliKeyCombo × (ShellComponents → CliKeyCombo → Handling)) :=
  [(⟨CliModKeyNo, CliKey.CR⟩, fun shell _ => shell.keyComboCr),
    (⟨CliModKeyNo, CliKey.Up⟩, keyComboUpDown),
    (⟨CliModKeyNo, CliKey.Down⟩, keyComboUpDown),
    (⟨CliModKeyNo, CliKey.Left⟩, keyComboLeftRight),
    (⟨CliModKeyNo, CliKey.Right⟩, keyComboLeftRight),
    (⟨CliModKeyNo, CliKey.Tab⟩, fun shell _ => shell.keyComboTab),
    (⟨CliModKeyNo, CliKey.Esc⟩, fun shell _ => shell.keyComboEsc)]

/-- What the completions do with a key. -/
def completionsInput (combo : CliKeyCombo) : Handling := do
  match keyComboSet.find? (·.1 = combo) with
  | some (_, action) =>
    let (handled, shell) ← action shell combo
    if handled then return (true, shell) else return (false, shell.hideIfOpenAndContinueHandling)
  | none => return (false, shell.hideIfOpenAndContinueHandling)

/-- `cli_shell_process_parser_result` -/
def processParserResult : Option CliKeyCombo → Except CliShellFault ShellComponents
  | none => .ok shell
  | some combo => do
    if combo.key = CliKey.Unrecognized then return shell
    let (handled, shell) ← shell.completionsInput combo
    if handled then return shell
    return { shell with line := ← shell.line.input combo }

end ShellComponents

structure CliShell where
  ansiParser : CliAnsiParser
  components : ShellComponents

namespace CliShell

/-- `cli_shell_init` -/
def init (registry : List CliText) : CliShell := ⟨.alloc, ⟨⟨[], 0, false⟩, .alloc, registry⟩⟩

/-- `cli_shell_data_available`, and `cli_shell_timer_expired` where no character has come. -/
def step (shell : CliShell) (input : Option UInt8) : Except CliShellFault CliShell := do
  let (ansiParser, result) := shell.ansiParser.step input
  return ⟨ansiParser, ← shell.components.processParserResult result⟩

end CliShell

end KiisuFirmware
