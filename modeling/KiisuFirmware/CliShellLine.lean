import KiisuFirmware.Cursor
import KiisuFirmware.Run
import Mathlib.Data.List.DropRight

/-!
# The line editor of the command line

`cli_shell_line.c`: a line is edited that is new or comes from the history, and what is entered is
executed and remembered. Strings are objects on the heap, to which the slots of the history point.
What is printed is left out.
-/

namespace KiisuFirmware

def HISTORY_DEPTH : ℕ := 10

/-! ## Keys -/

/-- A key of `CliKey`: a character, or a number above those. -/
structure CliKeyCombo where
  modifiers : ℕ
  key : ℕ
  deriving DecidableEq

def CliModKeyNo : ℕ := 0

def CliModKeyAlt : ℕ := 2

def CliModKeyCtrl : ℕ := 4

namespace CliKey

def Unrecognized : ℕ := 0

def ETX : ℕ := 0x03

def Backspace : ℕ := 0x08

def FF : ℕ := 0x0C

def CR : ℕ := 0x0D

def ETB : ℕ := 0x17

def Esc : ℕ := 0x1B

def Space : ℕ := 0x20

def DEL : ℕ := 0x7F

def Left : ℕ := 0x81

def Right : ℕ := 0x82

def Up : ℕ := 0x83

def Down : ℕ := 0x84

def Home : ℕ := 0x85

def End : ℕ := 0x86

end CliKey

/-! ## Strings -/

/-- What C gives no meaning to: a pointer to no string, and an index that is not of a string or of
the slots. A loop that does not end in time would be a fault, too. -/
inductive CliShellFault
  | noString
  | outOfRange
  | endless
  deriving DecidableEq

abbrev CliText := List UInt8

namespace CliText

/-- What is cut off at both ends of a command. -/
def isTrimmed (c : UInt8) : Bool := c ∈ ([0x20, 0x0A, 0x0D, 0x09] : List UInt8)

def trim (text : CliText) : CliText := (text.dropWhile isTrimmed).rdropWhile isTrimmed

def getChar (text : CliText) (index : ℤ) : Except CliShellFault UInt8 :=
  if h : 0 ≤ index ∧ index.toNat < text.length then .ok (text.get ⟨index.toNat, h.2⟩)
  else .error .outOfRange

def replaceAt (text : CliText) (pos len : ℕ) (replacement : CliText) :
    Except CliShellFault CliText :=
  if pos + len ≤ text.length then .ok (text.take pos ++ replacement ++ text.drop (pos + len))
  else .error .outOfRange

/-- The rest of a string, as it is printed. -/
def rest (text : CliText) (pos : ℕ) : Except CliShellFault CliText :=
  if pos ≤ text.length then .ok (text.drop pos) else .error .outOfRange

end CliText

inductive CliCharClass
  | word
  | space
  | other
  deriving DecidableEq

inductive CliSkipDirection
  | left
  | right
  deriving DecidableEq

/-- `cli_shell_line_char_class` -/
def cliShellLineCharClass (c : UInt8) : CliCharClass :=
  if (0x41 ≤ c ∧ c ≤ 0x5A) ∨ (0x61 ≤ c ∧ c ≤ 0x7A) ∨ (0x30 ≤ c ∧ c ≤ 0x39) ∨ c = 0x5F then .word
  else if c = 0x20 then .space
  else .other

/-- The loop of `cli_shell_line_skip_run`, in at most this many turns. -/
def cliShellLineSkipRunLoop (string : CliText) (lookOffset increment : ℤ)
    (startClass : CliCharClass) : ℕ → ℤ → Except CliShellFault ℤ
  | 0, _ => .error .endless
  | turns + 1, position =>
    let position := position + increment
    if position < 0 then .ok position
    else if string.length ≤ position then .ok position
    else do
      let c ← string.getChar (position + lookOffset)
      if cliShellLineCharClass c ≠ startClass then return position
      cliShellLineSkipRunLoop string lookOffset increment startClass turns position

/-- `cli_shell_line_skip_run`. To the left the loop ends below zero, to the right at the end. -/
def cliShellLineSkipRun (string : CliText) (originalPos : ℕ) (direction : CliSkipDirection) :
    Except CliShellFault ℕ :=
  if string.length = 0 then .ok originalPos
  else if direction = .left ∧ originalPos = 0 then .ok originalPos
  else if direction = .right ∧ originalPos = string.length then .ok originalPos
  else do
    let lookOffset : ℤ := if direction = .left then -1 else 0
    let increment : ℤ := if direction = .left then -1 else 1
    let c ← string.getChar (originalPos + lookOffset)
    let position ← cliShellLineSkipRunLoop string lookOffset increment (cliShellLineCharClass c)
      (originalPos + string.length + 1) originalPos
    return (max 0 position).toNat

/-! ## The editor -/

/-- The editor, the strings on the heap, and what has been executed. -/
structure CliShellLine where
  historyPosition : ℕ
  linePosition : ℕ
  history : List ℕ
  historyEntries : ℕ
  strings : ℕ → Option CliText
  /-- Where the next string will be. -/
  next : ℕ
  executed : List CliText

namespace CliShellLine

variable (line : CliShellLine)

def stringAlloc (text : CliText) : ℕ × CliShellLine :=
  (line.next, { line with
    strings := Function.update line.strings line.next (some text)
    next := line.next + 1 })

def stringGet (string : ℕ) : Except CliShellFault CliText :=
  match line.strings string with
  | some text => .ok text
  | none => .error .noString

def stringSet (string : ℕ) (text : CliText) : Except CliShellFault CliShellLine :=
  if (line.strings string).isSome then
    .ok { line with strings := Function.update line.strings string (some text) }
  else .error .noString

def stringFree (string : ℕ) : Except CliShellFault CliShellLine :=
  if (line.strings string).isSome then
    .ok { line with strings := Function.update line.strings string none }
  else .error .noString

def stringTrim (string : ℕ) : Except CliShellFault CliShellLine := do
  line.stringSet string (← line.stringGet string).trim

/-- `furi_string_move`, which frees what it moves from. -/
def stringMove (destination source : ℕ) : Except CliShellFault CliShellLine := do
  let line ← line.stringSet destination (← line.stringGet source)
  line.stringFree source

def slot (i : ℕ) : Except CliShellFault ℕ :=
  match line.history[i]? with
  | some string => .ok string
  | none => .error .outOfRange

/-- `memmove` of slots -/
def memmove (destination source count : ℕ) : Except CliShellFault CliShellLine :=
  if destination + count ≤ line.history.length ∧ source + count ≤ line.history.length then
    .ok { line with
      history := overwrite line.history destination ((line.history.drop source).take count) }
  else .error .outOfRange

/-- `cli_shell_line_alloc`. The slots are zero, where no string is. -/
def alloc : CliShellLine where
  historyPosition := 0
  linePosition := 0
  history := 1 :: List.replicate (HISTORY_DEPTH - 1) 0
  historyEntries := 1
  strings := Function.update (fun _ => none) 1 (some [])
  next := 2
  executed := []

def getSelected : Except CliShellFault ℕ := line.slot line.historyPosition

def getEditing : Except CliShellFault ℕ := line.slot 0

/-- `cli_shell_line_ensure_not_overwriting_history` -/
def ensureNotOverwritingHistory : Except CliShellFault CliShellLine := do
  if 0 < line.historyPosition then
    let source ← line.getSelected
    let destination ← line.getEditing
    let line ← line.stringSet destination (← line.stringGet source)
    return { line with historyPosition := 0 }
  else return line

/-! ## Input -/

def inputCtrlC : Except CliShellFault CliShellLine := do
  let line ← line.stringSet (← line.getEditing) []
  return { line with
    linePosition := 0
    historyPosition := 0 }

/-- The first slot from one on, of so many, with the text of a command. -/
def findEntry (command : ℕ) : ℕ → ℕ → Except CliShellFault (Option ℕ)
  | 0, _ => .ok none
  | left + 1, i => do
    let entry ← line.stringGet (← line.slot i)
    if entry = (← line.stringGet command) then return some i
    findEntry command left (i + 1)

/-- What has been entered before is selected. -/
def selectEntered (command : ℕ) : Except CliShellFault (ℕ × CliShellLine) := do
  if line.historyPosition = 0 then
    match ← line.findEntry command (line.historyEntries - 1) 1 with
    | some i =>
      let line := { line with historyPosition := i }
      let command ← line.getSelected
      return (command, ← line.stringTrim command)
    | none => return (command, line)
  else return (command, line)

/-- A command from the history takes the place of the line that is edited. -/
def moveToFront (command : ℕ) : Except CliShellFault CliShellLine := do
  if 0 < line.historyPosition then
    let pos := line.historyPosition
    let line ← line.memmove pos (pos + 1) (line.historyEntries - pos - 1)
    let line ← line.stringMove (← line.slot 0) command
    return { line with historyEntries := line.historyEntries - 1 }
  else return line

/-- The last entry of a full history goes. -/
def makeRoom : Except CliShellFault CliShellLine := do
  if line.historyEntries = HISTORY_DEPTH then
    let line ← line.stringFree (← line.slot (HISTORY_DEPTH - 1))
    return { line with historyEntries := line.historyEntries - 1 }
  else return line

/-- An empty line in front. -/
def insertEmpty : Except CliShellFault CliShellLine := do
  let line ← line.makeRoom
  let line ← line.memmove 1 0 line.historyEntries
  let (editing, line) := line.stringAlloc []
  return { line with
    history := line.history.set 0 editing
    historyEntries := line.historyEntries + 1
    linePosition := 0
    historyPosition := 0 }

def inputCr : Except CliShellFault CliShellLine := do
  let command ← line.getSelected
  let line ← line.stringTrim command
  let text ← line.stringGet command
  if text = [] then return line
  let (commandCopy, line) := line.stringAlloc text
  let (command, line) ← line.selectEntered command
  let line ← line.moveToFront command
  let line ← line.insertEmpty
  let text ← line.stringGet commandCopy
  stringFree { line with executed := line.executed ++ [text] } commandCopy

def clamp (x upper lower : ℤ) : ℤ := min upper (max x lower)

def inputUpDown (combo : CliKeyCombo) : Except CliShellFault CliShellLine := do
  let increment : ℤ := if combo.key = CliKey.Up then 1 else -1
  let newPos := (clamp (line.historyPosition + increment) (line.historyEntries - 1) 0).toNat
  if newPos ≠ line.historyPosition then
    let line := { line with historyPosition := newPos }
    let command ← line.stringGet (← line.getSelected)
    return { line with linePosition := command.length }
  else return line

def inputLeftRight (combo : CliKeyCombo) : Except CliShellFault CliShellLine := do
  let command ← line.stringGet (← line.getSelected)
  let increment : ℤ := if combo.key = CliKey.Right then 1 else -1
  return { line with
    linePosition := (clamp (line.linePosition + increment) command.length 0).toNat }

def inputHome : Except CliShellFault CliShellLine := .ok { line with linePosition := 0 }

def inputEnd : Except CliShellFault CliShellLine := do
  let command ← line.stringGet (← line.getSelected)
  return { line with linePosition := command.length }

def inputBksp : Except CliShellFault CliShellLine := do
  let line ← line.ensureNotOverwritingHistory
  let editingLine ← line.getEditing
  if line.linePosition = 0 then return line
  let line := { line with linePosition := line.linePosition - 1 }
  let text ← (← line.stringGet editingLine).replaceAt line.linePosition 1 []
  let line ← line.stringSet editingLine text
  let _ ← text.rest line.linePosition
  return line

def inputCtrlL : Except CliShellFault CliShellLine := do
  let _ ← line.stringGet (← line.getSelected)
  return line

def inputCtrlLeftRight (combo : CliKeyCombo) : Except CliShellFault CliShellLine := do
  let selectedLine ← line.stringGet (← line.getSelected)
  let direction := if combo.key = CliKey.Left then CliSkipDirection.left else .right
  return { line with
    linePosition := ← cliShellLineSkipRun selectedLine line.linePosition direction }

def inputCtrlBksp : Except CliShellFault CliShellLine := do
  let line ← line.ensureNotOverwritingHistory
  let selectedLine ← line.getSelected
  let text ← line.stringGet selectedLine
  let runStart ← cliShellLineSkipRun text line.linePosition .left
  let text ← text.replaceAt runStart (line.linePosition - runStart) []
  let line ← line.stringSet selectedLine text
  let _ ← text.rest runStart
  return { line with linePosition := runStart }

def inputNormal (combo : CliKeyCombo) : Except CliShellFault CliShellLine := do
  if combo.modifiers ≠ CliModKeyNo then return line
  if combo.key < CliKey.Space ∨ CliKey.DEL ≤ combo.key then return line
  let line ← line.ensureNotOverwritingHistory
  let editingLine ← line.getEditing
  let text ← line.stringGet editingLine
  let c := UInt8.ofNat combo.key
  let line ← if line.linePosition = text.length then line.stringSet editingLine (text ++ [c])
    else do line.stringSet editingLine (← text.replaceAt line.linePosition 0 [c])
  return { line with linePosition := line.linePosition + 1 }

/-- `cli_shell_line_key_combo_set` -/
def keyComboSet :
    List (CliKeyCombo × (CliShellLine → CliKeyCombo → Except CliShellFault CliShellLine)) :=
  [(⟨CliModKeyNo, CliKey.ETX⟩, fun line _ => line.inputCtrlC),
    (⟨CliModKeyNo, CliKey.CR⟩, fun line _ => line.inputCr),
    (⟨CliModKeyNo, CliKey.Up⟩, inputUpDown),
    (⟨CliModKeyNo, CliKey.Down⟩, inputUpDown),
    (⟨CliModKeyNo, CliKey.Left⟩, inputLeftRight),
    (⟨CliModKeyNo, CliKey.Right⟩, inputLeftRight),
    (⟨CliModKeyNo, CliKey.Home⟩, fun line _ => line.inputHome),
    (⟨CliModKeyNo, CliKey.End⟩, fun line _ => line.inputEnd),
    (⟨CliModKeyNo, CliKey.Backspace⟩, fun line _ => line.inputBksp),
    (⟨CliModKeyNo, CliKey.DEL⟩, fun line _ => line.inputBksp),
    (⟨CliModKeyNo, CliKey.FF⟩, fun line _ => line.inputCtrlL),
    (⟨CliModKeyCtrl, CliKey.Left⟩, inputCtrlLeftRight),
    (⟨CliModKeyCtrl, CliKey.Right⟩, inputCtrlLeftRight),
    (⟨CliModKeyNo, CliKey.ETB⟩, fun line _ => line.inputCtrlBksp)]

/-- What a key does, if it does anything. -/
def input (combo : CliKeyCombo) : Except CliShellFault CliShellLine :=
  match keyComboSet.find? (·.1 = combo) with
  | some (_, action) => action line combo
  | none => line.inputNormal combo

end CliShellLine

end KiisuFirmware
