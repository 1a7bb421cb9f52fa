import KiisuFirmware.FlipperFormat

/-!
# Documents in the Flipper format

What a text means that was written entry by entry: a list of entries, in which a key is looked up
from where reading has got to.
-/

namespace KiisuFirmware

/-- The words of a line, with a space between any two of them. -/
def spaced : List (List UInt8) → List UInt8
  | [] => []
  | [word] => word
  | word :: words => word ++ 32 :: spaced words

namespace FlipperValue

def text (value : FlipperValue) : List UInt8 := spaced value.prints

def type : FlipperValue → FlipperType
  | .str _ => .str
  | .hex _ => .hex
  | .int32 _ => .int32
  | .uint32 _ => .uint32
  | .hexUint64 _ => .hexUint64
  | .bool _ => .bool

/-- How many elements it has. -/
def count (value : FlipperValue) : ℕ := value.prints.length

/-- Its first elements; a string stays as it is. -/
def take (n : ℕ) : FlipperValue → FlipperValue
  | .str data => .str data
  | .hex data => .hex (data.take n)
  | .int32 data => .int32 (data.take n)
  | .uint32 data => .uint32 (data.take n)
  | .hexUint64 data => .hexUint64 (data.take n)
  | .bool data => .bool (data.take n)

/-- A value that can be written: a C string on one line, or an array whose size is counted in 16
bits. Neither is empty. -/
def Ok : FlipperValue → Prop
  | .str data => data ≠ [] ∧ flipperFormatEoln ∉ data ∧ flipperFormatEolr ∉ data ∧ 0 ∉ data
  | value => 0 < value.count ∧ value.count < 2 ^ 16

end FlipperValue

/-- A C string that a text can have as a key. -/
structure FlipperKey (key : List UInt8) : Prop where
  nonempty : key ≠ []
  delimiter : flipperFormatDelimiter ∉ key
  eoln : flipperFormatEoln ∉ key
  eolr : flipperFormatEolr ∉ key
  comment : key.head? ≠ some flipperFormatComment
  nul : 0 ∉ key

/-- What one call writes. -/
inductive FlipperEntry
  | value (key : List UInt8) (data : FlipperValue)
  | comment (text : List UInt8)
  | empty
  deriving DecidableEq

namespace FlipperEntry

def Ok : FlipperEntry → Prop
  | .value key data => FlipperKey key ∧ data.Ok
  | .comment text => flipperFormatEoln ∉ text ∧ 0 ∉ text
  | .empty => True

def line : FlipperEntry → List UInt8
  | .value key data => key ++ (flipperFormatDelimiter :: 32 :: data.text)
  | .comment text => flipperFormatComment :: 32 :: text
  | .empty => []

end FlipperEntry

namespace FlipperDocument

def bytes (entries : List FlipperEntry) : List UInt8 :=
  FlipperText.bytes (entries.map FlipperEntry.line) []

/-- The first value of a key, and the entries behind it; in strict mode no other key may come
first. -/
def find (strictMode : Bool) (key : List UInt8) :
    List FlipperEntry → Option (FlipperValue × List FlipperEntry)
  | [] => none
  | .value entryKey value :: entries =>
    if entryKey = key then some (value, entries)
    else if strictMode = true then none else find strictMode key entries
  | .comment _ :: entries => find strictMode key entries
  | .empty :: entries => find strictMode key entries

end FlipperDocument

namespace FlipperFormat

variable {σ : Type} (format : FlipperFormat σ)

def writeEntry : FlipperEntry → StreamM σ Bool
  | .value key value => format.write key value
  | .comment text => format.writeComment text
  | .empty => format.writeEmptyLine

/-- Entry after entry, until one is not written. -/
def writeEntries : List FlipperEntry → StreamM σ Bool
  | [] => return true
  | entry :: entries => do
    if ← format.writeEntry entry then writeEntries entries else return false

/-- What reading at a key has given: a count, if one was asked for, and whether it left the stream
where it was, and the value. -/
structure ReadBack where
  counted : Option (Bool × Option ℕ)
  stays : Bool
  value : Option FlipperValue
  deriving DecidableEq

/-- Read a value like this one, after a count if it is an array and one is asked for. -/
def readBack (counts : Bool) (key : List UInt8) (data : FlipperValue) : StreamM σ ReadBack := do
  if counts = true ∧ data.type ≠ .str then
    let before ← format.vtable.streamTell
    let counted ← format.getValueCount key
    let after ← format.vtable.streamTell
    let value ← format.read key data.type data.count
    return ⟨some counted, decide (after = before), value⟩
  else
    let value ← format.read key data.type data.count
    return ⟨none, true, value⟩

/-- Read the values of these entries, one after the other. -/
def readEntries (counts : List UInt8 → Bool) : List FlipperEntry → StreamM σ (List ReadBack)
  | [] => return []
  | .value key data :: entries => do
    let first ← format.readBack (counts key) key data
    return first :: (← readEntries counts entries)
  | .comment _ :: entries => readEntries counts entries
  | .empty :: entries => readEntries counts entries

/-- Write the entries, rewind, and read their values. -/
def writeAndRead (counts : List UInt8 → Bool) (doc : List FlipperEntry) :
    StreamM σ (Bool × Bool × List ReadBack) := do
  let written ← format.writeEntries doc
  let rewound ← format.rewind
  let read ← format.readEntries counts doc
  return (written, rewound, read)

/-- What should be read of an entry. -/
def expected (counts : List UInt8 → Bool) : FlipperEntry → Option ReadBack
  | .value key data =>
    if counts key = true ∧ data.type ≠ .str then
      some ⟨some (true, some data.count), true, some data⟩
    else some ⟨none, true, some data⟩
  | .comment _ => none
  | .empty => none

end FlipperFormat

end KiisuFirmware
