import KiisuFirmware.StreamClient
import KiisuFirmware.Strint

/-!
# The Flipper format

`flipper_format_stream.c` and `flipper_format.c`: lines of a key, a delimiter and a value, or
values, on a stream. Of the types of values floats are left out. A read that fails returns
nothing; what it may have stored of an array by then is not modelled.
-/

namespace KiisuFirmware

def flipperFormatDelimiter : UInt8 := 58

def flipperFormatComment : UInt8 := 35

def flipperFormatEoln : UInt8 := 10

def flipperFormatEolr : UInt8 := 13

/-! ## Values -/

/-- How the elements of an array are printed and scanned. -/
structure FlipperStreamValue (α : Type) where
  print : α → List UInt8
  scan : List UInt8 → Option α

namespace FlipperStreamValue

def hex : FlipperStreamValue UInt8 where
  print data := printHex 2 data.toNat
  scan
    | hi :: low :: _ => hexCharToUint8 hi low
    | _ => none

def int32 : FlipperStreamValue Int32 where
  print data := printInt data.toInt
  scan value := (strintToInt32 value 10).toOption

def uint32 : FlipperStreamValue UInt32 where
  print data := printDecimal data.toNat
  scan value := (strintToUint32 value 10).toOption

def hexUint64 : FlipperStreamValue UInt64 where
  print data := printHex 8 (data >>> 32).toUInt32.toNat ++ printHex 8 data.toUInt32.toNat
  scan value := if 16 ≤ value.length then hexCharsToUint64 value else none

def flipperTrue : List UInt8 := [116, 114, 117, 101]

def flipperFalse : List UInt8 := [102, 97, 108, 115, 101]

def bool : FlipperStreamValue Bool where
  print data := if data then flipperTrue else flipperFalse
  scan value := some (equalIgnoringCase value flipperTrue)

end FlipperStreamValue

/-- What stands behind a key. -/
inductive FlipperValue
  | str (data : List UInt8)
  | hex (data : List UInt8)
  | int32 (data : List Int32)
  | uint32 (data : List UInt32)
  | hexUint64 (data : List UInt64)
  | bool (data : List Bool)
  deriving DecidableEq

/-- Which of them. -/
inductive FlipperType
  | str
  | hex
  | int32
  | uint32
  | hexUint64
  | bool
  deriving DecidableEq

/-- The elements as they are printed; a string is a single one. -/
def FlipperValue.prints : FlipperValue → List (List UInt8)
  | .str data => [data]
  | .hex data => data.map FlipperStreamValue.hex.print
  | .int32 data => data.map FlipperStreamValue.int32.print
  | .uint32 data => data.map FlipperStreamValue.uint32.print
  | .hexUint64 data => data.map FlipperStreamValue.hexUint64.print
  | .bool data => data.map FlipperStreamValue.bool.print

/-! ## Writing -/

namespace FlipperFormatStream

/-- `flipper_format_stream_write` and what follows if everything was written. -/
def write (data : List UInt8) (next : StreamWriteCB) : StreamWriteCB :=
  .write data fun bytesWritten => if bytesWritten = data.length then next else .done false

def writeKey (key : List UInt8) (next : StreamWriteCB) : StreamWriteCB :=
  write key (write [flipperFormatDelimiter] (write [32] next))

def writeEol (next : StreamWriteCB) : StreamWriteCB := write [flipperFormatEoln] next

/-- The elements, all but the last with a space behind. -/
def writeValues : List (List UInt8) → StreamWriteCB → StreamWriteCB
  | [], next => next
  | [value], next => write value next
  | value :: values, next => write (value ++ [32]) (writeValues values next)

def writeValueLine (key : List UInt8) (value : FlipperValue) : StreamWriteCB :=
  writeKey key (writeValues value.prints (writeEol (.done true)))

def writeCommentCstr (data : List UInt8) : StreamWriteCB :=
  write [flipperFormatComment, 32] (write data (writeEol (.done true)))

/-! ## Scanning -/

def isSpace (c : UInt8) : Bool := c == 32 || c == 9 || c == flipperFormatEolr

structure KeyScan where
  key : List UInt8
  accumulate : Bool
  newLine : Bool
  deriving DecidableEq

def KeyScan.start : KeyScan := ⟨[], true, true⟩

def keyScanner : Scanner KeyScan where
  stops t data := data == flipperFormatDelimiter && !t.newLine && t.accumulate
  step t data :=
    if data = flipperFormatEoln then .start
    else if data = flipperFormatEolr then t
    else if data = flipperFormatComment ∧ t.newLine = true then
      { t with accumulate := false, newLine := false }
    else if data = flipperFormatDelimiter then if t.newLine then ⟨[], false, false⟩ else t
    else { t with newLine := false, key := if t.accumulate then t.key ++ [data] else t.key }

inductive ValueState
  | leadingSpace
  | readValue
  | trailingSpace
  deriving DecidableEq

structure ValueScan where
  state : ValueState
  value : List UInt8
  deriving DecidableEq

def valueScanner : Scanner ValueScan where
  stops t data :=
    match t.state with
    | .leadingSpace | .readValue => !isSpace data && data == flipperFormatEoln
    | .trailingSpace => !isSpace data
  step t data :=
    match t.state with
    | .leadingSpace => if isSpace data then t else ⟨.readValue, t.value ++ [data]⟩
    | .readValue =>
      if isSpace data then { t with state := .trailingSpace }
      else { t with value := t.value ++ [data] }
    | .trailingSpace => t

/-- The bytes of a line, without the carriage returns. -/
def lineScanner : Scanner (List UInt8) where
  stops _ data := data == flipperFormatEoln
  step str data := if data = flipperFormatEolr then str else str ++ [data]

def nextLineScanner : Scanner Unit where
  stops _ data := data == flipperFormatEoln
  step _ _ := ()

variable {σ : Type} (v : StreamVTable σ)

/-- The key that is found, with the stream left at its delimiter. -/
def readValidKey : StreamM σ (Option (List UInt8)) := do
  let r ← v.scan keyScanner .start
  match r.2 with
  | .stopped _ true => return some r.1.key
  | _ => return none

def seekToKeyLoop (key : List UInt8) (strictMode : Bool) : ℕ → StreamM σ Bool
  | 0 => fun _ => none
  | rounds + 1 => do
    if ← v.streamEof then return false
    else
      match ← readValidKey v with
      | none => seekToKeyLoop key strictMode rounds
      | some readKey =>
        if readKey = key then v.streamSeek 2 .fromCurrent
        else if strictMode then return false
        else seekToKeyLoop key strictMode rounds

/-- Every round but the last moves on. -/
def seekToKey (key : List UInt8) (strictMode : Bool) : StreamM σ Bool := do
  let size ← v.streamSize
  seekToKeyLoop v key strictMode (size + 1)

/-- The element that is read, and whether it was the last of its line. -/
def readValue : StreamM σ (Option (List UInt8 × Bool)) := do
  let r ← v.scan valueScanner ⟨.leadingSpace, []⟩
  match r.2 with
  | .noMore =>
    let eof ← v.streamEof
    return if r.1.state ≠ .leadingSpace ∧ eof = true then some (r.1.value, true) else none
  | .stopped data seeked =>
    return if r.1.state ≠ .leadingSpace ∧ seeked = true then
      some (r.1.value, data == flipperFormatEoln) else none

def readLine : StreamM σ (Bool × List UInt8) := do
  let r ← v.scan lineScanner []
  return (r.1.length != 0, r.1)

def seekToNextLine : StreamM σ Bool := do
  let r ← v.scan nextLineScanner ()
  match r.2 with
  | .noMore =>
    if ← v.streamEof then return true
    else fun _ => none
  | .stopped _ seeked => return seeked

/-! ## Reading -/

/-- The loop over the elements of an array, of which so many are left. -/
def readValues {α : Type} (type : FlipperStreamValue α) : ℕ → StreamM σ (Option (List α))
  | 0 => return some []
  | left + 1 => do
    match ← readValue v with
    | none => return none
    | some (value, last) =>
      match type.scan value with
      | none => return none
      | some data =>
        if last ∧ left ≠ 0 then return none
        else return (← readValues type left).map (data :: ·)

def readValueLine (key : List UInt8) (type : FlipperType) (dataSize : ℕ) (strictMode : Bool) :
    StreamM σ (Option FlipperValue) := do
  if ← seekToKey v key strictMode then
    match type with
    | .str =>
      let r ← readLine v
      return if r.1 then some (.str r.2) else none
    | .hex => return (← readValues v .hex dataSize).map .hex
    | .int32 => return (← readValues v .int32 dataSize).map .int32
    | .uint32 => return (← readValues v .uint32 dataSize).map .uint32
    | .hexUint64 => return (← readValues v .hexUint64 dataSize).map .hexUint64
    | .bool => return (← readValues v .bool dataSize).map .bool
  else return none

/-- The line of an array of elements of another type, as are floats, which `strtof` scans. -/
def readArrayLine {α : Type} (key : List UInt8) (type : FlipperStreamValue α) (dataSize : ℕ)
    (strictMode : Bool) : StreamM σ (Option (List α)) := do
  if ← seekToKey v key strictMode then readValues v type dataSize else return none

/-- The loop that counts elements up to the last of the line. -/
def countValues : ℕ → ℕ → StreamM σ (Bool × ℕ)
  | 0, _ => fun _ => none
  | rounds + 1, count => do
    match ← readValue v with
    | none => return (false, count)
    | some (_, last) =>
      let count := (count + 1) % 2 ^ 32
      if last then return (true, count) else countValues rounds count

/-- The count at a key, which is left alone if the key is not found. -/
def countAtKey (key : List UInt8) (strictMode : Bool) : StreamM σ (Bool × Option ℕ) := do
  if ← seekToKey v key strictMode then
    let size ← v.streamSize
    let r ← countValues v (size + 1) 0
    return (r.1, some r.2)
  else return (false, none)

def getValueCount (key : List UInt8) (strictMode : Bool) : StreamM σ (Bool × Option ℕ) := do
  let position ← v.streamTell
  let counted ← countAtKey v key strictMode
  let seeked ← v.streamSeek (int32 position) .fromStart
  return (counted.1 && seeked, counted.2)

/-! ## Updating -/

def deleteKeyAndWrite (key : List UInt8) (value : FlipperValue) (strictMode : Bool) :
    StreamM σ Bool := do
  let size ← v.streamSize
  if size = 0 then return false
  else if !(← v.streamRewind) then return false
  else if !(← seekToKey v key strictMode) then return false
  else
    let startPosition := sizeT ((← v.streamTell : ℕ) - (key.length : ℤ))
    if startPosition < 2 then return false
    else
      let startPosition := startPosition - 2
      if !(← seekToNextLine v) then return false
      else
        let endPosition ← v.streamTell
        let endPosition := if endPosition < size then endPosition + 1 else endPosition
        if !(← v.streamSeek (int32 startPosition) .fromStart) then return false
        else
          v.streamDeleteAndInsert (sizeT ((endPosition : ℤ) - startPosition))
            (some (writeValueLine key value))

end FlipperFormatStream

/-! ## The interface -/

/-- A format on a stream of some implementation. -/
structure FlipperFormat (σ : Type) where
  vtable : StreamVTable σ
  strictMode : Bool

namespace FlipperFormat

open FlipperFormatStream

variable {σ : Type} (format : FlipperFormat σ)

def rewind : StreamM σ Bool := format.vtable.streamRewind

def seekToEnd : StreamM σ Bool := format.vtable.streamSeek 0 .fromEnd

def keyExist (key : List UInt8) : StreamM σ Bool := do
  let pos ← format.vtable.streamTell
  let _ ← format.vtable.streamSeek 0 .fromStart
  let result ← seekToKey format.vtable key false
  let _ ← format.vtable.streamSeek (int32 pos) .fromStart
  return result

def getValueCount (key : List UInt8) : StreamM σ (Bool × Option ℕ) :=
  FlipperFormatStream.getValueCount format.vtable key format.strictMode

def read (key : List UInt8) (type : FlipperType) (dataSize : ℕ) :
    StreamM σ (Option FlipperValue) :=
  readValueLine format.vtable key type dataSize format.strictMode

def readString (key : List UInt8) := format.read key .str 1

def readHex (key : List UInt8) (dataSize : ℕ) := format.read key .hex dataSize

def readInt32 (key : List UInt8) (dataSize : ℕ) := format.read key .int32 dataSize

def readUint32 (key : List UInt8) (dataSize : ℕ) := format.read key .uint32 dataSize

def readHexUint64 (key : List UInt8) (dataSize : ℕ) := format.read key .hexUint64 dataSize

def readBool (key : List UInt8) (dataSize : ℕ) := format.read key .bool dataSize

def write (key : List UInt8) (value : FlipperValue) : StreamM σ Bool :=
  format.vtable.runWriteCB (writeValueLine key value)

def writeString (key data : List UInt8) := format.write key (.str data)

def writeHex (key data : List UInt8) := format.write key (.hex data)

def writeInt32 (key : List UInt8) (data : List Int32) := format.write key (.int32 data)

def writeUint32 (key : List UInt8) (data : List UInt32) := format.write key (.uint32 data)

def writeHexUint64 (key : List UInt8) (data : List UInt64) := format.write key (.hexUint64 data)

def writeBool (key : List UInt8) (data : List Bool) := format.write key (.bool data)

def writeComment (data : List UInt8) : StreamM σ Bool :=
  format.vtable.runWriteCB (writeCommentCstr data)

def writeEmptyLine : StreamM σ Bool := format.vtable.runWriteCB (writeEol (.done true))

def update (key : List UInt8) (value : FlipperValue) : StreamM σ Bool :=
  deleteKeyAndWrite format.vtable key value format.strictMode

def insertOrUpdate (key : List UInt8) (value : FlipperValue) : StreamM σ Bool := do
  if !(← format.keyExist key) then
    let _ ← format.seekToEnd
    format.write key value
  else format.update key value

def insertOrUpdateString (key data : List UInt8) := format.insertOrUpdate key (.str data)

def insertOrUpdateUint32 (key : List UInt8) (data : List UInt32) :=
  format.insertOrUpdate key (.uint32 data)

def insertOrUpdateInt32 (key : List UInt8) (data : List Int32) :=
  format.insertOrUpdate key (.int32 data)

def insertOrUpdateBool (key : List UInt8) (data : List Bool) :=
  format.insertOrUpdate key (.bool data)

def insertOrUpdateHex (key data : List UInt8) := format.insertOrUpdate key (.hex data)

end FlipperFormat

/-!
## What a text in the Flipper format says

The meaning of a text as a whole, apart from how it is read: a text is a number of lines and what
is behind the last of them, a line may give a key, and what a key stands for is found from two
characters behind the delimiter of the first line that gives it up to the end of that line.
-/

namespace FlipperText

/-- The bytes of lines, and of what is behind the last line feed. -/
def bytes : List (List UInt8) → List UInt8 → List UInt8
  | [], last => last
  | line :: lines, last => line ++ flipperFormatEoln :: bytes lines last

/-- There is no line feed inside the lines. -/
def LineFree (lines : List (List UInt8)) (last : List UInt8) : Prop :=
  (∀ line ∈ lines, flipperFormatEoln ∉ line) ∧ flipperFormatEoln ∉ last

/-- Where the first delimiter of a line is. -/
def delimiterOf (line : List UInt8) : ℕ := (line.takeWhile (· ≠ flipperFormatDelimiter)).length

/-- What is in front of it, without carriage returns. -/
def keyText (line : List UInt8) : List UInt8 :=
  (line.takeWhile (· ≠ flipperFormatDelimiter)).filter (· ≠ flipperFormatEolr)

/-- The key a line gives: it is not empty, and the line is no comment. -/
def keyOf (line : List UInt8) : Option (List UInt8) :=
  if flipperFormatDelimiter ∈ line ∧ keyText line ≠ [] ∧
      (keyText line).head? ≠ some flipperFormatComment then
    some (keyText line)
  else none

/-- The first key of a text and where its delimiter is. -/
def firstKey : List (List UInt8) → List UInt8 → Option (List UInt8 × ℕ)
  | [], last => (keyOf last).map fun key => (key, delimiterOf last)
  | line :: lines, last =>
    match keyOf line with
    | some key => some (key, delimiterOf line)
    | none => (firstKey lines last).map fun r => (r.1, line.length + 1 + r.2)

/-- Where what the key stands for begins, if it is there; in strict mode it has to be the first
key. -/
def valueStart (strictMode : Bool) (key : List UInt8) : List (List UInt8) → List UInt8 → Option ℕ
  | [], last =>
    if keyOf last = some key ∧ delimiterOf last + 2 ≤ last.length then some (delimiterOf last + 2)
    else none
  | line :: lines, last =>
    if keyOf line = some key then some (delimiterOf line + 2)
    else if strictMode = true ∧ keyOf line ≠ none then none
    else (valueStart strictMode key lines last).map (line.length + 1 + ·)

/-- Up to the end of the line. -/
def restOfLine (text : List UInt8) : List UInt8 := text.takeWhile (· ≠ flipperFormatEoln)

/-! ## Values -/

/-- The first word, and what is from the next one on. -/
def nextWord (line : List UInt8) : Option (List UInt8 × List UInt8) :=
  match line.dropWhile FlipperFormatStream.isSpace with
  | [] => none
  | c :: line =>
    some ((c :: line).takeWhile (!FlipperFormatStream.isSpace ·),
      ((c :: line).dropWhile (!FlipperFormatStream.isSpace ·)).dropWhile
        FlipperFormatStream.isSpace)

/-- The words that begin in a line, which may begin inside of one. -/
def wordsFrom : Bool → List UInt8 → ℕ
  | _, [] => 0
  | inWord, c :: line =>
    if FlipperFormatStream.isSpace c then wordsFrom false line
    else (if inWord then 0 else 1) + wordsFrom true line

def wordCount (line : List UInt8) : ℕ := wordsFrom false line

/-- So many elements, and what is behind them. -/
def parseValues {α : Type} (type : FlipperStreamValue α) :
    ℕ → List UInt8 → Option (List α × List UInt8)
  | 0, line => some ([], line)
  | left + 1, line =>
    match nextWord line with
    | none => none
    | some (word, line') =>
      match type.scan word with
      | none => none
      | some data =>
        if line' = [] ∧ left ≠ 0 then none
        else (parseValues type left line').map fun r => (data :: r.1, r.2)

/-- What is read of a line as a value of some type. -/
def parse (dataSize : ℕ) (line : List UInt8) : FlipperType → Option FlipperValue
  | .str =>
    if line.filter (· ≠ flipperFormatEolr) ≠ [] then
      some (.str (line.filter (· ≠ flipperFormatEolr)))
    else none
  | .hex => (parseValues .hex dataSize line).map fun r => .hex r.1
  | .int32 => (parseValues .int32 dataSize line).map fun r => .int32 r.1
  | .uint32 => (parseValues .uint32 dataSize line).map fun r => .uint32 r.1
  | .hexUint64 => (parseValues .hexUint64 dataSize line).map fun r => .hexUint64 r.1
  | .bool => (parseValues .bool dataSize line).map fun r => .bool r.1

end FlipperText

end KiisuFirmware
