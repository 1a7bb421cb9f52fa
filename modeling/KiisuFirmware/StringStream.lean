import KiisuFirmware.Stream

/-!
# The stream over a string

`string_stream.c`, over strings as `furi_string` has them: a list of bytes in a block of the heap.
The heap refuses a block whose size has the top bit set, which is a crash, here `none`.
-/

namespace KiisuFirmware

/-- A string that fits, with its terminator, in a block of the heap. -/
@[ext] structure FuriString where
  chars : List UInt8
  fits : chars.length + 1 < 2 ^ 31

namespace FuriString

/-- A string of these bytes, if the heap has a block for it. -/
def alloc (chars : List UInt8) : Option FuriString :=
  if h : chars.length + 1 < 2 ^ 31 then some ⟨chars, h⟩ else none

/-- A new string, or one that was reset. -/
def empty : FuriString := ⟨[], by decide⟩

variable (string : FuriString)

def size : ℕ := string.chars.length

def pushBack (c : UInt8) : Option FuriString := alloc (string.chars ++ [c])

def setChar (index : ℕ) (c : UInt8) : FuriString :=
  ⟨string.chars.set index c, by rw [List.length_set]; exact string.fits⟩

/-- `furi_string_replace_at` with an empty replacement. -/
def eraseAt (pos len : ℕ) : FuriString :=
  ⟨string.chars.take pos ++ string.chars.drop (pos + len), by
    have := string.fits
    simp only [List.length_append, List.length_take, List.length_drop]
    omega⟩

def left (index : ℕ) : FuriString :=
  ⟨string.chars.take index, by
    have := string.fits
    rw [List.length_take]
    omega⟩

/-- A new string from the C string that starts at `index`, which ends at the first zero byte. -/
def allocSet (index : ℕ) : FuriString :=
  ⟨(string.chars.drop index).takeWhile (· ≠ 0), by
    have h₁ := string.fits
    have h₂ : ((string.chars.drop index).takeWhile (· ≠ 0)).length ≤
        (string.chars.drop index).length := (List.takeWhile_prefix _).length_le
    rw [List.length_drop] at h₂
    omega⟩

def cat (right : FuriString) : Option FuriString := alloc (string.chars ++ right.chars)

end FuriString

structure StringStream where
  string : FuriString
  index : ℕ

namespace StringStream

def alloc : StringStream := ⟨.empty, 0⟩

/-- `string_stream_clean`, whatever there was. -/
def clean (_stream : StringStream) : StringStream := ⟨.empty, 0⟩

variable (stream : StringStream)

def tell : ℕ := stream.index

def size : ℕ := stream.string.size

def eof : Bool := decide (stream.size ≤ stream.tell)

/-- The index a seek asks for, and whether it is not before the start. -/
def seekIndex (offset : ℤ) : StreamOffset → Bool × ℕ
  | .fromStart => if 0 ≤ offset then (true, sizeT offset) else (false, 0)
  | .fromCurrent =>
    if 0 ≤ int32 (int32 stream.index + offset) then (true, sizeT (stream.index + offset))
    else (false, 0)
  | .fromEnd =>
    if 0 ≤ int32 (int32 stream.size + offset) then (true, sizeT (stream.size + offset))
    else (false, 0)

def seek (offset : ℤ) (offsetType : StreamOffset) : Bool × StringStream :=
  let target := stream.seekIndex offset offsetType
  let diff := int32 ((target.2 : ℤ) - stream.size)
  if 0 < diff then (false, ⟨stream.string, sizeT (target.2 - diff)⟩)
  else (target.1, ⟨stream.string, target.2⟩)

def writeChar (c : UInt8) : Option StringStream :=
  if stream.eof then (stream.string.pushBack c).map fun string => ⟨string, stream.index + 1⟩
  else some ⟨stream.string.setChar stream.index c, stream.index + 1⟩

def write (data : List UInt8) : Option (ℕ × StringStream) :=
  (data.foldlM writeChar stream).map fun stream => (data.length, stream)

/-- The loop of a read, of at least one byte if any is asked for. -/
def readLoop : ℕ → StringStream → List UInt8 × StringStream
  | 0, stream => ([], stream)
  | size + 1, stream =>
    let c := stream.string.chars.getD stream.index 0
    let s := (stream.seek 1 .fromCurrent).2
    if s.eof then ([c], s)
    else (c :: (readLoop size s).1, (readLoop size s).2)

def read (size : ℕ) : List UInt8 × StringStream :=
  if stream.eof then ([], stream) else readLoop size stream

/-- A write callback on a string stream. -/
def runWriteCB : StreamWriteCB → StringStream → Option (Bool × StringStream)
  | .done success, stream => some (success, stream)
  | .write data next, stream =>
    (stream.write data).bind fun w => runWriteCB (next w.1) w.2

def deleteAndInsert (deleteSize : ℕ) (writeCallback : Option StreamWriteCB) :
    Option (Bool × StringStream) :=
  let remainSize := min deleteSize (stream.size - stream.tell)
  let string := if deleteSize ≠ 0 ∧ remainSize ≠ 0 then
    stream.string.eraseAt stream.index remainSize else stream.string
  match writeCallback with
  | none => some (true, ⟨string, stream.index⟩)
  | some writeCallback => do
    let right := string.allocSet stream.index
    let (result, stream) ← runWriteCB writeCallback ⟨string.left stream.tell, stream.index⟩
    let string ← stream.string.cat right
    return (result, ⟨string, stream.index⟩)

/-- One call on a string stream, none if the heap runs out. -/
def exec : StreamOp StreamWriteCB → Option (StreamResult × StringStream)
  | .read n => some (.data (stream.read n).1, (stream.read n).2)
  | .write data => (stream.write data).map fun w => (.count w.1, w.2)
  | .seek offset offsetType =>
    some (.bool (stream.seek offset.toInt offsetType).1, (stream.seek offset.toInt offsetType).2)
  | .tell => some (.count stream.tell, stream)
  | .size => some (.count stream.size, stream)
  | .eof => some (.bool stream.eof, stream)
  | .clean => some (.none, stream.clean)
  | .deleteAndInsert n cb => (stream.deleteAndInsert n cb).map fun d => (.bool d.1, d.2)

end StringStream

end KiisuFirmware
