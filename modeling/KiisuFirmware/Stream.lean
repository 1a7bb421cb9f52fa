import KiisuFirmware.Cursor
import KiisuFirmware.Word

/-!
# Streams and the stream over a storage file

The stream interface (`stream.h`) and its plain implementation over a storage file
(`file_stream.c`). The storage file is the ideal one: its operations succeed, reads and writes
are never short, and its pointer stays inside it.

`FileStream.deleteAndInsert` builds the new content in a scratch file with `streamCopy` and
copies it back, as the source does; the callback that writes the inserted piece is handed the
scratch file.
-/

namespace KiisuFirmware

/-- A storage file that behaves as it should. -/
abbrev File := Cursor UInt8

/-! ## The storage file -/

def storageFileSeek (file : File) (offset : ℕ) : Bool × File := (true, file.seek offset)

def storageFileRead (file : File) (size : ℕ) : List UInt8 × File :=
  (file.peek size, file.advance size)

def storageFileWrite (file : File) (data : List UInt8) : ℕ × File :=
  (data.length, file.write data)

def storageFileTruncate (file : File) : Bool × File := (true, file.truncate)

def storageFileTell (file : File) : ℕ := file.pos

def storageFileSize (file : File) : ℕ := file.data.length

def storageFileEof (file : File) : Bool := decide (file.pos = file.data.length)

/-! ## The stream interface -/

inductive StreamOffset
  | fromCurrent
  | fromStart
  | fromEnd
  deriving DecidableEq, Repr

/-- A call of the stream interface; `κ` is what `delete_and_insert` takes for its callback. -/
inductive StreamOp (κ : Type*)
  | read (size : ℕ)
  | write (data : List UInt8)
  | seek (offset : Int32) (offsetType : StreamOffset)
  | tell
  | size
  | eof
  | clean
  | deleteAndInsert (deleteSize : ℕ) (writeCallback : Option κ)

/-- A write callback: it writes one piece after the other to the stream it is given, each choice
depending on how much was written before, and says at the end whether it succeeded. -/
inductive StreamWriteCB
  | done (success : Bool)
  | write (data : List UInt8) (next : ℕ → StreamWriteCB)

/-- What a call returns. -/
inductive StreamResult
  | data (bytes : List UInt8)
  | count (n : ℕ)
  | bool (b : Bool)
  | none
  deriving DecidableEq, Repr

/-- What follows a step of a sequence that is left when a step fails. -/
def orBreak {σ : Type*} (r : Bool × σ) (next : σ → Bool × σ) : Bool × σ :=
  if r.1 then next r.2 else (false, r.2)

@[simp] theorem orBreak_true {σ : Type*} (s : σ) (next : σ → Bool × σ) :
    orBreak (true, s) next = next s := rfl

/-! ## The stream over a file -/

namespace FileStream

def tell (stream : File) : ℕ := sizeT (storageFileTell stream)

def size (stream : File) : ℕ := sizeT (storageFileSize stream)

def eof (stream : File) : Bool := storageFileEof stream

def read (stream : File) (size : ℕ) : List UInt8 × File := storageFileRead stream size

def write (stream : File) (data : List UInt8) : ℕ × File := storageFileWrite stream data

def clean (stream : File) : File := (storageFileTruncate (storageFileSeek stream 0).2).2

/-- Where a seek asks to go, none if before the start. -/
def seekPosition (currentPosition size : ℕ) (offset : ℤ) : StreamOffset → Option ℕ
  | .fromCurrent =>
    if 0 ≤ int32 (currentPosition + offset) then some (sizeT (currentPosition + offset)) else none
  | .fromStart => if 0 ≤ offset then some (sizeT offset) else none
  | .fromEnd => if 0 ≤ int32 (size + offset) then some (sizeT (size + offset)) else none

def seek (stream : File) (offset : ℤ) (offsetType : StreamOffset) : Bool × File :=
  let size := size stream
  match seekPosition (tell stream) size offset offsetType with
  | some seekPosition =>
    if 0 < int32 ((seekPosition : ℤ) - size) then (false, (storageFileSeek stream size).2)
    else storageFileSeek stream seekPosition
  | none => (false, (storageFileSeek stream 0).2)

def rewind (stream : File) : Bool × File := seek stream 0 .fromStart

end FileStream

def STREAM_CACHE_SIZE : ℕ := 512

/-- The rest of `stream_copy`, once `copied` bytes are over. -/
def streamCopyLoop (streamFrom streamTo : File) (size copied : ℕ) : ℕ × File × File :=
  let bytesCount := min STREAM_CACHE_SIZE (size - copied)
  if bytesCount = 0 then (copied, streamFrom, streamTo)
  else
    let r := FileStream.read streamFrom bytesCount
    if r.1.length ≠ bytesCount then (copied, r.2, streamTo)
    else
      let w := FileStream.write streamTo r.1
      if w.1 ≠ bytesCount then (copied, r.2, w.2)
      else streamCopyLoop r.2 w.2 size (copied + bytesCount)
  termination_by size - copied
  decreasing_by simp only [STREAM_CACHE_SIZE] at *; omega

def streamCopy (streamFrom streamTo : File) (size : ℕ) : ℕ × File × File :=
  streamCopyLoop streamFrom streamTo size 0

namespace FileStream

/-- A callback that writes what is to be inserted. -/
abbrev WriteCallback := File → Bool × File

def deleteAndInsert (stream : File) (deleteSize : ℕ) (writeCallback : Option WriteCallback) :
    Bool × File :=
  let scratch : File := .empty
  let currentPosition := tell stream
  let fileSize := size stream
  let sizeToDelete := min deleteSize (fileSize - currentPosition)
  let sizeToCopyBefore := currentPosition
  let sizeToCopyAfter := fileSize - currentPosition - sizeToDelete
  orBreak (rewind stream) fun stream =>
  let before := streamCopy stream scratch sizeToCopyBefore
  if before.1 ≠ sizeToCopyBefore then (false, before.2.1) else
  let written := writeCallback.elim (true, before.2.2) (· before.2.2)
  if !written.1 then (false, before.2.1) else
  let newPosition := tell written.2
  orBreak (seek before.2.1 (int32 sizeToDelete) .fromCurrent) fun stream =>
  let after := streamCopy stream written.2 sizeToCopyAfter
  if after.1 ≠ sizeToCopyAfter then (false, after.2.1) else
  let newFileSize := size after.2.2
  orBreak (rewind after.2.1) fun stream =>
  let scratch := rewind after.2.2
  if !scratch.1 then (false, stream) else
  let back := streamCopy scratch.2 stream newFileSize
  if back.1 ≠ newFileSize then (false, back.2.2) else
  orBreak (storageFileTruncate back.2.2) fun stream =>
  seek stream (int32 newPosition) .fromStart

/-- A write callback on a file stream. -/
def runWriteCB : StreamWriteCB → WriteCallback
  | .done success, stream => (success, stream)
  | .write data next, stream => runWriteCB (next (write stream data).1) (write stream data).2

/-- One call on a plain file stream. -/
def exec (stream : File) : StreamOp WriteCallback → StreamResult × File
  | .read n => (.data (read stream n).1, (read stream n).2)
  | .write data => (.count (write stream data).1, (write stream data).2)
  | .seek offset offsetType =>
    (.bool (seek stream offset.toInt offsetType).1, (seek stream offset.toInt offsetType).2)
  | .tell => (.count (tell stream), stream)
  | .size => (.count (size stream), stream)
  | .eof => (.bool (eof stream), stream)
  | .clean => (.none, clean stream)
  | .deleteAndInsert n cb =>
    (.bool (deleteAndInsert stream n cb).1, (deleteAndInsert stream n cb).2)

end FileStream

/-- The callback of a call as what an implementation runs. -/
def StreamOp.map {κ κ' : Type*} (f : κ → κ') : StreamOp κ → StreamOp κ'
  | .read n => .read n
  | .write data => .write data
  | .seek offset offsetType => .seek offset offsetType
  | .tell => .tell
  | .size => .size
  | .eof => .eof
  | .clean => .clean
  | .deleteAndInsert n cb => .deleteAndInsert n (cb.map f)

end KiisuFirmware
