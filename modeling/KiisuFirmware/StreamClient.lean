import KiisuFirmware.StringStream

/-!
# Code on top of a stream

What uses a stream (`stream.h`) goes through the functions of its implementation (`StreamVTable`)
and does not know which one it is. Such code is a `StreamM`: it gives a result and leaves the
stream in another state, or nothing at all, where the heap runs out or a loop would never end.
-/

namespace KiisuFirmware

/-- `StreamVTable`; only what makes a stream longer may find that the heap has run out. -/
structure StreamVTable (σ : Type) where
  eof : σ → Bool
  seek : σ → ℤ → StreamOffset → Bool × σ
  tell : σ → ℕ
  size : σ → ℕ
  write : σ → List UInt8 → Option (ℕ × σ)
  read : σ → ℕ → List UInt8 × σ
  deleteAndInsert : σ → ℕ → Option StreamWriteCB → Option (Bool × σ)

def StringStream.vtable : StreamVTable StringStream where
  eof := StringStream.eof
  seek := StringStream.seek
  tell := StringStream.tell
  size := StringStream.size
  write := StringStream.write
  read := StringStream.read
  deleteAndInsert := StringStream.deleteAndInsert

def FileStream.vtable : StreamVTable File where
  eof := FileStream.eof
  seek := FileStream.seek
  tell := FileStream.tell
  size := FileStream.size
  write stream data := some (FileStream.write stream data)
  read := FileStream.read
  deleteAndInsert stream deleteSize writeCallback :=
    some (FileStream.deleteAndInsert stream deleteSize (writeCallback.map FileStream.runWriteCB))

abbrev StreamM (σ α : Type) := StateT σ Option α

variable {σ τ : Type}

namespace StreamVTable

variable (v : StreamVTable σ)

def streamEof : StreamM σ Bool := fun stream => some (v.eof stream, stream)

def streamSeek (offset : ℤ) (offsetType : StreamOffset) : StreamM σ Bool :=
  fun stream => some (v.seek stream offset offsetType)

def streamTell : StreamM σ ℕ := fun stream => some (v.tell stream, stream)

def streamSize : StreamM σ ℕ := fun stream => some (v.size stream, stream)

def streamWrite (data : List UInt8) : StreamM σ ℕ := fun stream => v.write stream data

def streamRead (size : ℕ) : StreamM σ (List UInt8) := fun stream => some (v.read stream size)

def streamDeleteAndInsert (deleteSize : ℕ) (writeCallback : Option StreamWriteCB) :
    StreamM σ Bool :=
  fun stream => v.deleteAndInsert stream deleteSize writeCallback

def streamRewind : StreamM σ Bool := v.streamSeek 0 .fromStart

/-- Code that only writes, run on a stream. -/
def runWriteCB : StreamWriteCB → StreamM σ Bool
  | .done success => pure success
  | .write data next => do
    let bytesWritten ← v.streamWrite data
    runWriteCB (next bytesWritten)

end StreamVTable

/-! ## Chunk by chunk -/

/-- What is done with the bytes of a stream one after the other, and where to stop. -/
structure Scanner (τ : Type) where
  stops : τ → UInt8 → Bool
  step : τ → UInt8 → τ

/-- Over one buffer: the index it stops at, if it does. -/
def Scanner.scan (scanner : Scanner τ) : τ → List UInt8 → τ × Option ℕ
  | t, [] => (t, none)
  | t, data :: buffer =>
    if scanner.stops t data then (t, some 0)
    else
      let r := scanner.scan (scanner.step t data) buffer
      (r.1, r.2.map (· + 1))

inductive ScanEnd
  /-- A read returned nothing. -/
  | noMore
  /-- It stopped at this byte, and a seek went back to it or failed to. -/
  | stopped (data : UInt8) (seeked : Bool)
  deriving DecidableEq

def SCAN_BUFFER_SIZE : ℕ := 32

/-- The loop that reads buffer after buffer and goes back to where it stops. -/
def StreamVTable.scanLoop (v : StreamVTable σ) (scanner : Scanner τ) :
    ℕ → τ → StreamM σ (τ × ScanEnd)
  | 0, _ => fun _ => none
  | rounds + 1, t => do
    let buffer ← v.streamRead SCAN_BUFFER_SIZE
    if buffer.length = 0 then
      return (t, .noMore)
    else
      let r := scanner.scan t buffer
      match r.2 with
      | none => scanLoop v scanner rounds r.1
      | some i =>
        let seeked ← v.streamSeek (int32 (sizeT ((i : ℤ) - buffer.length))) .fromCurrent
        return (r.1, .stopped (buffer.getD i 0) seeked)

/-- No round is without a byte but the last. -/
def StreamVTable.scan (v : StreamVTable σ) (scanner : Scanner τ) (t : τ) :
    StreamM σ (τ × ScanEnd) := do
  let size ← v.streamSize
  v.scanLoop scanner (size + 1) t

end KiisuFirmware

/-!
## Looking for a character

`stream_seek_to_char` of `stream.c`. A search forwards reads pieces of the stream until it has the
character and goes back to it; a search backwards goes from piece to piece towards the start. A
search that finds nothing goes back to where it began. A `char` of the target is unsigned.
-/

namespace KiisuFirmware

def STREAM_BUFFER_SIZE : ℕ := 32

inductive StreamDirection
  | forward
  | backward
  deriving DecidableEq, Repr

variable {σ : Type}

/-- `furi_check`: a crash if the call fails. -/
def furiCheckStream (call : StreamM σ Bool) : StreamM σ Unit := do
  if ← call then pure () else fun _ => none

namespace StreamVTable

variable (v : StreamVTable σ) (c : UInt8)

/-- The loop of a search forwards. -/
def seekToCharForwardLoop : ℕ → StreamM σ Bool
  | 0 => fun _ => none
  | rounds + 1 => do
    let buffer ← v.streamRead STREAM_BUFFER_SIZE
    match buffer.findIdx? (· == c) with
    | some i =>
      let _ ← v.streamSeek (int32 (sizeT ((i : ℤ) - buffer.length))) .fromCurrent
      return true
    | none =>
      if buffer.length ≠ STREAM_BUFFER_SIZE then return false
      else seekToCharForwardLoop rounds

/-- Search is starting from the second character; a round that goes on has read something. -/
def streamSeekToCharForward : StreamM σ Bool := do
  let seeked ← v.streamSeek 1 .fromCurrent
  if !seeked then return false
  else
    let size ← v.streamSize
    v.seekToCharForwardLoop c (size + 1)

/-- The loop of a search backwards, which looks at each piece from its end. -/
def seekToCharBackwardLoop : ℕ → ℕ → StreamM σ Bool
  | 0, _ => fun _ => none
  | rounds + 1, anchor => do
    let toRead := if anchor < STREAM_BUFFER_SIZE then anchor else STREAM_BUFFER_SIZE
    let anchor := anchor - toRead
    furiCheckStream (v.streamSeek (int32 anchor) .fromStart)
    let buffer ← v.streamRead toRead
    match buffer.reverse.findIdx? (· == c) with
    | some i =>
      let cursor := buffer.length - i - 1
      furiCheckStream (v.streamSeek (int32 (sizeT (anchor + cursor))) .fromStart)
      return true
    | none =>
      if buffer.length ≠ STREAM_BUFFER_SIZE then return false
      else seekToCharBackwardLoop rounds anchor

/-- No round but the last leaves the anchor where it is. -/
def streamSeekToCharBackward : StreamM σ Bool := do
  let anchor ← v.streamTell
  if anchor = 0 then return false
  else v.seekToCharBackwardLoop c (anchor + 1) anchor

/-- The branches of `stream_seek_to_char`. -/
def searchIn : StreamDirection → StreamM σ Bool
  | .forward => v.streamSeekToCharForward c
  | .backward => v.streamSeekToCharBackward c

def streamSeekToChar (direction : StreamDirection) : StreamM σ Bool := do
  let oldPosition ← v.streamTell
  let result ← v.searchIn c direction
  if result then return true
  else
    let _ ← v.streamSeek (int32 oldPosition) .fromStart
    return false

end StreamVTable

end KiisuFirmware
