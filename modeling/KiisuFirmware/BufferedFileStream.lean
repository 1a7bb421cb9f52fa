import KiisuFirmware.Stream

/-!
# The buffered file stream

`stream_cache.c` and `buffered_file_stream.c`. The cache stands for a piece of the file. While
nothing is pending it holds what was read ahead and the file's pointer is behind it; while a
synchronisation is pending it holds what is to be written and the file's pointer is in front of
it.
-/

namespace KiisuFirmware

def STREAM_CACHE_MAX_SIZE : ℕ := 1024

/-- The cached bytes (`data[0..data_size)`) and the position among them. -/
@[ext] structure StreamCache where
  data : List UInt8
  position : ℕ
  position_le : position ≤ data.length
  size_le : data.length ≤ STREAM_CACHE_MAX_SIZE

namespace StreamCache

/-- An empty cache, as `stream_cache_alloc` and `stream_cache_drop` leave it. -/
def drop : StreamCache := ⟨[], 0, Nat.zero_le _, Nat.zero_le _⟩

variable (cache : StreamCache)

def atEnd : Bool := decide (cache.data.length = cache.position)

def size : ℕ := cache.data.length

def pos : ℕ := cache.position

def fill (stream : File) : ℕ × StreamCache × File :=
  let r := FileStream.read stream STREAM_CACHE_MAX_SIZE
  (r.1.length,
    ⟨r.1.take STREAM_CACHE_MAX_SIZE, 0, Nat.zero_le _, List.length_take_le _ _⟩, r.2)

def flush (stream : File) : Bool × StreamCache × File :=
  let w := FileStream.write stream cache.data
  (decide (w.1 = cache.data.length), drop, w.2)

def read (size : ℕ) : List UInt8 × StreamCache :=
  let sizeRead := min size (cache.data.length - cache.position)
  ((cache.data.drop cache.position).take sizeRead,
    ⟨cache.data, cache.position + sizeRead, by have := cache.position_le; omega, cache.size_le⟩)

/-- Writes at the position, over what is cached and further up to the cache's limit. -/
def write (data : List UInt8) : ℕ × StreamCache :=
  let sizeWritten := min data.length (STREAM_CACHE_MAX_SIZE - cache.position)
  (sizeWritten,
    ⟨overwrite cache.data cache.position (data.take sizeWritten), cache.position + sizeWritten,
      by rw [length_overwrite cache.position_le, List.length_take]; omega,
      by
        have := cache.position_le
        have := cache.size_le
        rw [length_overwrite cache.position_le, List.length_take]
        omega⟩)

def seekOffset (offset : ℤ) : ℤ :=
  if 0 < offset then min ((cache.data.length : ℤ) - cache.position) offset
  else if offset < 0 then max (-(cache.position : ℤ)) offset
  else 0

def seek (offset : ℤ) : ℤ × StreamCache :=
  (cache.seekOffset offset,
    ⟨cache.data, (cache.position + cache.seekOffset offset).toNat,
      by have := cache.position_le; unfold seekOffset; split_ifs <;> omega, cache.size_le⟩)

end StreamCache

structure BufferedFileStream where
  fileStream : File
  cache : StreamCache
  syncPending : Bool

namespace BufferedFileStream

/-- A stream that was just opened on a file. -/
def ofFile (file : File) : BufferedFileStream := ⟨file, .drop, false⟩

variable (stream : BufferedFileStream)

/-- Write the cache into the underlying stream and adjust seek position. -/
def flush : Bool × BufferedFileStream :=
  let offset := int32 ((stream.cache.size : ℤ) - stream.cache.pos)
  let w := stream.cache.flush stream.fileStream
  if !w.1 then (false, ⟨w.2.2, w.2.1, false⟩)
  else if 0 < offset then
    let s := FileStream.seek w.2.2 (-offset) .fromCurrent
    (s.1, ⟨s.2, w.2.1, false⟩)
  else (true, ⟨w.2.2, w.2.1, false⟩)

/-- Drop read cache and adjust the underlying stream seek position. -/
def unread : Bool × BufferedFileStream :=
  if 0 < stream.cache.size then
    if stream.cache.pos < stream.cache.size then
      let offset := int32 ((stream.cache.size : ℤ) - stream.cache.pos)
      let s := FileStream.seek stream.fileStream (-offset) .fromCurrent
      (s.1, ⟨s.2, .drop, stream.syncPending⟩)
    else (true, ⟨stream.fileStream, .drop, stream.syncPending⟩)
  else (true, stream)

def sync : Bool × BufferedFileStream :=
  if stream.syncPending then stream.flush else (true, stream)

/-- `buffered_file_stream_close`, up to the closing of the file itself. -/
def close : Bool × BufferedFileStream :=
  if stream.syncPending then stream.flush else stream.unread

def eof : Bool :=
  if !stream.syncPending then FileStream.eof stream.fileStream && stream.cache.atEnd
  else
    let remainingSize := FileStream.size stream.fileStream - FileStream.tell stream.fileStream
    decide ((if remainingSize ≠ 0 then stream.cache.atEnd
      else FileStream.eof stream.fileStream).toNat ≤ stream.cache.size)

def clean : BufferedFileStream := ⟨FileStream.clean stream.fileStream, .drop, false⟩

/-- What is left of a seek once the cache has moved as far as it can. -/
def newOffset (offset : ℤ) : StreamOffset → ℤ
  | .fromCurrent =>
    let newOffset := int32 (offset - stream.cache.seekOffset offset)
    if newOffset < 0 then int32 (newOffset - stream.cache.size) else newOffset
  | _ => offset

def seek (offset : ℤ) (offsetType : StreamOffset) : Bool × BufferedFileStream :=
  let newOffset := stream.newOffset offset offsetType
  let cache :=
    if offsetType = .fromCurrent then (stream.cache.seek offset).2 else stream.cache
  if newOffset ≠ 0 ∨ offsetType ≠ .fromCurrent then
    orBreak (if stream.syncPending then sync ⟨stream.fileStream, cache, stream.syncPending⟩
      else (true, ⟨stream.fileStream, .drop, stream.syncPending⟩)) fun stream =>
    let s := FileStream.seek stream.fileStream newOffset offsetType
    (s.1, ⟨s.2, stream.cache, stream.syncPending⟩)
  else (true, ⟨stream.fileStream, cache, stream.syncPending⟩)

def tell : ℕ :=
  let pos : ℤ := FileStream.tell stream.fileStream + stream.cache.pos
  sizeT (if !stream.syncPending then pos - stream.cache.size else pos)

def size : ℕ :=
  let size := FileStream.size stream.fileStream
  if stream.syncPending then
    let remainingSize := size - FileStream.tell stream.fileStream
    let cacheSize := stream.cache.size
    if remainingSize < cacheSize then sizeT (size + (cacheSize - remainingSize)) else size
  else size

/-- The loop of a write, over what is still to be written; the number of bytes left at its end. -/
def writeLoop (stream : BufferedFileStream) (data : List UInt8) : ℕ × BufferedFileStream :=
  if data = [] then (0, stream)
  else
    let w := stream.cache.write data
    if w.1 = data.length then (0, ⟨stream.fileStream, w.2, true⟩)
    else
      let f := w.2.flush stream.fileStream
      if f.1 then writeLoop ⟨f.2.2, f.2.1, false⟩ (data.drop w.1)
      else (data.length - w.1, ⟨f.2.2, f.2.1, false⟩)
  termination_by data.length + stream.cache.position
  decreasing_by
    simp only [w, f, StreamCache.flush, StreamCache.drop, StreamCache.write, List.length_drop,
      STREAM_CACHE_MAX_SIZE] at *
    omega

def write (data : List UInt8) : ℕ × BufferedFileStream :=
  let u := if stream.syncPending then (true, stream) else stream.unread
  if !u.1 then (0, u.2)
  else
    let w := u.2.writeLoop data
    (data.length - w.1, w.2)

/-- The loop of a read, over what is still to be read. -/
def readLoop (stream : BufferedFileStream) (size : ℕ) : List UInt8 × BufferedFileStream :=
  if size = 0 then ([], stream)
  else
    let r := stream.cache.read size
    if r.1.length = size then (r.1, ⟨stream.fileStream, r.2, stream.syncPending⟩)
    else
      let f := sync ⟨stream.fileStream, r.2, stream.syncPending⟩
      if f.1 then
        let c := StreamCache.fill f.2.fileStream
        if c.1 = 0 then (r.1, ⟨c.2.2, c.2.1, f.2.syncPending⟩)
        else
          let rest := readLoop ⟨c.2.2, c.2.1, f.2.syncPending⟩ (size - r.1.length)
          (r.1 ++ rest.1, rest.2)
      else (r.1, f.2)
  termination_by 2 * size + (if stream.cache.position = stream.cache.data.length then 1 else 0)
  decreasing_by
    simp only [f, r, c, StreamCache.fill, StreamCache.read, List.length_take, List.length_drop,
      STREAM_CACHE_MAX_SIZE] at *
    have := stream.cache.position_le
    split_ifs at * <;> omega

def read (size : ℕ) : List UInt8 × BufferedFileStream := stream.readLoop size

def deleteAndInsert (deleteSize : ℕ) (writeCallback : Option FileStream.WriteCallback) :
    Bool × BufferedFileStream :=
  orBreak (if stream.syncPending then stream.flush else stream.unread) fun stream =>
  let d := FileStream.deleteAndInsert stream.fileStream deleteSize writeCallback
  (d.1, ⟨d.2, stream.cache, stream.syncPending⟩)

end BufferedFileStream

/-- A call on a buffered stream: one of the stream interface, or a synchronisation. -/
inductive BufferedOp
  | stream (op : StreamOp FileStream.WriteCallback)
  | sync

namespace BufferedFileStream

def exec (stream : BufferedFileStream) : BufferedOp → StreamResult × BufferedFileStream
  | .stream (.read n) => (.data (stream.read n).1, (stream.read n).2)
  | .stream (.write data) => (.count (stream.write data).1, (stream.write data).2)
  | .stream (.seek offset offsetType) =>
    (.bool (stream.seek offset.toInt offsetType).1, (stream.seek offset.toInt offsetType).2)
  | .stream .tell => (.count stream.tell, stream)
  | .stream .size => (.count stream.size, stream)
  | .stream .eof => (.bool stream.eof, stream)
  | .stream .clean => (.none, stream.clean)
  | .stream (.deleteAndInsert n cb) =>
    (.bool (stream.deleteAndInsert n cb).1, (stream.deleteAndInsert n cb).2)
  | .sync => (.bool stream.sync.1, stream.sync.2)

end BufferedFileStream

/-- The same call on a plain file stream, which has nothing to synchronise. -/
def FileStream.execBuffered (stream : File) : BufferedOp → StreamResult × File
  | .stream op => FileStream.exec stream op
  | .sync => (.bool true, stream)

end KiisuFirmware
