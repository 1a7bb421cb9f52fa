import KiisuFirmware.Cursor
import KiisuFirmware.Run

/-!
# Streams of buffers

`buffer_stream.c`: an interrupt fills buffers and passes on those that are full, and a thread takes
them and gives them back. The interrupt may come between any two steps of the thread, also in the
middle of giving a buffer back.
-/

namespace KiisuFirmware

/-- All the bytes of a buffer, also those behind its size. -/
structure Buffer where
  occupied : Bool
  size : ℕ
  data : List UInt8

namespace Buffer

variable (buffer : Buffer)

def alloc (bufferSize : ℕ) : Buffer := ⟨false, 0, List.replicate bufferSize 0⟩

def write (data : List UInt8) : Bool × Buffer :=
  if buffer.occupied then (false, buffer)
  else if buffer.data.length < buffer.size + data.length then (false, buffer)
  else (true, { buffer with
    data := overwrite buffer.data buffer.size data
    size := buffer.size + data.length })

/-- What a consumer gets of it. -/
def contents : List UInt8 := buffer.data.take buffer.size

end Buffer

/-- The pool, and the indices of the buffers whose pointers are in the stream. -/
structure BufferStream where
  streamOverrunCount : ℕ
  stream : List ℕ
  index : ℕ
  maxBuffersCount : ℕ
  buffers : ℕ → Buffer

/-- A buffer is used that is not one of the pool. -/
inductive BufferStreamFault
  | outOfBounds
  deriving DecidableEq

namespace BufferStream

variable (bufferStream : BufferStream)

def alloc (bufferSize buffersCount : ℕ) : BufferStream where
  streamOverrunCount := 0
  stream := []
  index := 0
  maxBuffersCount := buffersCount
  buffers _ := .alloc bufferSize

def setBuffer (i : ℕ) (buffer : Buffer) : BufferStream :=
  { bufferStream with buffers := Function.update bufferStream.buffers i buffer }

/-- The first buffer of the pool that is free. -/
def firstFree : Option ℕ :=
  (List.range bufferStream.maxBuffersCount).find? fun i => !(bufferStream.buffers i).occupied

/-- Its index, in an `int8_t`. -/
def getFreeBuffer : ℤ :=
  match bufferStream.firstFree with
  | none => -1
  | some i => (BitVec.ofNat 8 i).toInt

/-- A pointer goes into the stream if there is room for it. -/
def push (i : ℕ) : BufferStream :=
  if bufferStream.stream.length < bufferStream.maxBuffersCount then
    { bufferStream with stream := bufferStream.stream ++ [i] }
  else bufferStream

def occupy (i : ℕ) : BufferStream :=
  bufferStream.setBuffer i { bufferStream.buffers i with occupied := true }

/-- The result of the write to the new buffer is not looked at. -/
def sendFromIsr (data : List UInt8) : Except BufferStreamFault (Bool × BufferStream) :=
  let (written, buffer) := (bufferStream.buffers bufferStream.index).write data
  if written then .ok (true, bufferStream.setBuffer bufferStream.index buffer)
  else
    let bufferStream := (bufferStream.occupy bufferStream.index).push bufferStream.index
    let index := bufferStream.getFreeBuffer
    if index = -1 then
      .ok (false, { bufferStream with
        streamOverrunCount := bufferStream.streamOverrunCount + 1 })
    else if index < 0 then .error .outOfBounds
    else
      let buffer := ((bufferStream.buffers index.toNat).write data).2
      .ok (true, { bufferStream with index := index.toNat }.setBuffer index.toNat buffer)

def receive : Option ℕ × BufferStream :=
  match bufferStream.stream with
  | [] => (none, bufferStream)
  | i :: stream => (some i, { bufferStream with stream := stream })

end BufferStream

/-! ## The interrupt and the consumer -/

inductive BufferStreamAction
  /-- The interrupt sends a chunk. -/
  | send (data : List UInt8)
  | receive
  /-- The first half of `buffer_reset`. -/
  | release (i : ℕ)
  /-- The second half. -/
  | clear

/-- The buffers the consumer has, the one it is giving back, what it has read from those it has
received, and the chunks for which there was no overrun. -/
structure BufferStreamRun where
  bufferStream : BufferStream
  held : List ℕ
  releasing : Option ℕ
  delivered : List (List UInt8)
  accepted : List (List UInt8)

namespace BufferStreamRun

variable (run : BufferStreamRun)

def alloc (bufferSize buffersCount : ℕ) : BufferStreamRun where
  bufferStream := .alloc bufferSize buffersCount
  held := []
  releasing := none
  delivered := []
  accepted := []

def step : BufferStreamAction → Except BufferStreamFault BufferStreamRun
  | .send data => do
    let (result, bufferStream) ← run.bufferStream.sendFromIsr data
    return { run with
      bufferStream := bufferStream
      accepted := if result then run.accepted ++ [data] else run.accepted }
  | .receive =>
    let (received, bufferStream) := run.bufferStream.receive
    match received with
    | none => .ok run
    | some i => .ok { run with
        bufferStream := bufferStream
        held := run.held ++ [i]
        delivered := run.delivered ++ [(bufferStream.buffers i).contents] }
  | .release i => .ok { run with
      bufferStream := run.bufferStream.setBuffer i
        { run.bufferStream.buffers i with occupied := false }
      held := run.held.erase i
      releasing := some i }
  | .clear =>
    match run.releasing with
    | none => .ok run
    | some i => .ok { run with
        bufferStream := run.bufferStream.setBuffer i { run.bufferStream.buffers i with size := 0 }
        releasing := none }

end BufferStreamRun

end KiisuFirmware
