import KiisuFirmware.BufferStream
import KiisuFirmware.Stream
import KiisuFirmware.Varint

/-!
# Raw recordings of a tag

`lfrfid_raw_file.c` and `lfrfid_raw_worker.c`: an interrupt packs pairs of a pulse and a period into
the buffers of a stream, a thread writes those that are full to a file, and another one replays the
file through the two halves of a circular buffer. The storage file is the ideal one.
-/

namespace KiisuFirmware

/-- The four bytes of a `uint32_t` or a `size_t` in memory. -/
def uint32Bytes (value : UInt32) : List UInt8 :=
  [value.toUInt8, (value >>> 8).toUInt8, (value >>> 16).toUInt8, (value >>> 24).toUInt8]

def uint32OfBytes (bytes : List UInt8) : UInt32 :=
  bytes.foldr (fun byte value => byte.toUInt32 ||| value <<< 8) 0

/-! ## The file -/

def lfrfidRawFileMagic : UInt32 := 0x4C464952

def lfrfidRawFileVersion : UInt32 := 1

/-- The two numbers in the middle are floating point; here they are their bits. -/
structure LfrfidRawFileHeader where
  magic : UInt32
  version : UInt32
  frequency : UInt32
  dutyCycle : UInt32
  maxBufferSize : UInt32
  deriving DecidableEq

namespace LfrfidRawFileHeader

def size : ℕ := 20

def bytes (header : LfrfidRawFileHeader) : List UInt8 :=
  uint32Bytes header.magic ++ uint32Bytes header.version ++ uint32Bytes header.frequency ++
    uint32Bytes header.dutyCycle ++ uint32Bytes header.maxBufferSize

def ofBytes (bytes : List UInt8) : LfrfidRawFileHeader where
  magic := uint32OfBytes (bytes.take 4)
  version := uint32OfBytes ((bytes.drop 4).take 4)
  frequency := uint32OfBytes ((bytes.drop 8).take 4)
  dutyCycle := uint32OfBytes ((bytes.drop 12).take 4)
  maxBufferSize := uint32OfBytes ((bytes.drop 16).take 4)

end LfrfidRawFileHeader

structure LfrfidRawFile where
  stream : File
  maxBufferSize : ℕ
  buffer : List UInt8
  bufferSize : ℕ
  bufferCounter : ℕ

inductive LfrfidRawFileError
  | header
  | readSize
  | sizeTooBig
  | readData
  | bufferTooSmall
  deriving DecidableEq

namespace LfrfidRawFile

def writeHeader (stream : File) (frequency dutyCycle : UInt32) (maxBufferSize : ℕ) : Bool × File :=
  let header : LfrfidRawFileHeader :=
    ⟨lfrfidRawFileMagic, lfrfidRawFileVersion, frequency, dutyCycle, UInt32.ofNat maxBufferSize⟩
  let (size, stream) := FileStream.write stream header.bytes
  (size = LfrfidRawFileHeader.size, stream)

def writeBuffer (stream : File) (bufferData : List UInt8) : Bool × File :=
  let (size, stream) := FileStream.write stream (uint32Bytes (UInt32.ofNat bufferData.length))
  if size ≠ 4 then (false, stream)
  else
    let (size, stream) := FileStream.write stream bufferData
    (size = bufferData.length, stream)

/-- The header is read from the start of a file. -/
def readHeader (stream : File) :
    Except LfrfidRawFileError (LfrfidRawFileHeader × LfrfidRawFile) :=
  let (bytes, stream) := FileStream.read stream LfrfidRawFileHeader.size
  let header := LfrfidRawFileHeader.ofBytes bytes
  if bytes.length = LfrfidRawFileHeader.size then
    if header.magic = lfrfidRawFileMagic ∧ header.version = lfrfidRawFileVersion then
      .ok (header, ⟨stream, header.maxBufferSize.toNat,
        List.replicate header.maxBufferSize.toNat 0, 0, 0⟩)
    else .error .header
  else .error .header

variable (file : LfrfidRawFile)

/-- The next buffer of the file, the first one after the header where the file ends. -/
def readBuffer : Except LfrfidRawFileError (Bool × LfrfidRawFile) := do
  let passEnd := FileStream.eof file.stream
  let stream :=
    if passEnd then (FileStream.seek file.stream LfrfidRawFileHeader.size .fromStart).2
    else file.stream
  let (bytes, stream) := FileStream.read stream 4
  if bytes.length ≠ 4 then throw .readSize
  let bufferSize := (uint32OfBytes bytes).toNat
  if file.maxBufferSize < bufferSize then throw .sizeTooBig
  let (bytes, stream) := FileStream.read stream bufferSize
  if bytes.length ≠ bufferSize then throw .readData
  return (passEnd, ⟨stream, file.maxBufferSize, overwrite file.buffer 0 bytes, bufferSize, 0⟩)

/-- A buffer that has something left, and whether the file began again. -/
def loadBuffer : Except LfrfidRawFileError (Bool × LfrfidRawFile) :=
  if file.bufferSize ≤ file.bufferCounter then file.readBuffer else .ok (false, file)

/-- A duration, a pulse, and whether the file began again. -/
def readPair : Except LfrfidRawFileError ((UInt32 × UInt32 × Bool) × LfrfidRawFile) := do
  let (passEnd, file) ← file.loadBuffer
  match varintPairUnpack
      ((file.buffer.drop file.bufferCounter).take (file.bufferSize - file.bufferCounter)) with
  | some (pulse, duration, size) =>
    return ((duration, pulse, passEnd), { file with bufferCounter := file.bufferCounter + size })
  | none => throw .bufferTooSmall

end LfrfidRawFile

/-! ## Capture -/

def rfidDataBufferSize : ℕ := 2048

def readDataBufferCount : ℕ := 4

/-- Where the thread is with a buffer it has received. -/
inductive LfrfidRawReadPhase
  | receiving
  | writing (i : ℕ)
  /-- Before each of the two halves of `buffer_reset`. -/
  | releasing (i : ℕ)
  | clearing
  | fileError
  deriving DecidableEq

inductive LfrfidRawFault
  | stream (fault : BufferStreamFault)
  | check
  deriving DecidableEq

/-- A capture of the interrupt, or what the thread does next. -/
inductive LfrfidRawAction
  | capture (level : Bool) (duration : UInt32)
  | work
  deriving DecidableEq

structure LfrfidRawReadWorker where
  pair : VarintPair
  stream : BufferStreamRun
  file : File
  phase : LfrfidRawReadPhase

namespace LfrfidRawReadWorker

/-- The thread when capture starts. -/
def start (frequency dutyCycle : UInt32) : LfrfidRawReadWorker where
  pair := .alloc
  stream := .alloc rfidDataBufferSize readDataBufferCount
  file := (LfrfidRawFile.writeHeader .empty frequency dutyCycle rfidDataBufferSize).2
  phase := .receiving

variable (worker : LfrfidRawReadWorker)

/-- A step on the stream of buffers. -/
def streamStep (action : BufferStreamAction) : Except LfrfidRawFault LfrfidRawReadWorker :=
  match worker.stream.step action with
  | .ok stream => .ok { worker with stream := stream }
  | .error fault => .error (.stream fault)

def capture (level : Bool) (duration : UInt32) : Except LfrfidRawFault LfrfidRawReadWorker :=
  let (needToSend, pair) := worker.pair.pack level duration
  if needToSend then do
    let worker ← worker.streamStep (.send pair.getData)
    return { worker with pair := pair.reset }
  else .ok { worker with pair := pair }

/-- One step of the loop of the thread. -/
def work : Except LfrfidRawFault LfrfidRawReadWorker :=
  match worker.phase with
  | .receiving => do
    let received := worker.stream.bufferStream.receive.1
    let worker ← worker.streamStep .receive
    return { worker with phase := received.elim .receiving .writing }
  | .writing i =>
    let buffer := worker.stream.bufferStream.buffers i
    if buffer.size = 0 then .error .check
    else
      let (fileValid, file) := LfrfidRawFile.writeBuffer worker.file buffer.contents
      .ok { worker with
        file := file
        phase := if fileValid then .releasing i else .fileError }
  | .releasing i => do
    let worker ← worker.streamStep (.release i)
    return { worker with phase := .clearing }
  | .clearing => do
    let worker ← worker.streamStep .clear
    return { worker with phase := .receiving }
  | .fileError => .ok worker

def step : LfrfidRawAction → Except LfrfidRawFault LfrfidRawReadWorker
  | .capture level duration => worker.capture level duration
  | .work => worker.work

end LfrfidRawReadWorker

/-! ## Emulation -/

def emulateBufferSize : ℕ := 1024

inductive LfrfidRawEmulateDMAEvent
  | halfTransfer
  | transferComplete
  deriving DecidableEq

structure LfrfidRawWorkerEmulate where
  file : LfrfidRawFile
  emulateBufferArr : ℕ → UInt32
  emulateBufferCcr : ℕ → UInt32

namespace LfrfidRawWorkerEmulate

variable (data : LfrfidRawWorkerEmulate)

def readPair (i : ℕ) : Except LfrfidRawFileError LfrfidRawWorkerEmulate := do
  let ((duration, pulse, _), file) ← data.file.readPair
  return ⟨file, Function.update data.emulateBufferArr i duration,
    Function.update data.emulateBufferCcr i pulse⟩

def scale (i : ℕ) : LfrfidRawWorkerEmulate :=
  { data with
    emulateBufferArr :=
      Function.update data.emulateBufferArr i (data.emulateBufferArr i / 8 - 1)
    emulateBufferCcr := Function.update data.emulateBufferCcr i (data.emulateBufferCcr i / 8) }

/-- The whole buffer, before the timer is started. -/
def fill : Except LfrfidRawFileError LfrfidRawWorkerEmulate :=
  (List.range emulateBufferSize).foldlM (fun data i => do
    let data ← data.readPair i
    return data.scale i) data

/-- The file is opened and the buffer filled. -/
def start (file : File) : Except LfrfidRawFileError LfrfidRawWorkerEmulate := do
  let (_, file) ← LfrfidRawFile.readHeader (file.seek 0)
  fill ⟨file, fun _ => 0, fun _ => 0⟩

/-- Where the half begins that an event leaves to be refilled. -/
def refillStart : LfrfidRawEmulateDMAEvent → ℕ
  | .halfTransfer => 0
  | .transferComplete => emulateBufferSize / 2

/-- The entries are read from the start of the half, and scaled from the start of the buffer. -/
def refill (event : LfrfidRawEmulateDMAEvent) :
    Except LfrfidRawFileError LfrfidRawWorkerEmulate :=
  (List.range (emulateBufferSize / 2)).foldlM (fun data i => do
    let data ← data.readPair (refillStart event + i)
    return data.scale i) data

end LfrfidRawWorkerEmulate

end KiisuFirmware
