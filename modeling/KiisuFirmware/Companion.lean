import KiisuFirmware.BitLib
import KiisuFirmware.Program

/-!
# Flashing the companion controller

`kiisu_companion_bridge.c`: a file is sent to the updater of the companion controller in chunks of
at most 32 bytes, each of which is committed and read back, and the update is finalized. What a
transfer on the I2C bus does may depend on everything that has happened before. Delays and the lines
of the log are left out, but for what the update makes of the values it reads back.
-/

namespace KiisuFirmware

namespace Companion

def REG_CMD : UInt8 := 0xF1
def REG_STATUS : UInt8 := 0xF2
def REG_ERROR : UInt8 := 0xF3
def REG_ROLL_CRC32 : UInt8 := 0xF4
def REG_TOTAL_LEN : UInt8 := 0xF8
def REG_RECV_LEN : UInt8 := 0xFC
def REG_CHUNK_OFFSET : UInt8 := 0xE0
def REG_CHUNK_LEN : UInt8 := 0xE4
def REG_CHUNK_CRC16 : UInt8 := 0xE6
def REG_DBG_CRC16_CALC : UInt8 := 0xE8
def REG_DBG_CRC16_HOST : UInt8 := 0xEA
def REG_DBG_VECT_RESET_0 : UInt8 := 0xEC
def REG_EVENT_FLAGS : UInt8 := 0xED
def REG_DATA : UInt8 := 0xC0
def EVT_DONE_MASK : UInt8 := 0x01
def CMD_ENTER_READY : UInt8 := 0xA0
def CMD_COMMIT_CHUNK : UInt8 := 0xB1
def CMD_FINALIZE : UInt8 := 0xA2
def ST_READY : UInt8 := 0x10
def ST_ERROR : UInt8 := 0x40
def RETRIES : ℕ := 2
def COMMIT_TIMEOUT_MS : ℕ := 5000
def FINALIZE_TIMEOUT_MS : ℕ := 120000

/-- What the host asks of the bus: to write the bytes of a register, to name the register that it
is going to read, to read as many bytes, or to see whether the device answers at all. -/
inductive Request
  | write (reg : UInt8) (data : List UInt8)
  | select (reg : UInt8)
  | read (reg : UInt8) (length : ℕ)
  | probe
  deriving DecidableEq, Repr

/-- Whether a transfer completes, the bytes it reads, and how many of them a transfer that fails has
stored. -/
structure Answer where
  ok : Bool
  byte : ℕ → UInt8
  stored : ℕ

inductive Event
  | transfer (request : Request) (ok : Bool) (stored : List UInt8)
  /-- A chunk has been verified: the length and the checksum that were read, and what was expected. -/
  | verify (rxlen : ℕ) (crc : UInt32) (expectedRx : ℕ) (hostRollingCrc : UInt32)
  /-- A chunk has not been verified: the length, if it could be read. -/
  | unverified (rxlen : Option ℕ)
  | rolling (crc : UInt32)
  deriving DecidableEq, Repr

/-- What has happened on the bus, the last event first, and how far the file has been read. -/
structure Bus where
  past : List Event
  position : ℕ
  deriving DecidableEq, Repr

abbrev Device := List Event → Request → Answer

/-- The file with the firmware: whether it can be opened, and how much a read at a place returns at
most. -/
structure Firmware where
  bytes : List UInt8
  opens : Bool
  most : ℕ → ℕ

abbrev Update := Program Bus String

def note (event : Event) : Update Unit :=
  modify fun bus => { bus with past := event :: bus.past }

variable (device : Device)

/-- A transfer: whether it completes, and what it has stored. -/
def transfer (request : Request) (length : ℕ) : Update (Bool × List UInt8) := do
  let bus ← get
  let answer := device bus.past request
  let stored := (List.range (if answer.ok then length else min answer.stored length)).map answer.byte
  note (.transfer request answer.ok stored)
  return (answer.ok, stored)

/-- Each try writes the register, and then once more in another way, for as long as the bytes fit. -/
def i2cWriteMemTries (reg : UInt8) (data : List UInt8) : ℕ → Update Bool
  | 0 => return false
  | tries + 1 => do
    let (ok, _) ← transfer device (.write reg data) 0
    if ok then return true
    if data.length ≤ 32 then
      let (ok, _) ← transfer device (.write reg data) 0
      if ok then return true
    i2cWriteMemTries reg data tries

def i2cWriteMemRetry (reg : UInt8) (data : List UInt8) : Update Bool :=
  i2cWriteMemTries device reg data (RETRIES + 1)

/-- A transfer into a buffer. -/
def receive (reg : UInt8) (buffer : List UInt8) : Update (Bool × List UInt8) := do
  let (ok, stored) ← transfer device (.read reg buffer.length) buffer.length
  return (ok, stored ++ buffer.drop stored.length)

def i2cReadMemRestart (reg : UInt8) (buffer : List UInt8) : Update (Bool × List UInt8) := do
  let (ok, _) ← transfer device (.select reg) 0
  if !ok then return (false, buffer)
  receive device reg buffer

/-- Each try reads the register after a restart, and then once more after a stop. -/
def i2cReadMemTries (reg : UInt8) : List UInt8 → ℕ → Update (Bool × List UInt8)
  | buffer, 0 => return (false, buffer)
  | buffer, tries + 1 => do
    let (ok, buffer) ← i2cReadMemRestart device reg buffer
    if ok then return (true, buffer)
    let (ok, buffer) ← receive device reg buffer
    if ok then return (true, buffer)
    i2cReadMemTries reg buffer tries

/-- Whether the register could be read, and what the buffer then holds. -/
def i2cReadMemRetry (reg : UInt8) (buffer : List UInt8) : Update (Bool × List UInt8) :=
  i2cReadMemTries device reg buffer (RETRIES + 1)

def updaterIsReady : Update Bool := do
  let (ok, _) ← transfer device .probe 0
  return ok

def updaterWriteU32 (base : UInt8) (value : ℕ) : Update Bool :=
  i2cWriteMemRetry device base (bitLibNumToBytesLe value 4)

def updaterReadU8 (reg : UInt8) (out : UInt8) : Update (Bool × UInt8) := do
  let (ok, buffer) ← i2cReadMemRetry device reg [out]
  return (ok, buffer.headD out)

def updaterWriteU16 (base : UInt8) (value : UInt16) : Update Bool :=
  i2cWriteMemRetry device base (bitLibNumToBytesLe value.toNat 2)

def updaterCmd (cmd : UInt8) : Update Bool :=
  i2cWriteMemRetry device REG_CMD [cmd]

def crc16X25 (data : List UInt8) : UInt16 := bitLibCrc16Reflected data 0x1021 0xFFFF 0xFFFF

def crc32StepHost (crc : UInt32) (data : List UInt8) : UInt32 :=
  ~~~data.foldl (fun (crc : UInt32) (byte : UInt8) =>
    (List.range 8).foldl (fun (crc : UInt32) _ =>
      crc >>> 1 ^^^ (0xEDB88320 &&& (0 - (crc &&& 1)))) (crc ^^^ byte.toUInt32)) (~~~crc)

variable (firmware : Firmware)

def storageFileRead (length : ℕ) : Update (List UInt8) := do
  let bus ← get
  let data := (firmware.bytes.drop bus.position).take (min length (firmware.most bus.position))
  modify fun bus => { bus with position := bus.position + data.length }
  return data

/-- The status is asked for until the device is ready or cannot be read. -/
def waitForReady : ℕ → UInt8 → Update UInt8
  | 0, st => return st
  | tries + 1, st => do
    let (ok, st) ← updaterReadU8 device REG_STATUS st
    if !ok then return st
    if st = ST_READY then return st
    waitForReady tries st

/-- A stack pointer into the memory and a reset vector into the image, at one of two places. -/
def vectorTable (totalLen : ℕ) (data : List UInt8) : Bool :=
  let newSp := bitLibBytesToNumLe (data.take 4)
  let newReset := bitLibBytesToNumLe ((data.drop 4).take 4)
  let spOk := newSp &&& 0xFF000000 == 0x20000000
  let resetInStage := 0x08010000 ≤ newReset && newReset < 0x08010000 + totalLen
  let resetInBase := 0x08000000 ≤ newReset && newReset < 0x08000000 + totalLen
  spOk && (resetInStage || resetInBase)

def chunkLen (rem : ℕ) : ℕ :=
  let len := if rem > 32 then 32 else rem
  if len > 8 then if len / 8 * 8 = 0 then 8 else len / 8 * 8 else len

/-- The registers of a chunk are read back, without a consequence. -/
def peekChunk (data : List UInt8) : Update Unit := do
  let _ ← i2cReadMemRetry device REG_CHUNK_OFFSET (List.replicate 4 0)
  let _ ← i2cReadMemRetry device REG_CHUNK_LEN [0]
  let _ ← i2cReadMemRetry device REG_CHUNK_CRC16 (List.replicate 2 0)
  let _ ← i2cReadMemRetry device REG_DATA (List.replicate (min data.length 8) 0)

/-- The registers of a chunk are written and it is committed. -/
def commitChunk (offset : ℕ) (data : List UInt8) : Update Unit := do
  if !(← updaterWriteU32 device REG_CHUNK_OFFSET offset) then throw "Write OFFSET failed"
  if !(← i2cWriteMemRetry device REG_CHUNK_LEN [data.length.toUInt8]) then throw "Write LEN failed"
  if !(← updaterWriteU16 device REG_CHUNK_CRC16 (crc16X25 data)) then throw "Write CRC16 failed"
  if !(← i2cWriteMemRetry device REG_DATA data) then throw "Write DATA failed"
  peekChunk device data
  if !(← updaterCmd device CMD_COMMIT_CHUNK) then throw "COMMIT failed"
  let _ ← updaterReadU8 device REG_STATUS 0xFF

/-- The status is asked for until the device is ready, has failed or has been asked often enough. -/
def pollCommit : ℕ → UInt8 → Update UInt8
  | 0, st => return st
  | polls + 1, st => do
    let (ok, st) ← updaterReadU8 device REG_STATUS st
    if !ok then pollCommit polls st
    else if st = ST_READY then return st
    else if st = ST_ERROR then
      let _ ← updaterReadU8 device REG_ERROR 0
      let _ ← i2cReadMemRetry device REG_DBG_CRC16_CALC (List.replicate 2 0)
      let _ ← i2cReadMemRetry device REG_DBG_CRC16_HOST (List.replicate 2 0)
      throw "Aux reported CRC/commit error"
    else pollCommit polls st

/-- The length and the checksum of the device are read, and if both can be, compared with what has
been sent. -/
def verifyChunk (offset : ℕ) (data : List UInt8) (hostRollingCrc : UInt32) : Update UInt32 := do
  let (rxlenRead, rxlen) ← i2cReadMemRetry device REG_RECV_LEN (List.replicate 4 0)
  if !rxlenRead then
    note (.unverified none)
    return hostRollingCrc
  let rxlen := bitLibBytesToNumLe rxlen
  let (crcRead, crc) ← i2cReadMemRetry device REG_ROLL_CRC32 (List.replicate 4 0)
  if !crcRead then
    note (.unverified (some rxlen))
    return hostRollingCrc
  let crc := (bitLibBytesToNumLe crc).toUInt32
  let hostRollingCrc := crc32StepHost hostRollingCrc data
  let expectedRx := offset + data.length
  note (.verify rxlen crc expectedRx hostRollingCrc)
  if rxlen ≠ expectedRx ∨ crc ≠ hostRollingCrc then throw "Verify mismatch after commit"
  return hostRollingCrc

/-- The checksum of the device, for the message at the end. -/
def readRollingCrc (rollingCrc : UInt32) : Update UInt32 := do
  let (ok, crc) ← i2cReadMemRetry device REG_ROLL_CRC32 (List.replicate 4 0)
  if !ok then return rollingCrc
  let crc := (bitLibBytesToNumLe crc).toUInt32
  note (.rolling crc)
  return crc

/-- A chunk is read from the file, sent, committed and verified. -/
def sendChunk (totalLen offset : ℕ) (rollingCrc hostRollingCrc : UInt32) :
    Update (UInt32 × UInt32) := do
  let len := chunkLen (totalLen - offset)
  let data ← storageFileRead firmware len
  if data.length ≠ len then throw "Read error"
  if offset = 0 ∧ 8 ≤ len ∧ vectorTable totalLen data = false then throw "Bad vector table"
  commitChunk device offset data
  let st ← pollCommit device (COMMIT_TIMEOUT_MS / 5) 0xFF
  if st ≠ ST_READY then throw "Commit timeout"
  let hostRollingCrc ← verifyChunk device offset data hostRollingCrc
  let rollingCrc ← readRollingCrc device rollingCrc
  return (rollingCrc, hostRollingCrc)

/-- The chunks from a place of the file on; there are at most as many as bytes. -/
def sendChunks (totalLen : ℕ) : ℕ → ℕ → UInt32 → UInt32 → Update UInt32
  | 0, _, rollingCrc, _ => return rollingCrc
  | chunks + 1, offset, rollingCrc, hostRollingCrc => do
    if !(offset < totalLen) then return rollingCrc
    let (rollingCrc, hostRollingCrc) ←
      sendChunk device firmware totalLen offset rollingCrc hostRollingCrc
    sendChunks totalLen chunks (offset + chunkLen (totalLen - offset)) rollingCrc hostRollingCrc

/-- The length the device has received is compared with that of the file, if it can be read. -/
def checkLength (totalLen : ℕ) : Update Unit := do
  let (ok, rxlen) ← i2cReadMemRetry device REG_RECV_LEN (List.replicate 4 0)
  if ok && bitLibBytesToNumLe rxlen ≠ totalLen then throw "Aux length mismatch before finalize"

/-- The device is watched until it is ready, has failed, is done, has not answered for more than 50
times in a row, or has been asked often enough: the last status, and whether it is done or gone. -/
def pollFinalize : ℕ → UInt8 → ℕ → Update (UInt8 × Bool)
  | 0, st, _ => return (st, false)
  | polls + 1, st, notReadyCount => do
    if !(← updaterIsReady device) then
      if notReadyCount + 1 > 50 then return (st, true)
      pollFinalize polls st (notReadyCount + 1)
    else
      let (ok, st) ← updaterReadU8 device REG_STATUS st
      if ok && (st == ST_READY || st == ST_ERROR) then return (st, false)
      let (ok, flags) ← updaterReadU8 device REG_EVENT_FLAGS 0
      if ok && flags &&& EVT_DONE_MASK ≠ 0 then return (st, true)
      pollFinalize polls st 0

def finalize : Update Unit := do
  if !(← updaterCmd device CMD_FINALIZE) then throw "FINALIZE failed"
  let (st, doneSeen) ← pollFinalize device (FINALIZE_TIMEOUT_MS / 20) 0xFF 0
  if !(st == ST_READY || doneSeen) then
    let _ ← updaterReadU8 device REG_ERROR 0xFF
    let _ ← i2cReadMemRetry device REG_DBG_CRC16_CALC (List.replicate 2 0)
    let _ ← i2cReadMemRetry device REG_DBG_CRC16_HOST (List.replicate 2 0)
    let _ ← i2cReadMemRetry device REG_DBG_VECT_RESET_0 (List.replicate 4 0)
    throw "Finalize timeout on aux"

/-- The length and the checksum of the message that ends an update that has gone well. -/
def performUpdate (otg : Bool) : Update (ℕ × UInt32) := do
  if !firmware.opens then throw "Failed to open file"
  let totalLen := firmware.bytes.length
  if totalLen = 0 ∨ totalLen > 0xC000 then throw "Invalid size (max ~48KB)"
  if !otg then throw "OTG power failed"
  if !(← updaterIsReady device) then throw "Device not found (0x30)"
  if !(← updaterWriteU32 device REG_TOTAL_LEN totalLen) then throw "Write TOTAL_LEN failed"
  if !(← updaterCmd device CMD_ENTER_READY) then throw "ENTER_READY failed"
  let st ← waitForReady device 50 0xFF
  if st ≠ ST_READY then throw "Not READY"
  let rollingCrc ← sendChunks device firmware totalLen totalLen 0 0 0
  checkLength device totalLen
  finalize device
  return (totalLen, rollingCrc)

end Companion

end KiisuFirmware
