import KiisuFirmware.Cursor
import KiisuFirmware.Run
import KiisuFirmware.Word

/-!
# Emulated ISO15693-3 cards

The memory of a card, `iso15693_3.c`, and the listener that answers requests to it,
`iso15693_3_listener.c` and `iso15693_3_listener_i.c`, without an extension.
-/

namespace KiisuFirmware

/-- A failed `furi_check` or `furi_assert`, bytes that are read where there are none, and a division
by zero. -/
inductive Iso15693Fault
  | check
  | assert
  | outOfBounds
  | divisionByZero
  deriving DecidableEq

/-! ## The card -/

/-- The memory is allocated when the card is loaded. -/
structure Iso15693Data where
  uid : Vector UInt8 8
  flags : UInt8
  dsfid : UInt8
  afi : UInt8
  icRef : UInt8
  blockCount : ℕ
  blockSize : ℕ
  lockDsfid : Bool
  lockAfi : Bool
  blockData : List UInt8
  blockSecurity : List UInt8
  blockCount_lt : blockCount < 2 ^ 16
  blockSize_lt : blockSize < 2 ^ 8
  length_blockData : blockData.length = blockCount * blockSize
  length_blockSecurity : blockSecurity.length = blockCount
  deriving DecidableEq

namespace Iso15693Data

variable (data : Iso15693Data)

/-- A block number as a parameter of type `uint8_t`. -/
def blockNum (i : ℕ) : ℕ := i % 2 ^ 8

def isBlockLocked (i : ℕ) : Except Iso15693Fault Bool :=
  if blockNum i < data.blockCount then .ok (data.blockSecurity.getD (blockNum i) 0 ≠ 0)
  else .error .check

def getManufacturerId : UInt8 := data.uid[1]

def isEqualUid (uid : List UInt8) : Bool := data.uid.toList.reverse == uid

/-- The bytes of a block. -/
def block (i : ℕ) : List UInt8 := (data.blockData.drop (i * data.blockSize)).take data.blockSize

def setBlockLocked (i : ℕ) (locked : Bool) : Except Iso15693Fault Iso15693Data :=
  if blockNum i < data.blockCount then
    .ok { data with
      blockSecurity := data.blockSecurity.set (blockNum i) (if locked then 1 else 0)
      length_blockSecurity := by rw [List.length_set, data.length_blockSecurity] }
  else .error .assert

theorem length_overwrite_block {i : ℕ} {bytes : List UInt8}
    (h : i < data.blockCount ∧ bytes.length = data.blockSize) :
    (overwrite data.blockData (i * data.blockSize) bytes).length =
      data.blockCount * data.blockSize := by
  have hle : (i + 1) * data.blockSize ≤ data.blockCount * data.blockSize :=
    Nat.mul_le_mul_right _ h.1
  rw [Nat.succ_mul] at hle
  rw [length_overwrite (by rw [data.length_blockData]; omega), data.length_blockData, h.2]
  exact Nat.max_eq_left hle

def setBlockData (i : ℕ) (bytes : List UInt8) : Except Iso15693Fault Iso15693Data :=
  if h : blockNum i < data.blockCount ∧ bytes.length = data.blockSize then
    .ok { data with
      blockData := overwrite data.blockData (blockNum i * data.blockSize) bytes
      length_blockData := data.length_overwrite_block h }
  else .error .assert

end Iso15693Data

/-! ## Frames -/

def ISO15693_3_LISTENER_BUFFER_SIZE : ℕ := 1 + 256 * 4 + 2

def ISO13239_CRC_SIZE : ℕ := 2

def iso13239CrcCalculate (data : List UInt8) : UInt16 :=
  ~~~data.foldl (fun crc byte =>
    (List.range 8).foldl (fun crc _ => if crc &&& 1 = 1 then (crc >>> 1) ^^^ 0x8408 else crc >>> 1)
      (crc ^^^ byte.toUInt16)) 0xFFFF

def iso13239Crc (data : List UInt8) : List UInt8 :=
  let crc := iso13239CrcCalculate data
  [crc.toUInt8, (crc >>> 8).toUInt8]

/-- A frame that ends in its checksum. -/
def iso13239CrcCheck (rx : List UInt8) : Bool :=
  decide (ISO13239_CRC_SIZE < rx.length) &&
    rx.drop (rx.length - ISO13239_CRC_SIZE) ==
      iso13239Crc (rx.take (rx.length - ISO13239_CRC_SIZE))

/-- Bytes appended to the buffer that is sent. -/
def appendTx (tx bytes : List UInt8) : Except Iso15693Fault (List UInt8) :=
  if tx.length + bytes.length ≤ ISO15693_3_LISTENER_BUFFER_SIZE then .ok (tx ++ bytes)
  else .error .check

/-- Bytes copied from a place in a buffer. -/
def readBytes (bytes : List UInt8) (offset count : ℕ) : Except Iso15693Fault (List UInt8) :=
  if offset + count ≤ bytes.length then .ok ((bytes.drop offset).take count)
  else .error .outOfBounds

namespace Iso15693Data

variable (data : Iso15693Data)

def appendBlock (i : ℕ) (tx : List UInt8) : Except Iso15693Fault (List UInt8) :=
  if blockNum i < data.blockCount then appendTx tx (data.block (blockNum i)) else .error .assert

def appendBlockSecurity (i : ℕ) (tx : List UInt8) : Except Iso15693Fault (List UInt8) :=
  if blockNum i < data.blockCount then appendTx tx [data.blockSecurity.getD (blockNum i) 0]
  else .error .check

def appendUid (tx : List UInt8) : Except Iso15693Fault (List UInt8) :=
  appendTx tx data.uid.toList.reverse

end Iso15693Data

/-! ## The listener -/

inductive Iso15693Error
  | none
  | format
  | ignore
  | notSupported
  | uidMismatch
  | internal
  | unknown
  deriving DecidableEq

inductive Iso15693ListenerState
  | ready
  | selected
  | quiet
  deriving DecidableEq

structure Iso15693Listener where
  data : Iso15693Data
  state : Iso15693ListenerState
  selected : Bool
  addressed : Bool
  waitForEof : Bool
  txBuffer : List UInt8
  deriving DecidableEq

def ISO15693_3_REQ_FLAG_INVENTORY_T5 : UInt8 := 0x04

def ISO15693_3_REQ_FLAG_T4_SELECTED : UInt8 := 0x10

def ISO15693_3_REQ_FLAG_T4_ADDRESSED : UInt8 := 0x20

def ISO15693_3_REQ_FLAG_T4_OPTION : UInt8 := 0x40

def ISO15693_3_REQ_FLAG_T5_AFI_PRESENT : UInt8 := 0x10

def ISO15693_3_RESP_FLAG_NONE : UInt8 := 0

def ISO15693_3_RESP_FLAG_ERROR : UInt8 := 1

def ISO15693_3_RESP_ERROR_UNKNOWN : UInt8 := 0x0F

def ISO15693_3_UID_SIZE : ℕ := 8

/-- A flag of a request. -/
def hasFlag (flags flag : UInt8) : Bool := flags &&& flag ≠ 0

namespace Iso15693Listener

def alloc (data : Iso15693Data) : Iso15693Listener where
  data := data
  state := .ready
  selected := false
  addressed := false
  waitForEof := false
  txBuffer := []

/-- What a handler says, and the listener afterwards. -/
abbrev Handled := Except Iso15693Fault (Iso15693Error × Iso15693Listener)

variable (listener : Iso15693Listener)

def inventoryHandler (request : List UInt8) (flags : UInt8) : Handled := do
  let afiFlag := hasFlag flags ISO15693_3_REQ_FLAG_T5_AFI_PRESENT
  let dataSizeMin := if afiFlag then 2 else 1
  if request.length < dataSizeMin then return (.format, listener)
  else if afiFlag && request.getD 0 0 ≠ 0 && request.getD 0 0 ≠ listener.data.afi then
    return (.none, listener)
  else
    let maskLen := (request.getD (dataSizeMin - 1) 0).toNat
    if request.length ≠ dataSizeMin + maskLen then return (.format, listener)
    else
      let tx ← appendTx listener.txBuffer [listener.data.dsfid]
      let tx ← listener.data.appendUid tx
      return (.none, { listener with txBuffer := tx })

def stayQuietHandler : Handled := .ok (.ignore, { listener with state := .quiet })

def readBlockHandler (request : List UInt8) (flags : UInt8) : Handled := do
  if request.length ≠ 1 then return (.format, listener)
  else
    let blockIndex := (request.getD 0 0).toNat
    if listener.data.blockCount ≤ blockIndex then return (.internal, listener)
    else
      let tx ← if hasFlag flags ISO15693_3_REQ_FLAG_T4_OPTION then
          listener.data.appendBlockSecurity blockIndex listener.txBuffer
        else pure listener.txBuffer
      let tx ← listener.data.appendBlock blockIndex tx
      return (.none, { listener with txBuffer := tx })

/-- Whether the answer waits for an end of frame, in the commands that write. -/
def setWaitForEof (flags : UInt8) : Iso15693Listener :=
  { listener with waitForEof := hasFlag flags ISO15693_3_REQ_FLAG_T4_OPTION }

def setData (data : Iso15693Data) : Iso15693Listener := { listener with data := data }

def writeBlockHandler (request : List UInt8) (flags : UInt8) : Handled := do
  let listener := listener.setWaitForEof flags
  if request.length ≤ 1 then return (.format, listener)
  else
    let blockIndex := (request.getD 0 0).toNat
    let blockData := request.drop 1
    if listener.data.blockCount ≤ blockIndex then return (.internal, listener)
    else if blockData.length ≠ listener.data.blockSize then return (.internal, listener)
    else if ← listener.data.isBlockLocked blockIndex then return (.internal, listener)
    else return (.none, listener.setData (← listener.data.setBlockData blockIndex blockData))

def lockBlockHandler (request : List UInt8) (flags : UInt8) : Handled := do
  let listener := listener.setWaitForEof flags
  if request.length ≠ 1 then return (.format, listener)
  else
    let blockIndex := (request.getD 0 0).toNat
    if listener.data.blockCount ≤ blockIndex then return (.internal, listener)
    else if ← listener.data.isBlockLocked blockIndex then return (.internal, listener)
    else return (.none, listener.setData (← listener.data.setBlockLocked blockIndex true))

/-- The loop over the blocks that are read. -/
def appendBlocks (data : Iso15693Data) (includeBlockSecurity : Bool) :
    List ℕ → List UInt8 → Except Iso15693Fault (List UInt8)
  | [], tx => .ok tx
  | i :: is, tx => do
    let tx ← if includeBlockSecurity then data.appendBlockSecurity i tx else pure tx
    let tx ← data.appendBlock i tx
    appendBlocks data includeBlockSecurity is tx

def readMultiBlocksHandler (request : List UInt8) (flags : UInt8) : Handled := do
  if request.length ≠ 2 then return (.format, listener)
  else
    let blockIndexStart := (request.getD 0 0).toNat
    let blockIndexEnd :=
      min (blockIndexStart + (request.getD 1 0).toNat) (sizeT ((listener.data.blockCount : ℤ) - 1))
    let blockCount := sizeT ((blockIndexEnd : ℤ) - blockIndexStart + 1)
    let includeBlockSecurity := hasFlag flags ISO15693_3_REQ_FLAG_T4_OPTION
    let bytesPerBlock := ((if includeBlockSecurity then 1 else 0) + listener.data.blockSize) % 2 ^ 8
    let responseDataMax := ISO15693_3_LISTENER_BUFFER_SIZE - 1 - 2
    if bytesPerBlock = 0 then .error .divisionByZero
    else if responseDataMax / bytesPerBlock < blockCount then return (.ignore, listener)
    else
      let tx ← appendBlocks listener.data includeBlockSecurity
        (List.range' blockIndexStart (blockIndexEnd + 1 - blockIndexStart)) listener.txBuffer
      return (.none, { listener with txBuffer := tx })

/-- The loop that looks for a locked block. -/
def anyLocked (data : Iso15693Data) : List ℕ → Except Iso15693Fault Bool
  | [] => .ok false
  | i :: is => do if ← data.isBlockLocked i then return true else anyLocked data is

/-- The loop over the blocks that are written, each with the bytes at its own number. -/
def writeBlocks (bytes : List UInt8) (blockSize : ℕ) :
    List ℕ → Iso15693Data → Except Iso15693Fault Iso15693Data
  | [], data => .ok data
  | i :: is, data => do
    let blockData ← readBytes bytes (blockSize * i) blockSize
    let data ← data.setBlockData i blockData
    writeBlocks bytes blockSize is data

/-- `behind` is what the buffer of the request holds behind it. -/
def writeMultiBlocksHandler (request behind : List UInt8) (flags : UInt8) : Handled := do
  let listener := listener.setWaitForEof flags
  if request.length ≤ 2 then return (.format, listener)
  else
    let blockIndexStart := (request.getD 0 0).toNat
    let blockIndexEnd := blockIndexStart + (request.getD 1 0).toNat
    let blockCount := (request.getD 1 0).toNat + 1
    let blockCountAvailable := sizeT ((listener.data.blockCount : ℤ) - blockIndexStart)
    let blockSize := (request.length - 2) / blockCount
    let blocks := List.range' blockIndexStart (blockIndexEnd + 1 - blockIndexStart)
    if blockCountAvailable < blockCount then return (.internal, listener)
    else if blockSize ≠ listener.data.blockSize then return (.internal, listener)
    else if ← anyLocked listener.data blocks then return (.internal, listener)
    else
      let data ← writeBlocks ((request ++ behind).drop 2) blockSize blocks listener.data
      return (.none, listener.setData data)

def selectHandler (flags : UInt8) : Handled :=
  if hasFlag flags ISO15693_3_REQ_FLAG_T4_ADDRESSED then
    .ok (.none, { listener with state := .selected })
  else .ok (.format, listener)

def resetToReadyHandler : Handled := .ok (.none, { listener with state := .ready })

/-- A byte of the card that can be locked, written. -/
def writeField (request : List UInt8) (flags : UInt8) (locked : Iso15693Data → Bool)
    (set : Iso15693Data → UInt8 → Iso15693Data) : Handled :=
  let listener := listener.setWaitForEof flags
  if request.length ≤ 1 then .ok (.format, listener)
  else if locked listener.data then .ok (.internal, listener)
  else .ok (.none, listener.setData (set listener.data (request.getD 0 0)))

/-- A byte of the card, locked. -/
def lockField (flags : UInt8) (locked : Iso15693Data → Bool) (lock : Iso15693Data → Iso15693Data) :
    Handled :=
  let listener := listener.setWaitForEof flags
  if locked listener.data then .ok (.internal, listener)
  else .ok (.none, listener.setData (lock listener.data))

def writeAfiHandler (request : List UInt8) (flags : UInt8) : Handled :=
  listener.writeField request flags Iso15693Data.lockAfi fun data afi => { data with afi := afi }

def lockAfiHandler (flags : UInt8) : Handled :=
  listener.lockField flags Iso15693Data.lockAfi fun data => { data with lockAfi := true }

def writeDsfidHandler (request : List UInt8) (flags : UInt8) : Handled :=
  listener.writeField request flags Iso15693Data.lockDsfid fun data dsfid =>
    { data with dsfid := dsfid }

def lockDsfidHandler (flags : UInt8) : Handled :=
  listener.lockField flags Iso15693Data.lockDsfid fun data => { data with lockDsfid := true }

def getSystemInfoHandler : Handled := do
  let data := listener.data
  let tx ← appendTx listener.txBuffer [data.flags]
  let tx ← data.appendUid tx
  let tx ← appendTx tx ((if hasFlag data.flags 1 then [data.dsfid] else []) ++
    (if hasFlag data.flags 2 then [data.afi] else []) ++
    (if hasFlag data.flags 4 then
      [UInt8.ofNat (data.blockCount + 255), UInt8.ofNat (data.blockSize + 255)] else []) ++
    (if hasFlag data.flags 8 then [data.icRef] else []))
  return (.none, { listener with txBuffer := tx })

/-- The loop over the blocks whose locks are read. -/
def appendLocks (data : Iso15693Data) : List ℕ → List UInt8 → Except Iso15693Fault (List UInt8)
  | [], tx => .ok tx
  | i :: is, tx => do
    let locked ← data.isBlockLocked i
    let tx ← appendTx tx [if locked then 1 else 0]
    appendLocks data is tx

def getMultiBlocksSecurityHandler (request : List UInt8) : Handled := do
  if request.length < 2 then return (.format, listener)
  else
    let blockIndexStart := (request.getD 0 0).toNat
    let blockIndexEnd := blockIndexStart + (request.getD 1 0).toNat
    if listener.data.blockCount ≤ blockIndexEnd then return (.internal, listener)
    else
      let tx ← appendLocks listener.data
        (List.range' blockIndexStart (blockIndexEnd + 1 - blockIndexStart)) listener.txBuffer
      return (.none, { listener with txBuffer := tx })

/-- The table of the handlers. There is none in front of the first one, where the command 0 looks. -/
def handler (command : UInt8) (request behind : List UInt8) (flags : UInt8) : Option Handled :=
  match command with
  | 0x00 => some (.error .outOfBounds)
  | 0x01 => some (listener.inventoryHandler request flags)
  | 0x02 => some listener.stayQuietHandler
  | 0x20 => some (listener.readBlockHandler request flags)
  | 0x21 => some (listener.writeBlockHandler request flags)
  | 0x22 => some (listener.lockBlockHandler request flags)
  | 0x23 => some (listener.readMultiBlocksHandler request flags)
  | 0x24 => some (listener.writeMultiBlocksHandler request behind flags)
  | 0x25 => some (listener.selectHandler flags)
  | 0x26 => some listener.resetToReadyHandler
  | 0x27 => some (listener.writeAfiHandler request flags)
  | 0x28 => some (listener.lockAfiHandler flags)
  | 0x29 => some (listener.writeDsfidHandler request flags)
  | 0x2A => some (listener.lockDsfidHandler flags)
  | 0x2B => some listener.getSystemInfoHandler
  | 0x2C => some (listener.getMultiBlocksSecurityHandler request)
  | _ => none

/-- What becomes of an answer: it is sent, it waits for an end of frame, or there is none. -/
inductive Reply
  | sent (frame : List UInt8)
  | deferred (frame : List UInt8)
  | silent
  deriving DecidableEq

/-- The frame with its checksum. -/
def sendFrame : Except Iso15693Fault (Reply × Iso15693Listener) := do
  let tx ← appendTx listener.txBuffer (iso13239Crc listener.txBuffer)
  return (.sent tx, { listener with txBuffer := tx })

/-- An error frame instead of what a handler has put into the buffer. -/
def withError (error : Iso15693Error) : Iso15693Listener :=
  if error = .none then listener
  else { listener with txBuffer := [ISO15693_3_RESP_FLAG_ERROR, ISO15693_3_RESP_ERROR_UNKNOWN] }

def handleStandardRequest (command : UInt8) (request behind : List UInt8) (flags : UInt8) :
    Except Iso15693Fault (Reply × Iso15693Listener) :=
  match { listener with txBuffer := [ISO15693_3_RESP_FLAG_NONE] }.handler command request behind
    flags with
  | none => .ok (.silent, listener)
  | some handled => do
    let (error, listener) ← handled
    if error = .format ∨ error = .ignore then return (.silent, listener)
    else
      let listener := listener.withError error
      if listener.waitForEof then return (.deferred listener.txBuffer, listener)
      else listener.sendFrame

/-- Whom a request is for: this card, as a request of the standard, or not. -/
inductive Addressing
  | refused (error : Iso15693Error)
  | standard (command : UInt8) (request : List UInt8) (flags : UInt8)
  deriving DecidableEq

def handleCustomRequest (request : List UInt8) : Iso15693Error :=
  match request with
  | [] => .format
  | manufacturer :: _ =>
    if manufacturer ≠ listener.data.getManufacturerId then .ignore else .notSupported

/-- The mode of a request, as far as it does not refuse it. -/
def setMode (flags : UInt8) : Iso15693Error × Iso15693Listener :=
  if hasFlag flags ISO15693_3_REQ_FLAG_INVENTORY_T5 then
    if listener.state = .quiet then (.ignore, listener)
    else (.none, { listener with selected := false, addressed := false })
  else
    let selected := hasFlag flags ISO15693_3_REQ_FLAG_T4_SELECTED
    let addressed := hasFlag flags ISO15693_3_REQ_FLAG_T4_ADDRESSED
    let listener := { listener with selected := selected, addressed := addressed }
    if selected && addressed then (.unknown, listener)
    else if listener.state = .quiet then
      (if addressed then .ignore else .none, listener)
    else if listener.state ≠ .selected then
      (if selected then .ignore else .none, listener)
    else (.none, listener)

def address (rx : List UInt8) : Addressing × Iso15693Listener :=
  match rx with
  | flags :: command :: data =>
    let (error, listener) := listener.setMode flags
    if error ≠ .none then (.refused error, listener)
    else if 0xA0 ≤ command then (.refused (listener.handleCustomRequest data), listener)
    else if listener.addressed then
      if data.length < ISO15693_3_UID_SIZE then (.refused .format, listener)
      else if !listener.data.isEqualUid (data.take ISO15693_3_UID_SIZE) then
        (.refused .uidMismatch, listener)
      else (.standard command (data.drop ISO15693_3_UID_SIZE) flags, listener)
    else (.standard command data flags, listener)
  | _ => (.refused .format, listener)

/-- Another card has been selected. -/
def processUidMismatch (rx : List UInt8) : Iso15693Listener :=
  if rx.getD 1 0 = 0x25 ∧ listener.state = .selected then { listener with state := .ready }
  else listener

def processSingleEof : Except Iso15693Fault (Reply × Iso15693Listener) :=
  if listener.waitForEof then { listener with waitForEof := false }.sendFrame
  else .ok (.silent, listener)

/-- A frame is received; `behind` is what its buffer holds behind it. -/
def run (rx behind : List UInt8) : Except Iso15693Fault (Reply × Iso15693Listener) :=
  let listener := { listener with txBuffer := [] }
  if iso13239CrcCheck rx then
    let size := rx.length - ISO13239_CRC_SIZE
    match listener.address (rx.take size) with
    | (.standard command request flags, listener) =>
      listener.handleStandardRequest command request (rx.drop size ++ behind) flags
    | (.refused .uidMismatch, listener) => .ok (.silent, listener.processUidMismatch rx)
    | (.refused _, listener) => .ok (.silent, listener)
  else if rx.length = 0 then listener.processSingleEof
  else .ok (.silent, listener)

end Iso15693Listener

end KiisuFirmware
