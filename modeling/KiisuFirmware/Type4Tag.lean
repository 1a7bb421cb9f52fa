import KiisuFirmware.Apdu
import KiisuFirmware.Iso14443Layer
import KiisuFirmware.MfClassic

/-!
# Emulated Type 4 Tags

The data of a tag (`type_4_tag.c`, `type_4_tag_i.c`) and the listener that answers APDUs
(`type_4_tag_listener.c`, `type_4_tag_listener_i.c`). A pointer into a frame is an index into the body
of its APDU, and none if it is null. Memory is allocated with zeros in it, and there is enough of it.
-/

namespace KiisuFirmware

def TYPE_4_TAG_MF_DESFIRE_NDEF_SIZE : ℕ := 2048 - 2

def TYPE_4_TAG_DEFAULT_NDEF_SIZE : ℕ := TYPE_4_TAG_MF_DESFIRE_NDEF_SIZE

def TYPE_4_TAG_ISO_SELECT_P1_BY_NAME : UInt8 := 0x04

def TYPE_4_TAG_ISO_SELECT_P1_BY_EF_ID : UInt8 := 0x02

def TYPE_4_TAG_ISO_SELECT_P1_BY_ID : UInt8 := 0x00

def TYPE_4_TAG_ISO_READ_P1_ID_MASK : UInt8 := 0x80

def TYPE_4_TAG_ISO_READ_P_OFFSET_MAX : ℕ := 32767

def TYPE_4_TAG_ISO_WRITE_P1_ID_MASK : UInt8 := 0x80

def TYPE_4_TAG_ISO_STATUS_LEN : ℕ := 2

def TYPE_4_TAG_ISO_STATUS_SUCCESS : List UInt8 := [0x90, 0x00]

def TYPE_4_TAG_ISO_STATUS_OFFSET_ERR : List UInt8 := [0x6B, 0x00]

def TYPE_4_TAG_ISO_STATUS_NOT_FOUND : List UInt8 := [0x6A, 0x82]

def TYPE_4_TAG_ISO_STATUS_NO_SUPPORT : List UInt8 := [0x6A, 0x81]

def TYPE_4_TAG_ISO_STATUS_BAD_PARAMS : List UInt8 := [0x6A, 0x86]

def TYPE_4_TAG_ISO_STATUS_NO_CMD : List UInt8 := [0x68, 0x00]

def TYPE_4_TAG_ISO_RW_CHUNK_LEN : ℕ := 255

def TYPE_4_TAG_ISO_NAME_LEN : ℕ := 7

def TYPE_4_TAG_ISO_MF_NAME : List UInt8 := [0xD2, 0x76, 0x00, 0x00, 0x85, 0x01, 0x00]

def TYPE_4_TAG_ISO_DF_NAME : List UInt8 := [0xD2, 0x76, 0x00, 0x00, 0x85, 0x01, 0x01]

def TYPE_4_TAG_ISO_ID_LEN : ℕ := 2

def TYPE_4_TAG_ISO_MF_ID : UInt16 := 0x3F00

def TYPE_4_TAG_ISO_DF_ID : UInt16 := 0xE110

def TYPE_4_TAG_T4T_CC_EF_ID : UInt16 := 0xE103

def TYPE_4_TAG_T4T_NDEF_EF_ID : UInt16 := 0xE104

def TYPE_4_TAG_T4T_CC_VNO : UInt8 := 0x20

def TYPE_4_TAG_T4T_CC_RW_LOCK_NONE : UInt8 := 0x00

def TYPE_4_TAG_T4T_CC_MIN_SIZE : ℕ := 15

def TYPE_4_TAG_BUF_SIZE : ℕ := 256 - 3 - 2

def TYPE_4_TAG_CHUNK_LEN : ℕ := min (TYPE_4_TAG_BUF_SIZE - 5) TYPE_4_TAG_ISO_RW_CHUNK_LEN

/-- Bytes that are read or written where there are none, a size that is less than what is subtracted
from it, and a failed `furi_check`. -/
inductive Type4TagFault
  | outOfBounds
  | underflow
  | check
  deriving DecidableEq

inductive Type4TagError
  | none
  | notPresent
  | protocol
  | timeout
  | wrongFormat
  | notSupported
  | apduFailed
  | cardUnformatted
  | cardLocked
  | customCommand
  deriving DecidableEq, Repr

def Type4TagError.process : Iso14443_4aError → Type4TagError
  | .none => .none
  | .notPresent => .notPresent
  | .timeout => .timeout
  | .protocol => .protocol

structure Type4TagData where
  isTagSpecific : Bool
  t4tVersion : UInt8
  chunkMaxRead : UInt16
  chunkMaxWrite : UInt16
  ndefFileId : UInt16
  ndefMaxLen : UInt16
  ndefReadLock : UInt8
  ndefWriteLock : UInt8
  ndefData : List UInt8
  deriving DecidableEq

namespace Type4TagData

variable (data : Type4TagData)

/-- A number of two bytes, as `uint16_t` takes it. -/
def num16 (n : ℕ) : List UInt8 := bitLibNumToBytesBe n.toUInt64 2

def chunkMax (chunk : UInt16) : ℕ :=
  if data.isTagSpecific then min chunk.toNat TYPE_4_TAG_CHUNK_LEN else TYPE_4_TAG_CHUNK_LEN

def fileId : UInt16 := if data.isTagSpecific then data.ndefFileId else TYPE_4_TAG_T4T_NDEF_EF_ID

def maxLen : ℕ :=
  if data.isTagSpecific then data.ndefMaxLen.toNat else TYPE_4_TAG_DEFAULT_NDEF_SIZE

/-- The capability container. -/
def ccDump : List UInt8 :=
  num16 TYPE_4_TAG_T4T_CC_MIN_SIZE ++ TYPE_4_TAG_T4T_CC_VNO :: num16 (data.chunkMax data.chunkMaxRead) ++
    num16 (data.chunkMax data.chunkMaxWrite) ++ [0x04, 6] ++ num16 data.fileId.toNat ++
    num16 (2 + data.maxLen) ++
    [if data.isTagSpecific then data.ndefReadLock else TYPE_4_TAG_T4T_CC_RW_LOCK_NONE,
      if data.isTagSpecific then data.ndefWriteLock else TYPE_4_TAG_T4T_CC_RW_LOCK_NONE]

end Type4TagData

/-! ## Frames and memory -/

namespace Type4Tag

/-- Bytes copied from a place in a buffer. -/
def copyFrom (bytes : List UInt8) (ptr count : ℕ) : Except Type4TagFault (List UInt8) :=
  if ptr + count ≤ bytes.length then .ok ((bytes.drop ptr).take count) else .error .outOfBounds

/-- Bytes copied over those of a buffer. -/
def copyTo (bytes : List UInt8) (ptr : ℕ) (src : List UInt8) :
    Except Type4TagFault (List UInt8) :=
  if ptr + src.length ≤ bytes.length then .ok (overwrite bytes ptr src) else .error .outOfBounds

def bytesToNum (bytes : List UInt8) (ptr count : ℕ) : Except Type4TagFault ℕ := do
  let src ← copyFrom bytes ptr count
  return (bitLibBytesToNumBe src).toNat

/-- What is read through a pointer that may be null. -/
def dataBytes (body : List UInt8) (data : Option ℕ) (count : ℕ) :
    Except Type4TagFault (List UInt8) :=
  match data with
  | none => .error .check
  | some ptr => copyFrom body ptr count

/-- Bytes appended to the buffer that is sent. -/
def appendReply (tx bytes : List UInt8) : Except Type4TagFault (List UInt8) :=
  if tx.length + bytes.length ≤ TYPE_4_TAG_BUF_SIZE then .ok (tx ++ bytes) else .error .check

end Type4Tag

open Type4Tag

/-! ## The listener -/

inductive Type4TagListenerState
  | idle
  | selectedPicc
  | selectedApplication
  | selectedCapabilityContainer
  | selectedNdefMessage
  deriving DecidableEq, Repr

namespace Type4TagListenerState

/-- A state from that in which the application is selected on. -/
def hasApplication : Type4TagListenerState → Bool
  | idle => false
  | selectedPicc => false
  | selectedApplication => true
  | selectedCapabilityContainer => true
  | selectedNdefMessage => true

end Type4TagListenerState

structure Type4TagListener where
  data : Type4TagData
  state : Type4TagListenerState
  deriving DecidableEq

inductive Type4TagListenerEvent
  | fieldOff
  | halted
  | receivedData (frame : List UInt8)

namespace Type4TagListener

variable (listener : Type4TagListener)

def alloc (data : Type4TagData) : Type4TagListener := ⟨data, .idle⟩

def resetState : Type4TagListener := { listener with state := .idle }

def setState (state : Type4TagListenerState) : Type4TagListener := { listener with state := state }

def setNdefData (ndefData : List UInt8) : Type4TagListener :=
  { listener with data := { listener.data with ndefData := ndefData } }

/-- The outcome of a handler: the error, what is sent, and the listener after it. -/
abbrev Handled := Except Type4TagFault (Type4TagError × List UInt8 × Type4TagListener)

/-- An answer that is nothing but a status. -/
def answer (error : Type4TagError) (status : List UInt8) : Handled := do
  let tx ← appendReply [] status
  return (error, tx, listener)

def isoSelect (p1 _p2 : UInt8) (lc : ℕ) (body : List UInt8) (data : Option ℕ) (_le : ℕ) : Handled := do
  if p1 = TYPE_4_TAG_ISO_SELECT_P1_BY_NAME ∧ lc = TYPE_4_TAG_ISO_NAME_LEN then
    let name ← dataBytes body data TYPE_4_TAG_ISO_NAME_LEN
    if name = TYPE_4_TAG_ISO_MF_NAME then
      (listener.setState .selectedPicc).answer .none TYPE_4_TAG_ISO_STATUS_SUCCESS
    else if name = TYPE_4_TAG_ISO_DF_NAME then
      (listener.setState .selectedApplication).answer .none TYPE_4_TAG_ISO_STATUS_SUCCESS
    else listener.answer .customCommand TYPE_4_TAG_ISO_STATUS_NOT_FOUND
  else if (p1 = TYPE_4_TAG_ISO_SELECT_P1_BY_ID ∨ p1 = TYPE_4_TAG_ISO_SELECT_P1_BY_EF_ID) ∧
      lc = TYPE_4_TAG_ISO_ID_LEN then
    let src ← dataBytes body data 2
    let id := (bitLibBytesToNumBe src).toUInt16
    if p1 = TYPE_4_TAG_ISO_SELECT_P1_BY_ID ∧ id = TYPE_4_TAG_ISO_MF_ID then
      (listener.setState .selectedPicc).answer .none TYPE_4_TAG_ISO_STATUS_SUCCESS
    else if p1 = TYPE_4_TAG_ISO_SELECT_P1_BY_ID ∧ id = TYPE_4_TAG_ISO_DF_ID then
      (listener.setState .selectedApplication).answer .none TYPE_4_TAG_ISO_STATUS_SUCCESS
    else if listener.state.hasApplication ∧ id = TYPE_4_TAG_T4T_CC_EF_ID then
      (listener.setState .selectedCapabilityContainer).answer .none TYPE_4_TAG_ISO_STATUS_SUCCESS
    else if listener.state.hasApplication ∧ id = listener.data.fileId then
      (listener.setState .selectedNdefMessage).answer .none TYPE_4_TAG_ISO_STATUS_SUCCESS
    else listener.answer .customCommand TYPE_4_TAG_ISO_STATUS_NOT_FOUND
  else listener.answer .customCommand TYPE_4_TAG_ISO_STATUS_NOT_FOUND

/-- The capability container from an offset on. -/
def readCc (offset le : ℕ) : Handled := do
  let ccBuf := listener.data.ccDump
  if ccBuf.length ≤ offset then listener.answer .wrongFormat TYPE_4_TAG_ISO_STATUS_OFFSET_ERR
  else
    let bytes ← copyFrom ccBuf offset (min (ccBuf.length - offset) le)
    let tx ← appendReply [] bytes
    let tx ← appendReply tx TYPE_4_TAG_ISO_STATUS_SUCCESS
    return (.none, tx, listener)

/-- The data from an offset on, behind what of the length has been read. -/
def readNdefData (tx : List UInt8) (includedLen : Bool) (offset le : ℕ) : Handled := do
  let ndefFileLen := listener.data.ndefData.length
  if ndefFileLen ≤ offset then
    if includedLen then
      let tx ← appendReply tx TYPE_4_TAG_ISO_STATUS_SUCCESS
      return (.none, tx, listener)
    else
      let tx ← appendReply tx TYPE_4_TAG_ISO_STATUS_OFFSET_ERR
      return (.wrongFormat, tx, listener)
  else
    let bytes ← copyFrom listener.data.ndefData offset (min (ndefFileLen - offset) le)
    let tx ← appendReply tx bytes
    let tx ← appendReply tx TYPE_4_TAG_ISO_STATUS_SUCCESS
    return (.none, tx, listener)

/-- The length comes before the data, although it is not stored. -/
def readNdef (offset le : ℕ) : Handled := do
  if offset < 2 then
    let ndefFileLenBe := Type4TagData.num16 listener.data.ndefData.length
    let readLen := min (2 - offset) le
    let bytes ← copyFrom ndefFileLenBe offset readLen
    let tx ← appendReply [] bytes
    listener.readNdefData tx true 0 (le - readLen)
  else listener.readNdefData [] false (offset - 2) le

def isoRead (p1 p2 : UInt8) (_lc : ℕ) (_body : List UInt8) (_data : Option ℕ) (le : ℕ) : Handled :=
  if p1 &&& TYPE_4_TAG_ISO_READ_P1_ID_MASK ≠ 0 then
    listener.answer .customCommand TYPE_4_TAG_ISO_STATUS_NO_SUPPORT
  else
    let offset := p1.toNat * 256 + p2.toNat
    match listener.state with
    | .selectedCapabilityContainer => listener.readCc offset le
    | .selectedNdefMessage => listener.readNdef offset le
    | _ => listener.answer .customCommand TYPE_4_TAG_ISO_STATUS_NOT_FOUND

/-- The data cut off or followed by zeros. -/
def resized (ndefData : List UInt8) (len : ℕ) : List UInt8 :=
  ndefData.take len ++ List.replicate (len - ndefData.length) 0

/-- What is stored when so many bytes are written into a file of this length. -/
def writeNdefData (body : List UInt8) (ndefFileLenNew offset : ℕ) (data : Option ℕ) (lc : ℕ) :
    Handled := do
  let ndefFileLenNew := max ndefFileLenNew (offset + lc)
  let ndefData := if ndefFileLenNew ≠ listener.data.ndefData.length then
    resized listener.data.ndefData ndefFileLenNew else listener.data.ndefData
  if 0 < ndefFileLenNew ∧ 0 < lc then
    let bytes ← dataBytes body data lc
    let ndefData ← copyTo ndefData offset bytes
    (listener.setNdefData ndefData).answer .none TYPE_4_TAG_ISO_STATUS_SUCCESS
  else (listener.setNdefData ndefData).answer .none TYPE_4_TAG_ISO_STATUS_SUCCESS

/-- A write that begins in the length takes the length from there. The pointer to the rest is moved
by the offset of the data in the file. -/
def writeNdef (body : List UInt8) (offset : ℕ) (data : Option ℕ) (lc : ℕ) : Handled := do
  if 2 + listener.data.maxLen < offset + lc then
    listener.answer .wrongFormat TYPE_4_TAG_ISO_STATUS_OFFSET_ERR
  else if offset < 2 then
    let writeLen := 2 - offset
    let src ← dataBytes body data writeLen
    if lc < writeLen then .error .underflow
    else listener.writeNdefData body (bitLibBytesToNumBe src).toNat 0 (data.map (· + 2)) (lc - writeLen)
  else listener.writeNdefData body listener.data.ndefData.length (offset - 2) data lc

def isoWrite (p1 p2 : UInt8) (lc : ℕ) (body : List UInt8) (data : Option ℕ) (_le : ℕ) : Handled :=
  if p1 &&& TYPE_4_TAG_ISO_WRITE_P1_ID_MASK ≠ 0 then
    listener.answer .customCommand TYPE_4_TAG_ISO_STATUS_NO_SUPPORT
  else
    let offset := p1.toNat * 256 + p2.toNat
    match listener.state with
    | .selectedCapabilityContainer => listener.answer .notSupported TYPE_4_TAG_ISO_STATUS_NO_SUPPORT
    | .selectedNdefMessage => listener.writeNdef body offset data lc
    | _ => listener.answer .customCommand TYPE_4_TAG_ISO_STATUS_NOT_FOUND

/-- Parameters of an instruction, the length of its data and where they are, and the length that is
expected. -/
abbrev ApduHandler :=
  Type4TagListener → UInt8 → UInt8 → ℕ → List UInt8 → Option ℕ → ℕ → Handled

/-- The commands of the listener. -/
def apduHandler (cla ins : UInt8) : Option ApduHandler :=
  if cla = 0x00 ∧ ins = 0xA4 then some isoSelect
  else if cla = 0x00 ∧ ins = 0xB0 then some isoRead
  else if cla = 0x00 ∧ ins = 0xD6 then some isoWrite
  else none

/-- The length of the data, where they are, and the length that is expected, if the lengths match. -/
def apduBody (body : List UInt8) : Except Type4TagFault (Option (ℕ × Option ℕ × ℕ)) := do
  if body.length = 0 then return some (0, none, 0)
  else
    let first ← bytesToNum body 0 1
    if body.length = 1 then return some (0, none, expected first 256)
    else if body.length = 3 ∧ first = 0 then
      let le ← bytesToNum body 1 2
      return some (0, none, expected le 65536)
    else
      let lc ← if first = 0 then bytesToNum body 1 2 else pure first
      let data := if first = 0 then 1 + 2 else 1
      let bodySize := body.length - data
      if lc = 0 ∨ bodySize < lc then return none
      else if bodySize = lc then return some (lc, some data, 0)
      else if first ≠ 0 ∧ bodySize - lc = 1 then
        let le ← bytesToNum body (data + lc) 1
        return some (lc, some data, expected le 256)
      else if first = 0 ∧ bodySize - lc = 2 then
        let le ← bytesToNum body (data + lc) 2
        return some (lc, some data, expected le 65536)
      else return none

/-- The body of a command goes to its handler, if its lengths match. -/
def handleBody (handler : ApduHandler) (p1 p2 : UInt8) (body : List UInt8) : Handled := do
  match ← apduBody body with
  | none => listener.answer .wrongFormat TYPE_4_TAG_ISO_STATUS_BAD_PARAMS
  | some (lc, data, le) => handler listener p1 p2 lc body data le

/-- A frame without the two bytes of the instruction and its two parameters is not answered. -/
def dispatch : List UInt8 → Handled
  | cla :: ins :: p1 :: p2 :: body =>
    match apduHandler cla ins with
    | none => listener.answer .customCommand TYPE_4_TAG_ISO_STATUS_NO_CMD
    | some handler => listener.handleBody handler p1 p2 body
  | _ => .ok (.wrongFormat, [], listener)

/-- An unknown command stays one, whether or not its answer can be sent. -/
def handleApdu (sendBlock : List UInt8 → Iso14443_4aError) (frame : List UInt8) : Handled := do
  let (error, tx, listener) ← listener.dispatch frame
  if tx.length > 0 ∧ error ≠ .customCommand then
    return (Type4TagError.process (sendBlock tx), tx, listener)
  else return (error, tx, listener)

/-- What is sent, and the listener after it. -/
def run (sendBlock : List UInt8 → Iso14443_4aError) :
    Type4TagListenerEvent → Except Type4TagFault (List UInt8 × Type4TagListener)
  | .fieldOff => .ok ([], listener.resetState)
  | .halted => .ok ([], listener.resetState)
  | .receivedData frame => do
    let (_, tx, listener) ← listener.handleApdu sendBlock frame
    return (tx, listener)

end Type4TagListener

end KiisuFirmware
