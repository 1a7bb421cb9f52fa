import KiisuFirmware.Cursor

/-!
# The expansion protocol

The parser of `expansion_protocol.h`. A frame is a packed structure, so it is the bytes it takes in
memory; what is received is stored over them. A store that would leave the structure has no result.
-/

namespace KiisuFirmware

def EXPANSION_PROTOCOL_MAX_DATA_SIZE : ℕ := 64

inductive ExpansionFrameType
  | heartbeat
  | status
  | baudRate
  | control
  | data
  deriving DecidableEq, Repr

def ExpansionFrameType.ofByte (type : UInt8) : Option ExpansionFrameType :=
  if type = 1 then some .heartbeat
  else if type = 2 then some .status
  else if type = 3 then some .baudRate
  else if type = 4 then some .control
  else if type = 5 then some .data
  else none

def EXPANSION_FRAME_SIZE : ℕ := 1 + (1 + EXPANSION_PROTOCOL_MAX_DATA_SIZE)

@[ext] structure ExpansionFrame where
  memory : List UInt8
  size_eq : memory.length = EXPANSION_FRAME_SIZE
  deriving DecidableEq

namespace ExpansionFrame

variable (frame : ExpansionFrame)

def type : Option ExpansionFrameType := ExpansionFrameType.ofByte (frame.memory.getD 0 0)

def statusError : UInt8 := frame.memory.getD 1 0

def controlCommand : UInt8 := frame.memory.getD 1 0

def dataSize : ℕ := (frame.memory.getD 1 0).toNat

def dataBytes : List UInt8 := (frame.memory.drop 2).take frame.dataSize

/-- The bytes stored from an offset on. -/
def store (offset : ℕ) (data : List UInt8) (h : offset + data.length ≤ EXPANSION_FRAME_SIZE) :
    ExpansionFrame where
  memory := overwrite frame.memory offset data
  size_eq := by
    rw [length_overwrite (by rw [frame.size_eq]; omega), frame.size_eq]
    omega

def getEncodedSize : ℕ :=
  match frame.type with
  | some .heartbeat => 1
  | some .status => 1 + 1
  | some .baudRate => 1 + 4
  | some .control => 1 + 1
  | some .data => 1 + 1 + frame.dataSize
  | none => 0

/-- The size of the contents, as far as it can be told from so much of them. -/
def contentSize (receivedContentSize : ℕ) : Option ℕ :=
  match frame.type with
  | some .heartbeat => some 0
  | some .status => some 1
  | some .baudRate => some 4
  | some .control => some 1
  | some .data =>
    if receivedContentSize < 1 then some 1
    else if EXPANSION_PROTOCOL_MAX_DATA_SIZE < frame.dataSize then none
    else some (1 + frame.dataSize)
  | none => none

def getRemainingSize (receivedSize : ℕ) : Option ℕ :=
  if receivedSize < 1 then some 1
  else
    let receivedContentSize := receivedSize - 1
    (frame.contentSize receivedContentSize).map fun contentSize =>
      if receivedContentSize < contentSize then contentSize - receivedContentSize else 0

end ExpansionFrame

inductive ExpansionProtocolStatus
  | ok
  | errorFormat
  | errorChecksum
  | errorCommunication
  deriving DecidableEq, Repr

/-- A receive callback, which gives the bytes it puts into a buffer of some size, and sees what it
likes of its context. -/
structure ExpansionFrameReceiveCallback (κ : Type) where
  receive : ℕ → κ → List UInt8 × κ
  fits : ∀ dataSize context, (receive dataSize context).1.length ≤ dataSize

/-- A send callback and how many bytes it has sent. -/
abbrev ExpansionFrameSendCallback (κ : Type) := List UInt8 → κ → ℕ × κ

namespace ExpansionProtocol

variable {κ : Type}

def getChecksum (data : List UInt8) : UInt8 := data.foldl (· ^^^ ·) 0

/-- The loop that receives until nothing remains: the status, `ok` if it was left that way, the
frame and how many bytes of it were received. -/
def decodeLoop (receive : ExpansionFrameReceiveCallback κ) (frame : ExpansionFrame) (context : κ)
    (totalSize : ℕ) : Option (ExpansionProtocolStatus × ExpansionFrame × ℕ × κ) :=
  match frame.getRemainingSize totalSize with
  | none => some (.errorFormat, frame, totalSize, context)
  | some 0 => some (.ok, frame, totalSize, context)
  | some (remainingSize + 1) =>
    let received := receive.receive (remainingSize + 1) context
    if received.1.length = 0 then some (.errorCommunication, frame, totalSize, received.2)
    else if h : totalSize + received.1.length ≤ EXPANSION_FRAME_SIZE then
      decodeLoop receive (frame.store totalSize received.1 h) received.2
        (totalSize + received.1.length)
    else none
  termination_by EXPANSION_FRAME_SIZE - totalSize
  decreasing_by
    rw [show (receive.receive (remainingSize + 1) context) = received from rfl]
    omega

def decode (frame : ExpansionFrame) (receive : ExpansionFrameReceiveCallback κ) (context : κ) :
    Option (ExpansionProtocolStatus × ExpansionFrame × κ) :=
  (decodeLoop receive frame context 0).map fun r =>
    if r.1 ≠ .ok then (r.1, r.2.1, r.2.2.2)
    else
      let received := receive.receive 1 r.2.2.2
      match received.1 with
      | [checksum] =>
        if checksum ≠ getChecksum (r.2.1.memory.take r.2.2.1) then
          (.errorChecksum, r.2.1, received.2)
        else (.ok, r.2.1, received.2)
      | _ => (.errorCommunication, r.2.1, received.2)

def encode (frame : ExpansionFrame) (send : ExpansionFrameSendCallback κ) (context : κ) :
    ExpansionProtocolStatus × κ :=
  let encodedSize := frame.getEncodedSize
  if encodedSize = 0 then (.errorFormat, context)
  else
    let checksum := getChecksum (frame.memory.take encodedSize)
    let sent := send (frame.memory.take encodedSize) context
    if sent.1 ≠ encodedSize then (.errorCommunication, sent.2)
    else
      let sentChecksum := send [checksum] sent.2
      if sentChecksum.1 ≠ 1 then (.errorCommunication, sentChecksum.2)
      else (.ok, sentChecksum.2)

end ExpansionProtocol

end KiisuFirmware
