import KiisuFirmware.Type4Tag

/-!
# Reading and writing Type 4 Tags

`type_4_tag_poller_i.c`: what is exchanged with a card to read its capability container, and to read
and write its message. A card answers a block with an error of the link or with bytes
(`iso14443_4a_poller_send_block`). The poller has a number of exchanges that are left to it.
-/

namespace KiisuFirmware

open Type4Tag

/-- A fault, or more exchanges than were left. -/
inductive Type4TagPollerStop
  | fault (fault : Type4TagFault)
  | exhausted
  deriving DecidableEq

structure Type4TagPoller (σ : Type) where
  data : Type4TagData
  card : σ
  left : ℕ

/-- What a card answers to a block. -/
abbrev Type4TagCard (σ : Type) := σ → List UInt8 → (Iso14443_4aError × List UInt8) × σ

/-! ## The capability container -/

namespace Type4TagData

/-- A byte of a buffer on the stack, or of what is behind it. -/
def rawByte (buf : List UInt8) (behind : ℕ → UInt8) (i : ℕ) : UInt8 :=
  if h : i < buf.length then buf[i] else behind i

/-- Where the first block of the type of a message begins. A length of 255 is followed by one of two
bytes. -/
def findNdefFileCtrl (raw : ℕ → UInt8) (stop tlv : ℕ) : Option ℕ :=
  if tlv < stop then
    if raw tlv = 0x04 then some tlv
    else if raw (tlv + 1) < 0xFF then
      findNdefFileCtrl raw stop (tlv + 2 + (raw (tlv + 1)).toNat)
    else findNdefFileCtrl raw stop (tlv + 2 + 2 + uint16Be (raw (tlv + 2)) (raw (tlv + 3)))
  else none
termination_by stop - tlv

def rawNum (raw : ℕ → UInt8) (i : ℕ) : UInt16 := (bitLibBytesToNumBe [raw i, raw (i + 1)]).toUInt16

/-- The length in front is compared as the processor has it, with the lower byte first. -/
def ccParse (data : Type4TagData) (buf : List UInt8) (behind : ℕ → UInt8) :
    Type4TagError × Type4TagData :=
  if buf.length < TYPE_4_TAG_T4T_CC_MIN_SIZE then (.wrongFormat, data)
  else
    let raw := rawByte buf behind
    if raw 2 ≠ TYPE_4_TAG_T4T_CC_VNO then (.notSupported, data)
    else
      let stop := min (uint16Be (raw 1) (raw 0)) buf.length
      match findNdefFileCtrl raw stop 7 with
      | none => (.wrongFormat, data)
      | some tlv =>
        (.none,
          { data with
            t4tVersion := raw 2
            chunkMaxRead := rawNum raw 3
            chunkMaxWrite := rawNum raw 5
            ndefFileId := rawNum raw (tlv + 2)
            ndefMaxLen := rawNum raw (tlv + 4) - 2
            ndefReadLock := raw (tlv + 6)
            ndefWriteLock := raw (tlv + 7) })

end Type4TagData

/-! ## Exchanges -/

namespace Type4TagPoller

variable {σ : Type} (send : Type4TagCard σ) (poller : Type4TagPoller σ)

def setData (data : Type4TagData) : Type4TagPoller σ := { poller with data := data }

/-- A fault ends everything. -/
def check {α : Type} : Except Type4TagFault α → Except Type4TagPollerStop α
  | .ok a => .ok a
  | .error fault => .error (.fault fault)

/-- A block is sent; the answer is without its status. -/
def apduTrx (tx : List UInt8) :
    Except Type4TagPollerStop (Type4TagError × List UInt8 × Type4TagPoller σ) := do
  let tx ← check (appendReply [] tx)
  match poller.left with
  | 0 => .error .exhausted
  | left + 1 =>
    let answer := send poller.card tx
    let poller := { poller with card := answer.2, left := left }
    let rx := answer.1.2
    if answer.1.1 ≠ .none then return (Type4TagError.process answer.1.1, rx, poller)
    else if rx.length < TYPE_4_TAG_ISO_STATUS_LEN then return (.wrongFormat, rx, poller)
    else
      let status := rx.drop (rx.length - 2)
      let rx := rx.take (rx.length - 2)
      return (if status = TYPE_4_TAG_ISO_STATUS_SUCCESS then .none else .apduFailed, rx, poller)

/-- A file is selected by its identifier. -/
def isoSelectFile (fileId : UInt16) :
    Except Type4TagPollerStop (Type4TagError × Type4TagPoller σ) := do
  let tx := [0x00, 0xA4, TYPE_4_TAG_ISO_SELECT_P1_BY_EF_ID, 0x0C, 2] ++ Type4TagData.num16 fileId.toNat
  let (error, _, poller) ← poller.apduTrx send tx
  return (if error = .apduFailed then .cardUnformatted else error, poller)

/-- What is left of a file is read in pieces that are as long as the card can send them; the first
number ends the recursion. -/
def isoReadLoop (chunkMax : ℕ) : ℕ → ℕ → ℕ → ℕ → List UInt8 → Type4TagPoller σ →
    Except Type4TagPollerStop (Type4TagError × List UInt8 × Type4TagPoller σ)
  | fuel, offset, length, ptr, buffer, poller =>
    if length = 0 then .ok (.none, buffer, poller)
    else
      match fuel with
      | 0 => .error .exhausted
      | fuel + 1 => do
        let chunkLen := min length chunkMax
        let tx := [0x00, 0xB0] ++ Type4TagData.num16 offset ++ [UInt8.ofNat chunkLen]
        let (error, rx, poller) ← poller.apduTrx send tx
        if error ≠ .none then return (error, buffer, poller)
        else if rx.length ≠ chunkLen then return (.wrongFormat, buffer, poller)
        else
          let buffer ← check (copyTo buffer ptr rx)
          isoReadLoop chunkMax fuel (offset + chunkLen) (length - chunkLen) (ptr + chunkLen) buffer poller

/-- The end of a file that is read or written has to be less than this. -/
def endMax (chunkMax : ℕ) : ℕ := TYPE_4_TAG_ISO_READ_P_OFFSET_MAX + chunkMax - 2

/-- As many bytes as the buffer has. -/
def isoRead (offset : ℕ) (buffer : List UInt8) :
    Except Type4TagPollerStop (Type4TagError × List UInt8 × Type4TagPoller σ) :=
  let chunkMax := poller.data.chunkMax poller.data.chunkMaxRead
  if endMax chunkMax < offset + buffer.length then .ok (.notSupported, buffer, poller)
  else isoReadLoop send chunkMax (poller.left + 1) offset buffer.length 0 buffer poller

/-- What is left to write goes in pieces that are as long as the card can take them; the first number
ends the recursion. -/
def isoWriteLoop (chunkMax : ℕ) (buffer : List UInt8) : ℕ → ℕ → ℕ → ℕ → Type4TagPoller σ →
    Except Type4TagPollerStop (Type4TagError × Type4TagPoller σ)
  | fuel, offset, length, ptr, poller =>
    if length = 0 then .ok (.none, poller)
    else
      match fuel with
      | 0 => .error .exhausted
      | fuel + 1 => do
        let chunkLen := min length chunkMax
        let bytes ← check (copyFrom buffer ptr chunkLen)
        let tx := [0x00, 0xD6] ++ Type4TagData.num16 offset ++ [UInt8.ofNat chunkLen] ++ bytes
        let (error, _, poller) ← poller.apduTrx send tx
        let error := if error = .apduFailed then .cardLocked else error
        if error ≠ .none then return (error, poller)
        else
          isoWriteLoop chunkMax buffer fuel (offset + chunkLen) (length - chunkLen) (ptr + chunkLen) poller

def isoWrite (offset : ℕ) (buffer : List UInt8) :
    Except Type4TagPollerStop (Type4TagError × Type4TagPoller σ) :=
  let chunkMax := poller.data.chunkMax poller.data.chunkMaxWrite
  if endMax chunkMax < offset + buffer.length then .ok (.notSupported, poller)
  else isoWriteLoop send chunkMax buffer (poller.left + 1) offset buffer.length 0 poller

/-- A file is selected, and the length it begins with is read. -/
def readFileLen (fileId : UInt16) :
    Except Type4TagPollerStop (Type4TagError × ℕ × Type4TagPoller σ) := do
  let (error, poller) ← poller.isoSelectFile send fileId
  if error ≠ .none then return (error, 0, poller)
  else
    let (error, lenBe, poller) ← poller.isoRead send 0 [0, 0]
    return (error, (bitLibBytesToNumBe lenBe).toNat, poller)

/-- The container is read into a buffer on the stack, in front of other bytes. -/
def readCc (behind : ℕ → UInt8) : Except Type4TagPollerStop (Type4TagError × Type4TagPoller σ) := do
  let (error, ccLen, poller) ← poller.readFileLen send TYPE_4_TAG_T4T_CC_EF_ID
  if error ≠ .none then return (error, poller)
  else
    let (error, ccBuf, poller) ← poller.isoRead send 0 (List.replicate ccLen 0)
    if error ≠ .none then return (error, poller)
    else
      let (error, data) := poller.data.ccParse ccBuf behind
      if error ≠ .none then return (error, poller)
      else return (.none, poller.setData { data with isTagSpecific := true })

/-- A message that is not empty is read into an array of its length. -/
def readNdef : Except Type4TagPollerStop (Type4TagError × Type4TagPoller σ) := do
  let (error, ndefLen, poller) ← poller.readFileLen send poller.data.ndefFileId
  if error ≠ .none then return (error, poller)
  else if ndefLen = 0 then return (.none, poller)
  else
    let (error, ndefBuf, poller) ← poller.isoRead send 2 (List.replicate ndefLen 0)
    return (error, poller.setData { poller.data with ndefData := ndefBuf })

/-- The length is written before the message, as a number of type `uint16_t`. -/
def writeNdef : Except Type4TagPollerStop (Type4TagError × Type4TagPoller σ) := do
  let (error, poller) ← poller.isoSelectFile send poller.data.ndefFileId
  if error ≠ .none then return (error, poller)
  else
    let ndefLen := poller.data.ndefData.length % 2 ^ 16
    let (error, poller) ← poller.isoWrite send 0 (Type4TagData.num16 ndefLen)
    if error ≠ .none then return (error, poller)
    else if ndefLen = 0 then return (.none, poller)
    else poller.isoWrite send 2 (poller.data.ndefData.take ndefLen)

end Type4TagPoller

end KiisuFirmware
