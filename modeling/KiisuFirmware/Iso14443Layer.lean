import KiisuFirmware.BitBuffer
import KiisuFirmware.Run

/-!
# The block layer of ISO 14443-4

`iso14443_4_layer.c`. A failed `furi_check` is `none`.
-/

namespace KiisuFirmware

def ISO14443_4_BLOCK_PCB : UInt8 := 0x02

def ISO14443_4_BLOCK_PCB_MASK : UInt8 := 0x03

def ISO14443_4_BLOCK_PCB_I : UInt8 := 0

def ISO14443_4_BLOCK_PCB_I_MASK : UInt8 := 0x02

def ISO14443_4_BLOCK_PCB_I_ZERO_MASK : UInt8 := 0xE0

def ISO14443_4_BLOCK_PCB_I_NAD_MASK : UInt8 := 0x04

def ISO14443_4_BLOCK_PCB_I_CID_MASK : UInt8 := 0x08

def ISO14443_4_BLOCK_PCB_I_CHAIN_MASK : UInt8 := 0x10

def ISO14443_4_BLOCK_PCB_R_MASK : UInt8 := 0xA0

def ISO14443_4_BLOCK_PCB_R_CID_MASK : UInt8 := 0x08

def ISO14443_4_BLOCK_PCB_R_NACK_MASK : UInt8 := 0x10

def ISO14443_4_BLOCK_PCB_S_MASK : UInt8 := 0xC0

def ISO14443_4_BLOCK_PCB_S_CID_MASK : UInt8 := 0x08

def ISO14443_4_BLOCK_PCB_S_WTX_DESELECT_MASK : UInt8 := 0x30

def ISO14443_4_BLOCK_PPS_START : UInt8 := 0xD0

def ISO14443_4_BLOCK_PPS_START_MASK : UInt8 := 0xF0

def ISO14443_4_BLOCK_PPS_0_HAS_PPS1 : UInt8 := 0x10

def ISO14443_4_BLOCK_CID_MASK : UInt8 := 0x0F

def ISO14443_4_LAYER_CID_NOT_SUPPORTED : UInt8 := 0xFF

def ISO14443_4_LAYER_NAD_NOT_SUPPORTED : UInt8 := 0xFF

def ISO14443_4_LAYER_NAD_NOT_SET : UInt8 := 0xFE

def NFC_MAX_BUFFER_SIZE : ℕ := 256

def ISO14443_4A_LISTENER_BUF_SIZE : ℕ := 256

def pcbBitsActive (pcb mask : UInt8) : Bool := pcb &&& mask == mask

def pcbIsIBlock (pcb : UInt8) : Bool :=
  pcbBitsActive pcb ISO14443_4_BLOCK_PCB_I_MASK && pcb &&& ISO14443_4_BLOCK_PCB_I_ZERO_MASK == 0

def pcbIsRBlock (pcb : UInt8) : Bool := pcbBitsActive pcb ISO14443_4_BLOCK_PCB_R_MASK

def pcbIsSBlock (pcb : UInt8) : Bool := pcbBitsActive pcb ISO14443_4_BLOCK_PCB_S_MASK

def pcbIsChainActive (pcb : UInt8) : Bool := pcbBitsActive pcb ISO14443_4_BLOCK_PCB_I_CHAIN_MASK

def pcbRNackActive (pcb : UInt8) : Bool := pcbBitsActive pcb ISO14443_4_BLOCK_PCB_R_NACK_MASK

def ppsIsStart (pps : UInt8) : Bool :=
  pps &&& ISO14443_4_BLOCK_PPS_START_MASK == ISO14443_4_BLOCK_PPS_START

@[ext] structure Iso14443_4Layer where
  pcb : UInt8
  pcbPrev : UInt8
  cid : UInt8
  nad : UInt8
  canPps : Bool
  deriving DecidableEq

inductive Iso14443_4LayerResult
  | skip
  | data
  | send
  | sendHalt
  deriving DecidableEq, Repr

namespace Iso14443_4Layer

variable (layer : Iso14443_4Layer)

def updatePcb (toggleNum : Bool) : Iso14443_4Layer :=
  { layer with pcbPrev := layer.pcb, pcb := if toggleNum then layer.pcb ^^^ 0x01 else layer.pcb }

/-- A layer that was reset. -/
def reset : Iso14443_4Layer where
  pcbPrev := 0
  pcb := ISO14443_4_BLOCK_PCB_I ||| ISO14443_4_BLOCK_PCB
  cid := ISO14443_4_LAYER_CID_NOT_SUPPORTED
  nad := ISO14443_4_LAYER_NAD_NOT_SUPPORTED
  canPps := true

def setCid (cid : UInt8) : Iso14443_4Layer := { layer with cid := cid }

def setNadSupported (nad : Bool) : Iso14443_4Layer :=
  { layer with nad := if nad then 0 else ISO14443_4_LAYER_NAD_NOT_SUPPORTED }

def setIBlock (chaining cidPresent : Bool) : Iso14443_4Layer :=
  { layer with pcb := ISO14443_4_BLOCK_PCB_I |||
      (if chaining then ISO14443_4_BLOCK_PCB_I_CHAIN_MASK else 0) |||
      (if cidPresent then ISO14443_4_BLOCK_PCB_I_CID_MASK else 0) |||
      (layer.pcb &&& ISO14443_4_BLOCK_PCB_MASK) }

def setRBlock (acknowledged cidPresent : Bool) : Iso14443_4Layer :=
  { layer with pcb := ISO14443_4_BLOCK_PCB_R_MASK |||
      (if acknowledged then 0 else ISO14443_4_BLOCK_PCB_R_NACK_MASK) |||
      (if cidPresent then ISO14443_4_BLOCK_PCB_R_CID_MASK else 0) |||
      (layer.pcb &&& ISO14443_4_BLOCK_PCB_MASK) }

def setSBlock (deselect cidPresent : Bool) : Iso14443_4Layer :=
  { layer with pcb := ISO14443_4_BLOCK_PCB_S_MASK |||
      (if deselect then 0 else ISO14443_4_BLOCK_PCB_S_WTX_DESELECT_MASK) |||
      (if cidPresent then ISO14443_4_BLOCK_PCB_S_CID_MASK else 0) ||| ISO14443_4_BLOCK_PCB }

/-! ## The poller's side -/

def encodeCommand (inputData blockData : BitBuffer) : Option (BitBuffer × Iso14443_4Layer) := do
  let blockData ← blockData.appendByte layer.pcb
  let blockData ← blockData.append inputData
  return (blockData, layer.updatePcb true)

/-- An R-block that acknowledges. -/
def isAck (responsePcb : UInt8) : Bool := pcbIsRBlock responsePcb && !pcbRNackActive responsePcb

/-- The first byte of a buffer, which has one. -/
def getResponsePcb (blockData : BitBuffer) : UInt8 := blockData.data.headD 0

def decodeResponse (outputData blockData : BitBuffer) :
    Option (Bool × BitBuffer × Iso14443_4Layer) :=
  if pcbIsRBlock layer.pcbPrev then
    some (isAck (getResponsePcb blockData), outputData,
      { layer with pcb := layer.pcb &&& ISO14443_4_BLOCK_PCB_MASK }.updatePcb true)
  else if pcbIsChainActive layer.pcbPrev then
    some (isAck (getResponsePcb blockData), outputData,
      { layer with pcb := layer.pcb &&& ~~~ISO14443_4_BLOCK_PCB_I_CHAIN_MASK })
  else if pcbIsSBlock layer.pcbPrev then
    let ret := blockData.startsWithByte layer.pcbPrev
    if 1 < blockData.sizeBytes then
      (outputData.copyRight blockData 1).map fun outputData => (ret, outputData, layer)
    else some (ret, outputData, layer)
  else if !blockData.startsWithByte layer.pcbPrev then some (false, outputData, layer)
  else (outputData.copyRight blockData 1).map fun outputData => (true, outputData, layer)

/-! ## The listener's side -/

/-- Whether a block with its CID at this byte, or with none, is for another card. -/
def cidSkips (inputData : BitBuffer) (present : Bool) (index : ℕ) : Option Bool :=
  if present then do
    let byte ← inputData.getByte index
    let cid := byte &&& ISO14443_4_BLOCK_CID_MASK
    return layer.cid == ISO14443_4_LAYER_CID_NOT_SUPPORTED || cid != layer.cid
  else some (layer.cid != ISO14443_4_LAYER_CID_NOT_SUPPORTED && layer.cid != 0)

def decodePps (inputData blockData : BitBuffer) (ppss : UInt8) :
    Option (Iso14443_4LayerResult × BitBuffer × Iso14443_4Layer) :=
  if layer.canPps then
    let cid := ppss &&& ISO14443_4_BLOCK_CID_MASK
    if layer.cid ≠ ISO14443_4_LAYER_CID_NOT_SUPPORTED ∧ cid ≠ layer.cid then
      some (.skip, blockData, layer)
    else do
      let pps0 ← inputData.getByte 1
      if pps0 &&& ISO14443_4_BLOCK_PPS_0_HAS_PPS1 ≠ 0 then
        let _ ← inputData.getByte 2
      let blockData ← blockData.reset.appendByte ppss
      return (.send, blockData, { layer with canPps := false })
  else some (.skip, blockData, layer)

def decodeIBlock (inputData blockData : BitBuffer) :
    Option (Iso14443_4LayerResult × BitBuffer × Iso14443_4Layer) := do
  let hasCid := layer.pcb &&& ISO14443_4_BLOCK_PCB_I_CID_MASK ≠ 0
  let hasNad := layer.pcb &&& ISO14443_4_BLOCK_PCB_I_NAD_MASK ≠ 0
  if ← layer.cidSkips inputData hasCid 1 then return (.skip, blockData, layer)
  else
    let prologueLen := if hasCid then 2 else 1
    if hasNad then
      if layer.nad = ISO14443_4_LAYER_NAD_NOT_SUPPORTED then return (.skip, blockData, layer)
      else
        let nad ← inputData.getByte prologueLen
        let blockData ← blockData.copyRight inputData (prologueLen + 1)
        return (.data, blockData, { layer with nad := nad }.updatePcb false)
    else
      let blockData ← blockData.copyRight inputData prologueLen
      return (.data, blockData, layer.updatePcb false)

def decodeSBlock (inputData blockData : BitBuffer) :
    Option (Iso14443_4LayerResult × BitBuffer × Iso14443_4Layer) := do
  let hasCid := layer.pcb &&& ISO14443_4_BLOCK_PCB_S_CID_MASK ≠ 0
  if ← layer.cidSkips inputData hasCid 1 then return (.skip, blockData, layer)
  else if layer.pcb &&& ISO14443_4_BLOCK_PCB_S_WTX_DESELECT_MASK = 0 then
    let blockData ← blockData.copy inputData
    return (.sendHalt, blockData, layer)
  else return (.skip, blockData, layer)

def decodeRBlock (blockData : BitBuffer) :
    Option (Iso14443_4LayerResult × BitBuffer × Iso14443_4Layer) := do
  let layer := layer.updatePcb true
  let layer := { layer with pcb := layer.pcb ||| ISO14443_4_BLOCK_PCB_R_NACK_MASK }
  let blockData ← blockData.reset.appendByte layer.pcb
  return (.send, blockData, layer.updatePcb false)

def decodeCommand (inputData blockData : BitBuffer) :
    Option (Iso14443_4LayerResult × BitBuffer × Iso14443_4Layer) := do
  let ppss ← inputData.getByte 0
  if ppsIsStart ppss then layer.decodePps inputData blockData ppss
  else
    let layer := { layer with canPps := false, pcb := ppss }
    if pcbIsIBlock layer.pcb then layer.decodeIBlock inputData blockData
    else if pcbIsSBlock layer.pcb then layer.decodeSBlock inputData blockData
    else if pcbIsRBlock layer.pcb then layer.decodeRBlock blockData
    else return (.skip, blockData, layer)

end Iso14443_4Layer

/-!
## The poller of ISO 14443-4A

The exchanges of `iso14443_4a_poller_i.c`. What the card and the radio make of the frames that are
sent is a list of outcomes, one for each of them; where it ends the poller still waits.
-/

def ISO14443_4A_POLLER_BUF_SIZE : ℕ := 256

def ISO14443_4A_WTXM_MASK : UInt8 := 0x3F

def ISO14443_4A_WTXM_MAX : UInt8 := 0x3B

def ISO14443_4A_SWTX : UInt8 := 0xF2

inductive Iso14443_3aError
  | notPresent
  | colResFailed
  | bufferOverflow
  | communication
  | fieldOff
  | wrongCrc
  | timeout
  deriving DecidableEq, Repr

inductive Iso14443_4aError
  | none
  | notPresent
  | protocol
  | timeout
  deriving DecidableEq, Repr

def Iso14443_4aError.process : Iso14443_3aError → Iso14443_4aError
  | .notPresent => .notPresent
  | .timeout => .timeout
  | _ => .protocol

namespace BitBuffer

/-- A buffer with these bytes inside its size, and these behind it. -/
def frame (inside stale : List UInt8) : BitBuffer where
  data := inside ++ stale
  sizeBits := inside.length * BITS_IN_BYTE
  fits := Nat.mul_le_mul_right _ (by rw [List.length_append]; omega)

end BitBuffer

namespace Iso14443_4aPoller

/-- What the exchange of a block comes to before it is decoded. -/
inductive Answer
  | waiting
  | failed (error : Iso14443_4aError)
  | received (rxBuffer : BitBuffer)

/-- The frames that were sent, and the answer. -/
structure Exchanged where
  sent : List (List UInt8)
  answer : Answer

/-- A frame is sent, and again for as long as the card asks for more time. -/
def exchange (txBuffer : BitBuffer) : List (Except Iso14443_3aError BitBuffer) → Option Exchanged
  | [] => some ⟨[txBuffer.bytes], .waiting⟩
  | .error error :: _ => some ⟨[txBuffer.bytes], .failed (.process error)⟩
  | .ok rxBuffer :: outcomes =>
    if rxBuffer.startsWithByte ISO14443_4A_SWTX then do
      let byte ← rxBuffer.getByte 1
      let wtxm := byte &&& ISO14443_4A_WTXM_MASK
      if ISO14443_4A_WTXM_MAX < wtxm then return ⟨[txBuffer.bytes], .failed .protocol⟩
      else
        let wtxBuffer ← txBuffer.reset.copyLeft rxBuffer 1
        let wtxBuffer ← wtxBuffer.appendByte wtxm
        let exchanged ← exchange wtxBuffer outcomes
        return ⟨txBuffer.bytes :: exchanged.sent, exchanged.answer⟩
    else some ⟨[txBuffer.bytes], .received rxBuffer⟩

/-- How the sending of a block ends; without an error the poller still waits. -/
structure SendResult where
  sent : List (List UInt8)
  error : Option Iso14443_4aError
  rxBuffer : BitBuffer
  layer : Iso14443_4Layer
  deriving DecidableEq

/-- What follows once the block is encoded. -/
def receive (layer : Iso14443_4Layer) (block rxBuffer : BitBuffer)
    (outcomes : List (Except Iso14443_3aError BitBuffer)) : Option SendResult := do
  let exchanged ← exchange block outcomes
  match exchanged.answer with
  | .waiting => return ⟨exchanged.sent, none, rxBuffer, layer⟩
  | .failed error => return ⟨exchanged.sent, some error, rxBuffer, layer⟩
  | .received response =>
    let decoded ← layer.decodeResponse rxBuffer response
    return ⟨exchanged.sent, some (if decoded.1 then .none else .protocol), decoded.2.1, decoded.2.2⟩

variable (layer : Iso14443_4Layer) (txBuffer rxBuffer : BitBuffer)
  (outcomes : List (Except Iso14443_3aError BitBuffer))

def sendBlock : Option SendResult := do
  let encoded ← layer.encodeCommand txBuffer (.alloc ISO14443_4A_POLLER_BUF_SIZE)
  receive encoded.2 encoded.1 rxBuffer outcomes

def sendChainBlock : Option SendResult :=
  sendBlock (layer.setIBlock true false) txBuffer rxBuffer outcomes

def sendReceiveReadyBlock (acknowledged : Bool) : Option SendResult :=
  sendBlock (layer.setRBlock acknowledged (txBuffer.sizeBytes ≠ 0)) txBuffer rxBuffer outcomes

def sendSupervisoryBlock (deselect : Bool) : Option SendResult :=
  sendBlock (layer.setSBlock deselect (txBuffer.sizeBytes ≠ 0)) txBuffer rxBuffer outcomes

/-- The exchanges there are. -/
inductive Call
  | block
  | chainBlock
  | receiveReadyBlock (acknowledged : Bool)
  | supervisoryBlock (deselect : Bool)
  deriving DecidableEq, Repr

def Call.send (call : Call) : Option SendResult :=
  match call with
  | .block => sendBlock layer txBuffer rxBuffer outcomes
  | .chainBlock => sendChainBlock layer txBuffer rxBuffer outcomes
  | .receiveReadyBlock acknowledged =>
    sendReceiveReadyBlock layer txBuffer rxBuffer outcomes acknowledged
  | .supervisoryBlock deselect => sendSupervisoryBlock layer txBuffer rxBuffer outcomes deselect

/-- An exchange that is asked for, and what comes of it on the air. -/
structure Exchange where
  call : Call
  txBuffer : BitBuffer
  rxBuffer : BitBuffer
  outcomes : List (Except Iso14443_3aError BitBuffer)

/-- An exchange that was made: the PCB of its block, and whether there was no error. -/
structure Made where
  call : Call
  pcb : UInt8
  success : Bool
  deriving DecidableEq

/-- The layer, and the exchanges that were made. -/
structure Session where
  layer : Iso14443_4Layer
  made : List Made

/-- It is over where a check fails, or where the poller waits for good. -/
def Session.step (session : Session) (exchange : Exchange) : Except (List Made) Session :=
  match exchange.call.send session.layer exchange.txBuffer exchange.rxBuffer exchange.outcomes with
  | none => .error session.made
  | some result =>
    let made := session.made ++
      [⟨exchange.call, (result.sent.headD []).headD 0, result.error == some .none⟩]
    if result.error = none then .error made else .ok ⟨result.layer, made⟩

end Iso14443_4aPoller

end KiisuFirmware
