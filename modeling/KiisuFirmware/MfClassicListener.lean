import KiisuFirmware.BitBuffer
import KiisuFirmware.MfClassic
import KiisuFirmware.Run

/-!
# The emulation of a MIFARE Classic card

`mf_classic_listener.c`. The cipher is whatever it is (`Crypto1`), and so are the random numbers. A
failed `furi_check` is `none`. What is sent is kept as it was before it was encrypted.
-/

namespace KiisuFirmware

def MF_CLASSIC_CMD_AUTH_KEY_A : UInt8 := 0x60

def MF_CLASSIC_CMD_AUTH_KEY_B : UInt8 := 0x61

def MF_CLASSIC_CMD_READ_BLOCK : UInt8 := 0x30

def MF_CLASSIC_CMD_WRITE_BLOCK : UInt8 := 0xA0

def MF_CLASSIC_CMD_VALUE_DEC : UInt8 := 0xC0

def MF_CLASSIC_CMD_VALUE_INC : UInt8 := 0xC1

def MF_CLASSIC_CMD_VALUE_RESTORE : UInt8 := 0xC2

def MF_CLASSIC_CMD_VALUE_TRANSFER : UInt8 := 0xB0

def MF_CLASSIC_CMD_HALT_MSB : UInt8 := 0x50

def MF_CLASSIC_CMD_HALT_LSB : UInt8 := 0x00

def MF_CLASSIC_CMD_ACK : UInt8 := 0x0A

def MF_CLASSIC_CMD_NACK : UInt8 := 0x00

def MF_CLASSIC_CMD_NACK_TRANSFER_INVALID : UInt8 := 0x04

def MF_CLASSIC_NR_SIZE : ℕ := 4

def MF_CLASSIC_AR_SIZE : ℕ := 4

/-- The cipher: its state, and what the listener does with it. -/
structure Crypto1 (κ : Type) where
  reset : κ → κ
  init : κ → UInt64 → κ
  word : κ → UInt32 → Bool → UInt32 × κ
  prngSuccessor : UInt32 → ℕ → UInt32
  encrypt : κ → Option (List UInt8) → BitBuffer → BitBuffer → Option (BitBuffer × κ)
  decrypt : κ → BitBuffer → BitBuffer → Option (BitBuffer × κ)

inductive MfClassicListenerCommand
  | processed
  | ack
  | nack
  | silent
  | sleep
  deriving DecidableEq, Repr

inductive MfClassicListenerState
  | idle
  | authComplete
  deriving DecidableEq, Repr

inductive MfClassicListenerCommState
  | plain
  | encrypted
  deriving DecidableEq, Repr

inductive MfClassicValueCommand
  | increment
  | decrement
  | restore
  | invalid
  deriving DecidableEq, Repr

inductive NfcCommand
  | continue
  | reset
  | sleep
  deriving DecidableEq, Repr

structure MfClassicAuthContext where
  blockNum : UInt8
  keyType : MfClassicKeyType
  nt : UInt32
  nr : UInt32
  ar : UInt32
  at' : UInt32

def MfClassicAuthContext.zero : MfClassicAuthContext := ⟨0, .a, 0, 0, 0, 0⟩

/-- What the listener sends, in plain. -/
inductive Reply
  | nonce (nt : UInt32)
  | answer (at' : UInt32)
  | block (data : List UInt8)
  | short (data : UInt8)
  deriving DecidableEq, Repr

structure MfClassicListener (κ : Type) where
  state : MfClassicListenerState
  commState : MfClassicListenerCommState
  data : MfClassicData
  txPlainBuffer : BitBuffer
  txEncryptedBuffer : BitBuffer
  rxPlainBuffer : BitBuffer
  crypto : κ
  authContext : MfClassicAuthContext
  writeBlock : UInt8
  transferValue : UInt32
  transferValid : Bool
  valueCmd : MfClassicValueCommand
  cmdInProgress : Bool
  currentCmdIdx : ℕ
  currentCmdHandlerIdx : ℕ
  totalBlockNum : ℕ
  sent : List Reply

namespace MfClassicListener

variable {κ : Type} (crypto1 : Crypto1 κ)

/-- How a frame is answered; the number is the random one it may ask for. -/
abbrev CommandHandler (κ : Type) :=
  UInt32 → MfClassicListener κ → BitBuffer → Option (MfClassicListenerCommand × MfClassicListener κ)

section Handlers

variable (random : UInt32) (instance' : MfClassicListener κ) (buff : BitBuffer)

def send (reply : Reply) : MfClassicListener κ :=
  { instance' with sent := instance'.sent ++ [reply] }

def resetState : MfClassicListener κ :=
  { instance' with
    crypto := crypto1.reset instance'.crypto
    authContext := .zero
    commState := .plain
    state := .idle
    cmdInProgress := false
    currentCmdHandlerIdx := 0
    writeBlock := 0
    transferValue := 0
    transferValid := false
    valueCmd := .invalid }

/-- The next frame is for the next handler of the command. -/
def nextHandler : MfClassicListener κ :=
  { instance' with
    cmdInProgress := true
    currentCmdHandlerIdx := instance'.currentCmdHandlerIdx + 1 }

def haltHandler : CommandHandler κ := fun _ instance' buff => do
  let byte ← buff.getByte 1
  return (if byte = MF_CLASSIC_CMD_HALT_LSB then .sleep else .nack, instance')

/-- The nonce in plain, or encrypted in an authentication inside another one. -/
def sendNonce (keyNum : UInt64) : Option (MfClassicListener κ) := do
  let nt := bitLibNumToBytesBe random.toUInt64 4
  let crypto := crypto1.init instance'.crypto keyNum
  if instance'.commState = .plain then
    let crypto := (crypto1.word crypto (random ^^^ instance'.data.cuid) false).2
    let txEncryptedBuffer ← instance'.txEncryptedBuffer.copyBytes nt
    return { instance' with crypto := crypto, txEncryptedBuffer := txEncryptedBuffer }
  else
    let keyStream := bitLibNumToBytesBe (random ^^^ instance'.data.cuid).toUInt64 4
    let txPlainBuffer ← instance'.txPlainBuffer.copyBytes nt
    let encrypted ← crypto1.encrypt crypto (some keyStream) txPlainBuffer
      instance'.txEncryptedBuffer
    return { instance' with
      crypto := encrypted.2, txPlainBuffer := txPlainBuffer, txEncryptedBuffer := encrypted.1 }

def authFirstPartHandler (keyType : MfClassicKeyType) (blockNum : UInt8) :
    Option (MfClassicListenerCommand × MfClassicListener κ) := do
  let instance' := { instance' with state := .idle }
  if instance'.totalBlockNum ≤ blockNum.toNat then return (.nack, instance')
  else
    let secTr ← instance'.data.getSectorTrailerBySector (mfClassicGetSectorByBlock blockNum)
    let key := match keyType with
      | .a => secTr.keyA
      | .b => secTr.keyB
    let instance' := { instance' with
      authContext := { instance'.authContext with
        keyType := keyType, blockNum := blockNum, nt := random } }
    let instance' ← instance'.sendNonce crypto1 random (bitLibBytesToNumBe key)
    return (.processed, (instance'.send (.nonce random)).nextHandler)

def authKeyAHandler : CommandHandler κ := fun random instance' buff => do
  let blockNum ← buff.getByte 1
  instance'.authFirstPartHandler crypto1 random .a blockNum

def authKeyBHandler : CommandHandler κ := fun random instance' buff => do
  let blockNum ← buff.getByte 1
  instance'.authFirstPartHandler crypto1 random .b blockNum

/-- What is in the plain buffer, encrypted. -/
def encryptPlain : Option (MfClassicListener κ) := do
  let encrypted ← crypto1.encrypt instance'.crypto none instance'.txPlainBuffer
    instance'.txEncryptedBuffer
  return { instance' with crypto := encrypted.2, txEncryptedBuffer := encrypted.1 }

def authSecondPartHandler : CommandHandler κ := fun _ instance' buff => do
  let instance' := { instance' with cmdInProgress := false }
  if buff.sizeBytes ≠ MF_CLASSIC_NR_SIZE + MF_CLASSIC_AR_SIZE then return (.sleep, instance')
  else
    let nr ← buff.writeBytesMid 0 MF_CLASSIC_NR_SIZE
    let ar ← buff.writeBytesMid MF_CLASSIC_NR_SIZE MF_CLASSIC_AR_SIZE
    let nrNum := (bitLibBytesToNumBe nr).toUInt32
    let arNum := (bitLibBytesToNumBe ar).toUInt32
    let crypto := (crypto1.word instance'.crypto nrNum true).2
    let word := crypto1.word crypto 0 false
    let ntNum := instance'.authContext.nt
    let instance' := { instance' with
      crypto := word.2
      authContext := { instance'.authContext with nr := nrNum, ar := arNum } }
    if arNum ^^^ word.1 ≠ crypto1.prngSuccessor ntNum 64 then return (.sleep, instance')
    else
      let atNum := crypto1.prngSuccessor ntNum 96
      let txPlainBuffer ← instance'.txPlainBuffer.copyBytes (bitLibNumToBytesBe atNum.toUInt64 4)
      let instance' ← encryptPlain crypto1 { instance' with
        authContext := { instance'.authContext with at' := atNum }
        txPlainBuffer := txPlainBuffer }
      return (.processed, { instance'.send (.answer atNum) with
        state := .authComplete, commState := .encrypted })

/-- A field of a block, or zeros where it may not be read. -/
def maskUnless (allowed : Bool) (block : MfClassicBlock) (start size : ℕ) : MfClassicBlock :=
  if allowed then block else block.copy start (List.replicate size 0)

/-- The block as it may be read, if it may. -/
def readableBlock (data : MfClassicData) (blockNum : UInt8) (keyType : MfClassicKeyType) :
    Option (Option MfClassicBlock) := do
  let block := data.block blockNum
  if mfClassicIsSectorTrailer blockNum then
    let keyA ← data.isAllowedAccess blockNum keyType .keyARead
    let keyB ← data.isAllowedAccess blockNum keyType .keyBRead
    let ac ← data.isAllowedAccess blockNum keyType .acRead
    let block := maskUnless keyA block 0 MF_CLASSIC_KEY_SIZE
    let block := maskUnless keyB block 10 MF_CLASSIC_KEY_SIZE
    return some (maskUnless ac block 6 MF_CLASSIC_ACCESS_BYTES_SIZE)
  else
    let allowed ← data.isAllowedAccess blockNum keyType .dataRead
    return if allowed then some block else none

def readBlockHandler : CommandHandler κ := fun _ instance' buff => do
  if instance'.state ≠ .authComplete then return (.nack, instance')
  else
    let blockNum ← buff.getByte 1
    if mfClassicGetSectorByBlock blockNum ≠
        mfClassicGetSectorByBlock instance'.authContext.blockNum then return (.nack, instance')
    else
      match ← readableBlock instance'.data blockNum instance'.authContext.keyType with
      | none => return (.nack, instance')
      | some block =>
        let txPlainBuffer ← instance'.txPlainBuffer.copyBytes block.toList
        let txPlainBuffer ← iso14443CrcAppend txPlainBuffer
        let instance' ← encryptPlain crypto1 { instance' with txPlainBuffer := txPlainBuffer }
        return (.processed, instance'.send (.block txPlainBuffer.bytes))

def writeBlockFirstPartHandler : CommandHandler κ := fun _ instance' buff => do
  if instance'.state ≠ .authComplete then return (.nack, instance')
  else
    let blockNum ← buff.getByte 1
    if instance'.totalBlockNum ≤ blockNum.toNat then return (.nack, instance')
    else if blockNum = 0 then return (.nack, instance')
    else if mfClassicGetSectorByBlock blockNum ≠
        mfClassicGetSectorByBlock instance'.authContext.blockNum then return (.nack, instance')
    else return (.ack, { instance' with writeBlock := blockNum }.nextHandler)

/-- A field of a block as it was received, where it may be written. -/
def writeIf (allowed : Bool) (block : MfClassicBlock) (start : ℕ) (received : List UInt8) :
    MfClassicBlock :=
  if allowed then block.copy start received else block

/-- The block as it is to be after a write, if anything may be written. -/
def writtenBlock (data : MfClassicData) (blockNum : UInt8) (keyType : MfClassicKeyType) :
    Option (Option MfClassicBlock) := do
  let block := data.block blockNum
  if mfClassicIsSectorTrailer blockNum then
    let keyA ← data.isAllowedAccess blockNum keyType .keyAWrite
    let keyB ← data.isAllowedAccess blockNum keyType .keyBWrite
    let ac ← data.isAllowedAccess blockNum keyType .acWrite
    if !keyA && !keyB && !ac then return none
    else
      let receivedA ← buff.writeBytesMid 0 MF_CLASSIC_KEY_SIZE
      let receivedB ← buff.writeBytesMid 10 MF_CLASSIC_KEY_SIZE
      let receivedAC ← buff.writeBytesMid 6 MF_CLASSIC_ACCESS_BYTES_SIZE
      let block := writeIf keyA block 0 receivedA
      let block := writeIf keyB block 10 receivedB
      return some (writeIf ac block 6 receivedAC)
  else
    let allowed ← data.isAllowedAccess blockNum keyType .dataWrite
    let received ← buff.writeBytesMid 0 MF_CLASSIC_BLOCK_SIZE
    return if allowed then some (block.copy 0 received) else none

def writeBlockSecondPartHandler : CommandHandler κ := fun _ instance' buff => do
  let instance' := { instance' with cmdInProgress := false }
  if buff.sizeBytes ≠ MF_CLASSIC_BLOCK_SIZE then return (.nack, instance')
  else
    let blockNum := instance'.writeBlock
    match ← writtenBlock buff instance'.data blockNum instance'.authContext.keyType with
    | none => return (.nack, instance')
    | some block =>
      return (.ack, { instance' with data := instance'.data.setBlock blockNum block })

/-- The command a first byte stands for, and what it has to be allowed to do. -/
def valueCmdOf (cmd : UInt8) : Option (MfClassicValueCommand × MfClassicAction) :=
  if cmd = MF_CLASSIC_CMD_VALUE_DEC then some (.decrement, .dataDec)
  else if cmd = MF_CLASSIC_CMD_VALUE_INC then some (.increment, .dataInc)
  else if cmd = MF_CLASSIC_CMD_VALUE_RESTORE then some (.restore, .dataDec)
  else none

def valueCmdHandler : CommandHandler κ := fun _ instance' buff => do
  if instance'.state ≠ .authComplete then return (.nack, instance')
  else
    let blockNum ← buff.getByte 1
    if instance'.totalBlockNum ≤ blockNum.toNat then return (.nack, instance')
    else if mfClassicGetSectorByBlock blockNum ≠
        mfClassicGetSectorByBlock instance'.authContext.blockNum then return (.nack, instance')
    else
      let cmd ← buff.getByte 0
      match valueCmdOf cmd with
      | none => return (.nack, instance')
      | some (valueCmd, action) =>
        let instance' := { instance' with valueCmd := valueCmd }
        let allowed ← instance'.data.isAllowedAccess blockNum instance'.authContext.keyType action
        if !allowed then return (.nack, instance')
        else
          let value := mfClassicBlockToValue (instance'.data.block blockNum)
          let instance' := { instance' with transferValue := value.2 }
          if !value.1 then return (.nack, instance')
          else return (.ack, { instance' with transferValid := true }.nextHandler)

def valueDecHandler : CommandHandler κ := valueCmdHandler

def valueIncHandler : CommandHandler κ := valueCmdHandler

def valueRestoreHandler : CommandHandler κ := valueCmdHandler

/-- What is added to the value; as in the value itself, a negative number is its complement. -/
def transferData (valueCmd : MfClassicValueCommand) (data : UInt32) : UInt32 :=
  let data := if data.toInt32 < 0 then -data else data
  match valueCmd with
  | .decrement => -data
  | .restore => 0
  | _ => data

def valueDataReceiveHandler : CommandHandler κ := fun _ instance' buff => do
  if buff.sizeBytes ≠ 4 then return (.nack, instance')
  else
    let data ← buff.writeBytesMid 0 4
    let data : UInt32 := data.foldr (fun byte res => res <<< 8 ||| byte.toUInt32) 0
    return (.silent, { instance' with
      transferValue := instance'.transferValue + transferData instance'.valueCmd data
      transferValid := true }.nextHandler)

def valueTransferHandler : CommandHandler κ := fun _ instance' buff => do
  let instance' := { instance' with cmdInProgress := false }
  if buff.sizeBytes ≠ 2 then return (.nack, instance')
  else
    let cmd ← buff.getByte 0
    if cmd ≠ MF_CLASSIC_CMD_VALUE_TRANSFER then return (.nack, instance')
    else
      let blockNum ← buff.getByte 1
      let allowed ← instance'.data.isAllowedAccess blockNum instance'.authContext.keyType .dataDec
      if !allowed then return (.nack, instance')
      else
        let block := mfClassicValueToBlock instance'.transferValue blockNum
        return (.ack, { instance' with
          data := instance'.data.setBlock blockNum block
          transferValue := 0
          transferValid := false })

end Handlers

structure MfClassicListenerCmd (κ : Type) where
  cmdStartByte : UInt8
  cmdLenBits : ℕ
  handler : List (CommandHandler κ)

def cmdHandlers : List (MfClassicListenerCmd κ) :=
  [⟨MF_CLASSIC_CMD_HALT_MSB, 2 * 8, [haltHandler]⟩,
    ⟨MF_CLASSIC_CMD_HALT_MSB, 15, [haltHandler]⟩,
    ⟨MF_CLASSIC_CMD_AUTH_KEY_A, 2 * 8, [authKeyAHandler crypto1, authSecondPartHandler crypto1]⟩,
    ⟨MF_CLASSIC_CMD_AUTH_KEY_B, 2 * 8, [authKeyBHandler crypto1, authSecondPartHandler crypto1]⟩,
    ⟨MF_CLASSIC_CMD_READ_BLOCK, 2 * 8, [readBlockHandler crypto1]⟩,
    ⟨MF_CLASSIC_CMD_WRITE_BLOCK, 2 * 8, [writeBlockFirstPartHandler, writeBlockSecondPartHandler]⟩,
    ⟨MF_CLASSIC_CMD_VALUE_DEC, 2 * 8,
      [valueDecHandler, valueDataReceiveHandler, valueTransferHandler]⟩,
    ⟨MF_CLASSIC_CMD_VALUE_INC, 2 * 8,
      [valueIncHandler, valueDataReceiveHandler, valueTransferHandler]⟩,
    ⟨MF_CLASSIC_CMD_VALUE_RESTORE, 2 * 8,
      [valueRestoreHandler, valueDataReceiveHandler, valueTransferHandler]⟩]

section Run

variable (random : UInt32) (instance' : MfClassicListener κ) (buffer : BitBuffer)

def sendShortFrame (data : UInt8) : Option (MfClassicListener κ) := do
  let txPlainBuffer ← instance'.txPlainBuffer.setSize 4
  let txPlainBuffer ← txPlainBuffer.setByte 0 data
  let instance' := { instance' with txPlainBuffer := txPlainBuffer }
  let instance' ← if instance'.commState = .encrypted then encryptPlain crypto1 instance'
    else some instance'
  return instance'.send (.short data)

/-- The frame as the handlers see it. -/
def receive : Option (BitBuffer × MfClassicListener κ) :=
  if instance'.commState = .encrypted ∧ instance'.state = .authComplete then do
    let decrypted ← crypto1.decrypt instance'.crypto buffer instance'.rxPlainBuffer
    let rxPlainBuffer ← if iso14443CrcCheck decrypted.1 then iso14443CrcTrim decrypted.1
      else some decrypted.1
    return (rxPlainBuffer, { instance' with crypto := decrypted.2, rxPlainBuffer := rxPlainBuffer })
  else some (buffer, instance')

/-- The first command that starts like a frame and is as long. -/
def findCmd (rxBufferPlain : BitBuffer) : Option ℕ :=
  (cmdHandlers crypto1).findIdx? fun cmd =>
    rxBufferPlain.sizeBits == cmd.cmdLenBits && rxBufferPlain.getByte 0 == some cmd.cmdStartByte

def handle (rxBufferPlain : BitBuffer) :
    Option (MfClassicListenerCommand × MfClassicListener κ) := do
  if instance'.cmdInProgress then
    let cmd ← (cmdHandlers crypto1)[instance'.currentCmdIdx]?
    let handler ← cmd.handler[instance'.currentCmdHandlerIdx]?
    handler random instance' rxBufferPlain
  else
    match findCmd crypto1 rxBufferPlain with
    | none => return (.nack, instance')
    | some i =>
      let cmd ← (cmdHandlers crypto1)[i]?
      let handler ← cmd.handler[0]?
      handler random { instance' with currentCmdIdx := i, currentCmdHandlerIdx := 0 } rxBufferPlain

def finish (mfcCommand : MfClassicListenerCommand) : Option (NfcCommand × MfClassicListener κ) :=
  match mfcCommand with
  | .processed => some (.continue, instance')
  | .ack => (instance'.sendShortFrame crypto1 MF_CLASSIC_CMD_ACK).map fun instance' =>
    (.continue, instance')
  | .nack =>
    let nack := if instance'.transferValid then MF_CLASSIC_CMD_NACK
      else MF_CLASSIC_CMD_NACK + MF_CLASSIC_CMD_NACK_TRANSFER_INVALID
    (instance'.sendShortFrame crypto1 nack).map fun instance' =>
      (.sleep, instance'.resetState crypto1)
  | .silent => some (.reset, instance')
  | .sleep => some (.sleep, instance'.resetState crypto1)

inductive Event
  | fieldOff
  | received (buffer : BitBuffer) (random : UInt32)
  | halted

def run : Event → Option (NfcCommand × MfClassicListener κ)
  | .fieldOff => some (.sleep, instance'.resetState crypto1)
  | .received buffer random => do
    let received ← instance'.receive crypto1 buffer
    let handled ← received.2.handle crypto1 random received.1
    handled.2.finish crypto1 handled.1
  | .halted => some (.continue, instance'.resetState crypto1)

/-- A failed check ends everything. -/
def step (event : Event) : Except Unit (MfClassicListener κ) :=
  match instance'.run crypto1 event with
  | none => .error ()
  | some r => .ok r.2

/-- A listener that was just allocated. -/
def alloc (data : MfClassicData) (crypto : κ) (txPlainBuffer txEncryptedBuffer rxPlainBuffer :
    BitBuffer) : MfClassicListener κ where
  state := .idle
  commState := .plain
  data := data
  txPlainBuffer := txPlainBuffer
  txEncryptedBuffer := txEncryptedBuffer
  rxPlainBuffer := rxPlainBuffer
  crypto := crypto
  authContext := .zero
  writeBlock := 0
  transferValue := 0
  transferValid := false
  valueCmd := .increment
  cmdInProgress := false
  currentCmdIdx := 0
  currentCmdHandlerIdx := 0
  totalBlockNum := mfClassicGetTotalBlockNum data.type
  sent := []

end Run

end MfClassicListener

end KiisuFirmware
