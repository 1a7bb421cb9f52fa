import KiisuFirmware.Felica

/-!
# Emulated FeliCa cards

`felica_listener.c` and `felica_listener_i.c`: a card of the kind Lite, or one of the kind Standard
with systems, services and their public blocks. An element of a block list is where it begins in the
frame.
-/

namespace KiisuFirmware

open Felica

def FELICA_LISTENER_MAX_BUFFER_SIZE : ℕ := 128

def FELICA_CMD_REQUEST_SERVICE : UInt8 := 0x02

def FELICA_CMD_REQUEST_RESPONSE : UInt8 := 0x04

def FELICA_CMD_READ_WITHOUT_ENCRYPTION : UInt8 := 0x06

def FELICA_CMD_WRITE_WITHOUT_ENCRYPTION : UInt8 := 0x08

def FELICA_CMD_LIST_SERVICE_CODE : UInt8 := 0x0A

def FELICA_CMD_REQUEST_SYSTEM_CODE : UInt8 := 0x0C

def FELICA_SERVICE_RW_ACCESS : UInt16 := 0x0009

def FELICA_SERVICE_RO_ACCESS : UInt16 := 0x000B

/-- The two status flags of an answer. -/
abbrev FelicaFlags := UInt8 × UInt8

structure FelicaListener where
  data : FelicaData
  internal : Bool
  external : Bool
  sessionKey : FelicaBlockData
  mcShadow : FelicaBlockData
  requestedBlocks : Fin 4 → UInt8
  macCalcStart : UInt8
  rcWritten : Bool
  mode : UInt8
  currentSystemIdx : UInt8

/-! ## The memory configuration -/

namespace FelicaData

variable (data : FelicaData)

def systemBlockRoAccess : Bool := data.mc 2 = 0x00

def systemBlockRwAccess : Bool := data.mc 2 = 0xFF

def wcntGetMaxValue : Except FelicaFault ℕ :=
  if !data.systemBlockRoAccess && !data.systemBlockRwAccess then .error .crash
  else .ok (if data.systemBlockRwAccess then 0x00FFFFFF else 0x00FFFE00)

def wcntCheckWarningBoundary : Bool :=
  data.systemBlockRoAccess && decide (0x00001027 < data.wcnt) && decide (data.wcnt < 0x00FFFDFF)

def wcntCheckErrorBoundary : Except FelicaFault Bool := do
  let wcntMax ← data.wcntGetMaxValue
  return data.wcnt ≠ wcntMax

/-- The counter's four bytes. -/
def setWcnt (wcnt : ℕ) : FelicaData :=
  { data with
    blocks := Function.update data.blocks 24 fun i =>
      if i.val < 4 then UInt8.ofNat (wcnt / 256 ^ i.val) else data.blocks 24 i }

def wcntIncrement : Except FelicaFault FelicaData := do
  let wcntMax ← data.wcntGetMaxValue
  return if data.wcnt < wcntMax then data.setWcnt (data.wcnt + 1) else data

def wcntPostProcess : FelicaData :=
  if data.systemBlockRoAccess && decide (0x00FFFE00 < data.wcnt) then data.setWcnt 0 else data

def getMcBit (byteIndex : Fin 16) (bitNumber : ℕ) : Bool :=
  ((data.mc byteIndex).toNat + 2 ^ 8 * (data.mc (byteIndex + 1)).toNat).testBit bitNumber

def blockRequiresAuth (byteIndex : Fin 16) (number : UInt8) : Bool :=
  if number ≤ FELICA_BLOCK_INDEX_REG then data.getMcBit byteIndex number.toNat else false

def blockIsReadonly (number : UInt8) : Bool :=
  if number ≤ FELICA_BLOCK_INDEX_REG then !data.getMcBit 0 number.toNat
  else if number = FELICA_BLOCK_INDEX_ID ∨ number = FELICA_BLOCK_INDEX_SER_C ∨
      (FELICA_BLOCK_INDEX_CKV ≤ number ∧ number ≤ FELICA_BLOCK_INDEX_CK) then
    data.systemBlockRoAccess
  else number = FELICA_BLOCK_INDEX_MAC ∨ number = FELICA_BLOCK_INDEX_WCNT ∨
    number = FELICA_BLOCK_INDEX_D_ID ∨ number = FELICA_BLOCK_INDEX_CRC_CHECK

def blockRequiresMac (number : UInt8) : Bool :=
  if number ≤ FELICA_BLOCK_INDEX_REG then data.getMcBit 10 number.toNat
  else if number = FELICA_BLOCK_INDEX_CK ∨ number = FELICA_BLOCK_INDEX_CKV then data.getMcBit 5 0
  else if number = FELICA_BLOCK_INDEX_STATE then data.getMcBit 12 0
  else false

end FelicaData

def felicaListenerGetBlockIndex (number : UInt8) : UInt8 :=
  if FELICA_BLOCK_INDEX_RC ≤ number ∧ number < FELICA_BLOCK_INDEX_WCNT then
    number - 0x80 + FELICA_BLOCK_INDEX_REG + 1
  else if FELICA_BLOCK_INDEX_WCNT ≤ number ∧ number ≤ FELICA_BLOCK_INDEX_STATE then
    number - 0x90 + 9 + FELICA_BLOCK_INDEX_REG + 1
  else if number = FELICA_BLOCK_INDEX_CRC_CHECK then number - 0x90 + 9 + FELICA_BLOCK_INDEX_REG + 2
  else number

def felicaBlockExists (number : UInt8) : Bool :=
  !((FELICA_BLOCK_INDEX_REG < number ∧ number < FELICA_BLOCK_INDEX_RC) ∨
    (FELICA_BLOCK_INDEX_MC < number ∧ number < FELICA_BLOCK_INDEX_WCNT) ∨
    (FELICA_BLOCK_INDEX_STATE < number ∧ number < FELICA_BLOCK_INDEX_CRC_CHECK) ∨
    FELICA_BLOCK_INDEX_CRC_CHECK < number)

/-! ## Requests and block lists -/

def FELICA_LISTENER_REQUEST_SIZE : ℕ := 14

namespace FelicaRx

variable (rx : FelicaRx)

def length : Except FelicaFault UInt8 := rx.byte 0

def code : Except FelicaFault UInt8 := rx.byte 1

def serviceNum : Except FelicaFault UInt8 := rx.byte 10

def serviceCode : Except FelicaFault UInt16 := rx.uint16 11

def blockCount : Except FelicaFault UInt8 := rx.byte 13

/-- The size of an element of a block list: two bytes, or three. -/
def blockListItemSize (item : ℕ) : Except FelicaFault UInt8 := do
  let first ← rx.byte item
  return if first >>> 7 = 1 then 2 else 3

/-- The next element, as far as there are bytes left for it. -/
def blockListIterate (prev : ℕ) (itemSize requestSizeBuf : UInt8) :
    Except FelicaFault (Option ℕ × UInt8) := do
  if 2 ≤ requestSizeBuf then
    let next := prev + itemSize.toNat
    let nextSize ← rx.blockListItemSize next
    return if requestSizeBuf < nextSize then (none, 0) else (some next, requestSizeBuf - nextSize)
  else return (none, requestSizeBuf)

def blockListItemGetFirst : Except FelicaFault (Option ℕ × UInt8) := do
  let length ← rx.length
  rx.blockListIterate FELICA_LISTENER_REQUEST_SIZE 0
    (length - UInt8.ofNat FELICA_LISTENER_REQUEST_SIZE)

def blockListItemGetNext (prev : Option ℕ) (requestSizeBuf : UInt8) :
    Except FelicaFault (Option ℕ × UInt8) :=
  match prev with
  | none => .error .assert
  | some prev => do
    let size ← rx.blockListItemSize prev
    rx.blockListIterate prev size requestSizeBuf

/-- The loop that counts the elements and their size; with each one of a write goes a block. -/
def blockListItemCountSize (write : Bool) :
    ℕ → Option ℕ → (requestSizeBuf itemCnt listSize : UInt8) → Except FelicaFault (UInt8 × UInt8)
  | 0, _, _, itemCnt, listSize => .ok (itemCnt, listSize)
  | _ + 1, none, _, itemCnt, listSize => .ok (itemCnt, listSize)
  | left + 1, some item, requestSizeBuf, itemCnt, listSize => do
    let requestSizeBuf :=
      if write then if 16 ≤ requestSizeBuf then requestSizeBuf - 16 else 0 else requestSizeBuf
    let size ← rx.blockListItemSize item
    let (next, requestSizeBuf) ← rx.blockListItemGetNext (some item) requestSizeBuf
    blockListItemCountSize write left next requestSizeBuf (itemCnt + 1) (listSize + size)

def getBlockListItemCountSize : Except FelicaFault (UInt8 × UInt8) := do
  let code ← rx.code
  let maxItemCnt := if code = FELICA_CMD_READ_WITHOUT_ENCRYPTION then 4 else 2
  let (item, requestSizeBuf) ← rx.blockListItemGetFirst
  rx.blockListItemCountSize (code = FELICA_CMD_WRITE_WITHOUT_ENCRYPTION) maxItemCnt item
    requestSizeBuf 0 0

def testBlockListSizeBounds : Except FelicaFault Bool := do
  let code ← rx.code
  if code = FELICA_CMD_READ_WITHOUT_ENCRYPTION then
    let blockCount ← rx.blockCount
    return 1 ≤ blockCount && blockCount ≤ 4
  else if code = FELICA_CMD_WRITE_WITHOUT_ENCRYPTION then
    let blockCount ← rx.blockCount
    return 1 ≤ blockCount && blockCount ≤ 2
  else return false

/-- Whether there are as many elements as a request counts, if it counts a number that there can
be. -/
def enoughItems (itemCnt : UInt8) : Except FelicaFault Bool := do
  if ← rx.testBlockListSizeBounds then
    let blockCount ← rx.blockCount
    return decide (blockCount ≤ itemCnt)
  else return true

/-- Whether a request has the elements and the blocks that it counts, and the size of its list. -/
def checkBlockListSize (workflowType : FelicaWorkflowType) :
    Except FelicaFault (Bool × UInt8) := do
  let code ← rx.code
  if code = FELICA_CMD_REQUEST_SYSTEM_CODE ∨ code = FELICA_CMD_LIST_SERVICE_CODE ∨
      code = FELICA_CMD_REQUEST_SERVICE ∨ code = FELICA_CMD_REQUEST_RESPONSE then
    return (true, 0)
  else if workflowType = .standard ∧
      (code = FELICA_CMD_READ_WITHOUT_ENCRYPTION ∨ code = FELICA_CMD_WRITE_WITHOUT_ENCRYPTION) then
    return (true, 0)
  else
    let (itemCnt, listSize) ← rx.getBlockListItemCountSize
    let enough ← rx.enoughItems itemCnt
    let valid := decide (0 < itemCnt) && enough
    if valid && decide (code = FELICA_CMD_WRITE_WITHOUT_ENCRYPTION) then
      let length ← rx.length
      let factDataSize := length - UInt8.ofNat FELICA_LISTENER_REQUEST_SIZE - listSize
      return (decide (itemCnt * 16 ≤ factDataSize), listSize)
    else return (valid, listSize)

/-- An element of a block list. -/
structure BlockListElement where
  serviceCode : UInt8
  accessMode : UInt8
  length : UInt8
  blockNumber : UInt8

def blockListElement (item : Option ℕ) : Except FelicaFault BlockListElement :=
  match item with
  | none => .error .nullPointer
  | some item => do
    let first ← rx.byte item
    let blockNumber ← rx.byte (item + 1)
    return ⟨first &&& 0x0F, (first >>> 4) &&& 0x07, first >>> 7, blockNumber⟩

def blockListItemValidateBlockNumber (item : Option ℕ) : Except FelicaFault Bool :=
  match item with
  | none => .error .nullPointer
  | some item => do
    let first ← rx.byte item
    if first >>> 7 = 0 then
      let d2 ← rx.byte (item + 2)
      return d2 = 0
    else return true

end FelicaRx

/-! ## Answers -/

/-- What becomes of an event: a frame is sent, the field is reset, or nothing. -/
inductive FelicaReply
  | sent (frame : List UInt8)
  | reset
  | silent
  deriving DecidableEq

def felicaListenerFrameExchange (tx : List UInt8) : Except FelicaFault FelicaReply :=
  if FELICA_LISTENER_MAX_BUFFER_SIZE < tx.length then .error .check
  else if FELICA_LISTENER_MAX_BUFFER_SIZE - FELICA_CRC_SIZE < tx.length then .error .assert
  else .ok (.sent (tx ++ felicaCrc tx))

namespace FelicaListener

variable (crypto : FelicaCrypto) (listener : FelicaListener)

def alloc (data : FelicaData) : FelicaListener where
  data := { data with
    pmm := Vector.ofFn fun i => if i.val < 2 then data.pmm.get i else 0xFF
    blocks := Function.update data.blocks 26 (Function.update (data.blocks 26) 0 0) }
  internal := false
  external := false
  sessionKey := fun _ => 0
  mcShadow := data.mc
  requestedBlocks := fun _ => 0
  macCalcStart := 0
  rcWritten := false
  mode := 0
  currentSystemIdx := 0

def reset : FelicaListener :=
  { listener with
    internal := false
    external := false
    rcWritten := false
    mode := 0
    currentSystemIdx := 0
    sessionKey := fun _ => 0
    data := FelicaData.wcntPostProcess { listener.data with
      blocks := Function.update (Function.update listener.data.blocks 26
        (Function.update listener.data.state 0 0)) 23 listener.mcShadow } }

def getCurrentIdm : List UInt8 :=
  if listener.currentSystemIdx ≠ 0 then
    let high : UInt8 := listener.currentSystemIdx <<< 4
    ((listener.data.idm.get 0 &&& 0x0F) ||| high) :: listener.data.idm.toList.drop 1
  else listener.data.idm.toList

def checkIdm (rx : FelicaRx) : Except FelicaFault Bool := do
  let idm ← rx.bytes 2 8
  return idm == listener.getCurrentIdm

/-- The system that is selected, if there is one. -/
def getCurrentSystem : Option FelicaSystem :=
  listener.data.systems[listener.currentSystemIdx.toNat]?

/-- A listener with other data, and an answer. -/
abbrev Handled := Except FelicaFault (FelicaReply × FelicaListener)

/-! ## Reading blocks of a Lite card -/

/-- What the elements of a read are checked for, with the place of the first checksum in the list. -/
def validateReadBlockList (rx : FelicaRx) (serviceCode : UInt16) :
    List ℕ → Option ℕ → UInt8 → (macAPos : Option ℕ) → (macPresent : Bool) →
      Except FelicaFault (Option FelicaFlags)
  | [], _, _, _, _ => .ok none
  | i :: is, item, requestSizeBuf, macAPos, macPresent => do
    let element ← rx.blockListElement item
    let sf1 : UInt8 := 1 <<< UInt8.ofNat i
    if element.serviceCode ≠ 0 then return some (sf1, 0xA3)
    else if element.accessMode ≠ 0 then return some (sf1, 0xA7)
    else
      let valid ← rx.blockListItemValidateBlockNumber item
      if !valid || !felicaBlockExists element.blockNumber ||
          (listener.data.blockIsReadonly element.blockNumber &&
            decide (serviceCode ≠ FELICA_SERVICE_RO_ACCESS)) then
        return some (sf1, 0xA8)
      else if element.blockNumber = FELICA_BLOCK_INDEX_MAC_A && !listener.rcWritten then
        return some (sf1, 0xB2)
      else if decide (element.blockNumber ≠ FELICA_BLOCK_INDEX_MAC) &&
          decide (element.blockNumber ≠ FELICA_BLOCK_INDEX_MAC_A) &&
          listener.data.blockRequiresAuth 6 element.blockNumber && !listener.external then
        return some (sf1, 0xB1)
      else
        let macPresent := macPresent || decide (element.blockNumber = FELICA_BLOCK_INDEX_MAC)
        let macAPos := macAPos <|>
          if element.blockNumber = FELICA_BLOCK_INDEX_MAC_A then some i else none
        match macAPos, macPresent with
        | some pos, true => return some (1 <<< UInt8.ofNat pos, 0xB0)
        | _, _ =>
          let (next, requestSizeBuf) ← rx.blockListItemGetNext item requestSizeBuf
          validateReadBlockList rx serviceCode is next requestSizeBuf macAPos macPresent

def validateReadRequest (rx : FelicaRx) : Except FelicaFault (Option FelicaFlags) := do
  let serviceNum ← rx.serviceNum
  if serviceNum ≠ 0x01 then return some (0xFF, 0xA1)
  else
    let blockCount ← rx.blockCount
    if blockCount < 1 ∨ 4 < blockCount then return some (0xFF, 0xA2)
    else
      let serviceCode ← rx.serviceCode
      if serviceCode ≠ FELICA_SERVICE_RO_ACCESS ∧ serviceCode ≠ FELICA_SERVICE_RW_ACCESS then
        return some (0x01, 0xA6)
      else
        let (item, requestSizeBuf) ← rx.blockListItemGetFirst
        listener.validateReadBlockList rx serviceCode (List.range blockCount.toNat) item
          requestSizeBuf none false

/-- The blocks of the answer so far, and the listener. -/
abbrev Reading := List UInt8 × FelicaListener

def handlerReadBlock (blockNumber : UInt8) (data : List UInt8) : Except FelicaFault Reading := do
  let block ← listener.data.getBlock (felicaListenerGetBlockIndex blockNumber)
  return (data ++ List.ofFn block, listener)

def handlerReadAllZeros (data : List UInt8) : Except FelicaFault Reading :=
  .ok (data ++ List.replicate 16 0, listener)

def handlerReadMacABlock (blockNumber : UInt8) (respDataIndex blockCount : ℕ) (data : List UInt8) :
    Except FelicaFault Reading := do
  if respDataIndex ≠ blockCount - 1 ∨ respDataIndex = 0 then
    let (data, listener) ← listener.handlerReadAllZeros data
    return (data, { listener with macCalcStart := UInt8.ofNat (respDataIndex + 1) })
  else
    let start := listener.macCalcStart.toNat
    let count := blockCount - start
    if count = 0 then .error .outOfBounds -- the size of the blocks wraps
    else
      let mac := crypto.calculateMacRead listener.sessionKey listener.data.rc
        (((List.ofFn listener.requestedBlocks).drop start).take count)
        ((data.drop (start * 16)).take ((count - 1) * 16))
      let macA : FelicaBlockData := fun i => mac.toList.getD i.val (listener.data.blocks 25 i)
      { listener with
        data := { listener.data with blocks := Function.update listener.data.blocks 25 macA } }
        |>.handlerReadBlock blockNumber data

/-- The handler of a block that is read. -/
def readBlock (number : UInt8) (respDataIndex blockCount : ℕ) (data : List UInt8) :
    Except FelicaFault Reading :=
  if number = FELICA_BLOCK_INDEX_RC ∨ number = FELICA_BLOCK_INDEX_CK then
    listener.handlerReadAllZeros data
  else if number = FELICA_BLOCK_INDEX_MAC_A then
    listener.handlerReadMacABlock crypto number respDataIndex blockCount data
  else listener.handlerReadBlock number data

def readBlocks (rx : FelicaRx) (blockCount : ℕ) :
    List ℕ → Option ℕ → UInt8 → FelicaListener → List UInt8 → Except FelicaFault Reading
  | [], _, _, listener, data => .ok (data, listener)
  | i :: is, item, requestSizeBuf, listener, data => do
    let element ← rx.blockListElement item
    let number := element.blockNumber
    let listener := { listener with
      requestedBlocks := fun j => if j.val = i then number else listener.requestedBlocks j }
    let (data, listener) ← listener.readBlock crypto number i blockCount data
    let (next, requestSizeBuf) ← rx.blockListItemGetNext item requestSizeBuf
    readBlocks rx blockCount is next requestSizeBuf listener data

/-- How many blocks are in the answer. -/
def readBlockCount (rx : FelicaRx) (flags : Option FelicaFlags) : Except FelicaFault UInt8 :=
  if flags.isNone then rx.blockCount else .ok 0

def commandHandlerRead (rx : FelicaRx) : Handled := do
  let idm ← rx.bytes 2 8
  let flags ← listener.validateReadRequest rx
  let blockCount ← readBlockCount rx flags
  let (item, requestSizeBuf) ← rx.blockListItemGetFirst
  let (data, listener) ← readBlocks crypto rx blockCount.toNat (List.range blockCount.toNat) item
    requestSizeBuf { listener with macCalcStart := 0, requestedBlocks := fun _ => 0 } []
  let (sf1, sf2) := flags.getD (0, 0)
  let count := if flags.isNone then [blockCount] else []
  let length := UInt8.ofNat (12 + count.length + data.length)
  let reply ← felicaListenerFrameExchange ([length, 0x07] ++ idm ++ [sf1, sf2] ++ count ++ data)
  return (reply, listener)

/-! ## Writing blocks of a Lite card -/

/-- What an element of a write is checked for; the second one is the checksum. -/
def validateWriteBlock (rx : FelicaRx) (dataPtr : ℕ) (writeWithMac : Bool) (i : ℕ)
    (item : Option ℕ) : Except FelicaFault (Option FelicaFlags) := do
  let element ← rx.blockListElement item
  let sf1 : UInt8 := 1 <<< UInt8.ofNat i
  let number := element.blockNumber
  let valid ← rx.blockListItemValidateBlockNumber item
  if !valid || !felicaBlockExists number ||
      (decide (i = 1) && decide (number ≠ FELICA_BLOCK_INDEX_MAC_A)) then
    return some (sf1, 0xA8)
  else if listener.data.blockIsReadonly number ||
      (listener.data.blockRequiresMac number && !writeWithMac) ||
      (decide (i = 0) && decide (number = FELICA_BLOCK_INDEX_MAC_A)) then
    return some (0x01, 0xA8)
  else if element.serviceCode ≠ 0 then return some (sf1, 0xA3)
  else if element.accessMode ≠ 0 then return some (sf1, 0xA7)
  else if i = 1 ∧ number = FELICA_BLOCK_INDEX_MAC_A then
    let mac ← rx.bytes (dataPtr + 16) 8
    let wcnt ← rx.bytes (dataPtr + 24) 3
    let block ← rx.block dataPtr
    let calculated := crypto.calculateMacWrite listener.sessionKey listener.data.rc wcnt block
    if !listener.rcWritten || mac != calculated.toList then return some (0x02, 0xB2)
    else
      let belowLimit ← listener.data.wcntCheckErrorBoundary
      return if belowLimit then none else some (0x02, 0xB2)
  else if listener.data.blockRequiresAuth 8 number && !listener.external then
    return some (0x01, 0xB1)
  else return none

/-- Whether the second element is that of a checksum. -/
def writeWithMac (rx : FelicaRx) (blockCount : UInt8) (second : Option ℕ) :
    Except FelicaFault Bool := do
  if blockCount = 2 then
    let element ← rx.blockListElement second
    return decide (element.blockNumber = FELICA_BLOCK_INDEX_MAC_A)
  else return false

def validateWriteBlockList (rx : FelicaRx) (dataPtr : ℕ) :
    Except FelicaFault (Option FelicaFlags) := do
  let (first, requestSizeBuf) ← rx.blockListItemGetFirst
  let (second, _) ← rx.blockListItemGetNext first requestSizeBuf
  let blockCount ← rx.blockCount
  let writeWithMac ← writeWithMac rx blockCount second
  if !writeWithMac && (decide (blockCount < 1) || decide (2 < blockCount)) then
    return some (0x02, 0xB2)
  else
    let flags ← listener.validateWriteBlock crypto rx dataPtr writeWithMac 0 first
    if flags.isNone && decide (blockCount = 2) then
      listener.validateWriteBlock crypto rx dataPtr writeWithMac 1 second
    else return flags

/-- The flags of an answer, and whether the write goes on. -/
def validateWriteRequest (rx : FelicaRx) (dataPtr : ℕ) : Except FelicaFault (Bool × FelicaFlags) := do
  let serviceNum ← rx.serviceNum
  if serviceNum ≠ 0x01 then return (false, 0xFF, 0xA1)
  else
    let blockCount ← rx.blockCount
    if blockCount < 1 ∨ 2 < blockCount then return (false, 0xFF, 0xA2)
    else
      let serviceCode ← rx.serviceCode
      if serviceCode ≠ FELICA_SERVICE_RW_ACCESS then return (false, 0x01, 0xA6)
      else
        let flags ← listener.validateWriteBlockList crypto rx dataPtr
        match flags with
        | some flags => return (false, flags)
        | none =>
          return (true, if listener.data.wcntCheckWarningBoundary then (0xFF, 0x71) else (0, 0))

/-- The listener with other data. -/
def setData (data : FelicaData) : FelicaListener := { listener with data := data }

def handlerWriteBlock (number : UInt8) (block : FelicaBlockData) :
    Except FelicaFault FelicaListener := do
  let data ← listener.data.setBlock (felicaListenerGetBlockIndex number) block
  return listener.setData data

def handlerWriteRcBlock (number : UInt8) (block : FelicaBlockData) :
    Except FelicaFault FelicaListener := do
  let listener ← listener.handlerWriteBlock number block
  return { listener with
    sessionKey := crypto.calculateSessionKey listener.data.ck listener.data.rc
    rcWritten := true }

/-- The three numbers of the block get smaller only. -/
def handlerWriteRegBlock (block : FelicaBlockData) : FelicaListener :=
  let reg := listener.data.reg
  let lowerA := decide (block.number 0 4 ≤ reg.number 0 4)
  let lowerB := decide (block.number 4 4 ≤ reg.number 4 4)
  let reg : FelicaBlockData := fun i =>
    if i.val < 4 then if lowerA then block i else reg i
    else if i.val < 8 then if lowerB then block i else reg i
    else if lowerA && lowerB then block i else reg i
  listener.setData
    { listener.data with blocks := Function.update listener.data.blocks 14 reg }

/-- What is written comes into force when the field is off. -/
def handlerWriteMcBlock (block : FelicaBlockData) : FelicaListener :=
  let bitsPermission := listener.data.getMcBit 0 15
  let systemBlockPermission := listener.data.systemBlockRwAccess
  { listener with
    mcShadow := fun i =>
      if i.val ≤ 1 ∧ bitsPermission then listener.mcShadow i &&& block i
      else if 2 ≤ i.val ∧ i.val ≤ 5 ∧ systemBlockPermission then block i
      else if 6 ≤ i.val ∧ i.val ≤ 12 ∧ bitsPermission then listener.mcShadow i ||| block i
      else if 13 ≤ i.val then 0
      else listener.mcShadow i }

def handlerWriteStateBlock (number : UInt8) (block : FelicaBlockData) :
    Except FelicaFault FelicaListener := do
  let listener ← listener.handlerWriteBlock number block
  let state := decide (listener.data.state 0 = 0x01)
  return { listener with external := state, internal := state }

def handlerWriteIdBlock (block : FelicaBlockData) : FelicaListener :=
  let id : FelicaBlockData := fun i => if i.val < 8 then listener.data.id i else block i
  listener.setData { listener.data with blocks := Function.update listener.data.blocks 17 id }

def writeBlock (number : UInt8) (block : FelicaBlockData) : Except FelicaFault FelicaListener :=
  if number = FELICA_BLOCK_INDEX_RC then listener.handlerWriteRcBlock crypto number block
  else if number = FELICA_BLOCK_INDEX_REG then .ok (listener.handlerWriteRegBlock block)
  else if number = FELICA_BLOCK_INDEX_MC then .ok (listener.handlerWriteMcBlock block)
  else if number = FELICA_BLOCK_INDEX_STATE then listener.handlerWriteStateBlock number block
  else if number = FELICA_BLOCK_INDEX_ID then .ok (listener.handlerWriteIdBlock block)
  else listener.handlerWriteBlock number block

def writeBlocks (rx : FelicaRx) (dataPtr : ℕ) :
    List ℕ → Option ℕ → UInt8 → FelicaListener → Except FelicaFault FelicaListener
  | [], _, _, listener => .ok listener
  | i :: is, item, requestSizeBuf, listener => do
    let element ← rx.blockListElement item
    let block ← rx.block (dataPtr + i * 16)
    let listener ← listener.writeBlock crypto element.blockNumber block
    let (next, requestSizeBuf) ← rx.blockListItemGetNext item requestSizeBuf
    writeBlocks rx dataPtr is next requestSizeBuf listener

/-- What a request writes, and the counter. -/
def writeRequested (rx : FelicaRx) (dataPtr : ℕ) : Except FelicaFault FelicaListener := do
  let (item, requestSizeBuf) ← rx.blockListItemGetFirst
  let blockCount ← rx.blockCount
  let listener ← writeBlocks crypto rx dataPtr (List.range blockCount.toNat) item requestSizeBuf
    listener
  let data ← listener.data.wcntIncrement
  return listener.setData data

def commandHandlerWrite (rx : FelicaRx) (blockListSize : UInt8) : Handled := do
  let dataPtr := FELICA_LISTENER_REQUEST_SIZE + blockListSize.toNat
  let idm ← rx.bytes 2 8
  let (valid, sf1, sf2) ← listener.validateWriteRequest crypto rx dataPtr
  let listener ← if valid then listener.writeRequested crypto rx dataPtr else pure listener
  let reply ← felicaListenerFrameExchange ([12, 0x09] ++ idm ++ [sf1, sf2])
  return (reply, listener)

/-! ## Cards of the kind Standard -/

def standardServiceCodes (rx : FelicaRx) (offset : ℕ) : ℕ → Except FelicaFault (List UInt16)
  | 0 => .ok []
  | n + 1 => do
    let code ← rx.uint16 offset
    let codes ← standardServiceCodes rx (offset + 2) n
    return code :: codes

/-- An element of the list of a Standard request: the place of its service in the list of services,
the number of its block, and where the next one begins. -/
def standardElement (rx : FelicaRx) (ptr : ℕ) : Except FelicaFault (ℕ × UInt8 × ℕ) := do
  let first ← rx.byte ptr
  let number ← rx.byte (ptr + 1)
  return ((first &&& 0x0F).toNat, number, ptr + if first >>> 7 ≠ 0 then 2 else 3)

/-- The blocks that are read, unless one is missing. -/
def standardReadBlocks (rx : FelicaRx) (codes : List UInt16) (system : Option FelicaSystem) :
    ℕ → ℕ → Except FelicaFault (Option (List FelicaBlockData))
  | 0, _ => .ok (some [])
  | left + 1, ptr => do
    let (svcIdx, number, next) ← standardElement rx ptr
    match codes[svcIdx]?, system with
    | some code, some system =>
      match system.publicBlocks.find? fun pb => pb.serviceCode == code && pb.blockIdx == number with
      | none => return none
      | some pb =>
        let rest ← standardReadBlocks rx codes system left next
        return rest.map (pb.data :: ·)
    | _, _ => return none

def commandHandlerStandardRead (rx : FelicaRx) : Handled := do
  let serviceNum ← rx.byte 10
  if serviceNum = 0 ∨ 16 < serviceNum then return (.silent, listener)
  else
    let codes ← standardServiceCodes rx 11 serviceNum.toNat
    let blockCount ← rx.byte (11 + serviceNum.toNat * 2)
    let blocks ← standardReadBlocks rx codes listener.getCurrentSystem (min blockCount.toNat 7)
      (12 + serviceNum.toNat * 2)
    let answer : List UInt8 := match blocks with
      | none => [0xFF, 0xA8]
      | some blocks => [0x00, 0x00, UInt8.ofNat blocks.length] ++ blocks.flatMap List.ofFn
    let length := UInt8.ofNat (10 + answer.length)
    let reply ← felicaListenerFrameExchange ([length, 0x07] ++ listener.getCurrentIdm ++ answer)
    return (reply, listener)

/-- The blocks that are to be written, up to the first element that says something else, and where
the reading of the list has stopped. -/
def standardTargets (rx : FelicaRx) (codes : List UInt16) (system : Option FelicaSystem) :
    ℕ → ℕ → Except FelicaFault (FelicaFlags × List (UInt16 × UInt8) × ℕ)
  | 0, ptr => .ok ((0, 0), [], ptr)
  | left + 1, ptr => do
    let (svcIdx, number, next) ← standardElement rx ptr
    match codes[svcIdx]?, system with
    | some code, some system =>
      match system.findService code with
      | none => return ((0, 0), [], next)
      | some svc =>
        if svc.attr &&& FELICA_SERVICE_ATTRIBUTE_READ_ONLY ≠ 0 then return ((0xFF, 0xA6), [], next)
        else
          let (flags, targets, ptr) ← standardTargets rx codes system left next
          return (flags, (code, number) :: targets, ptr)
    | _, _ => return ((0xFF, 0xA8), [], next)

/-- The first block of this service and number, written. -/
def writePublicBlock (target : UInt16 × UInt8) (data : FelicaBlockData) :
    List FelicaPublicBlock → List FelicaPublicBlock
  | [] => []
  | pb :: pbs =>
    if pb.serviceCode = target.1 ∧ pb.blockIdx = target.2 then { pb with data := data } :: pbs
    else pb :: writePublicBlock target data pbs

/-- The loop over the blocks that are written. -/
def standardWriteBlocks (rx : FelicaRx) :
    List (UInt16 × UInt8) → ℕ → List FelicaPublicBlock →
      Except FelicaFault (FelicaFlags × List FelicaPublicBlock)
  | [], _, pbs => .ok ((0, 0), pbs)
  | target :: targets, ptr, pbs => do
    if pbs.any fun pb => pb.serviceCode == target.1 && pb.blockIdx == target.2 then
      let data ← rx.block ptr
      standardWriteBlocks rx targets (ptr + 16) (writePublicBlock target data pbs)
    else return ((0xFF, 0xA8), pbs)

/-- The public blocks of the selected system, changed. -/
def setPublicBlocks (pbs : List FelicaPublicBlock) : FelicaListener :=
  listener.setData { listener.data with
    systems := listener.data.systems.modify listener.currentSystemIdx.toNat fun system =>
      { system with publicBlocks := pbs } }

def commandHandlerStandardWrite (rx : FelicaRx) : Handled := do
  let serviceNum ← rx.byte 10
  if serviceNum = 0 ∨ 16 < serviceNum then return (.silent, listener)
  else
    let codes ← standardServiceCodes rx 11 serviceNum.toNat
    let blockCount ← rx.byte (11 + serviceNum.toNat * 2)
    let system := listener.getCurrentSystem
    let (flags, targets, ptr) ← standardTargets rx codes system (min blockCount.toNat 16)
      (12 + serviceNum.toNat * 2)
    let (flags, listener) ← match system with
      | none => pure (flags, listener)
      | some system =>
        if flags.1 = 0 then do
          let (flags, pbs) ← standardWriteBlocks rx targets ptr system.publicBlocks
          pure (flags, listener.setPublicBlocks pbs)
        else pure (flags, listener)
    let reply ← felicaListenerFrameExchange
      ([12, 0x09] ++ listener.getCurrentIdm ++ [flags.1, flags.2])
    return (reply, listener)

/-! ## Services and systems -/

def commandHandlerRequestResponse : Handled := do
  let reply ← felicaListenerFrameExchange ([11, 0x05] ++ listener.getCurrentIdm ++ [listener.mode])
  return (reply, listener)

def areaKeyVersion (system : FelicaSystem) (code : UInt16) : UInt16 :=
  match system.areas.find? fun area => area.code == code with
  | some area => area.keyVersion
  | none => 0xFFFF

/-- The version of the key of an area or a service. -/
def requestedKeyVersion (system : Option FelicaSystem) (code : UInt16) : UInt16 :=
  match system with
  | none => 0xFFFF
  | some system =>
    if code = 0xFFFF then system.keyVersion
    else if areaKeyVersion system code = 0xFFFF then
      match system.findService code with
      | some svc => svc.keyVersion
      | none => 0xFFFF
    else areaKeyVersion system code

def commandHandlerRequestService (rx : FelicaRx) : Handled := do
  let requested ← rx.byte 10
  let n := min requested.toNat ((FELICA_LISTENER_MAX_BUFFER_SIZE - 2 - 11) / 2)
  let codes ← standardServiceCodes rx 11 n
  let versions := codes.flatMap fun code =>
    uint16Bytes (requestedKeyVersion listener.getCurrentSystem code)
  let reply ← felicaListenerFrameExchange
    ([UInt8.ofNat (11 + 2 * n), 0x03] ++ listener.getCurrentIdm ++ [UInt8.ofNat n] ++ versions)
  return (reply, listener)

/-- The loop over the areas and services in the order in which they are listed. -/
def searchServiceCode : ℕ → List FelicaArea → List FelicaService → ℕ → List UInt16
  | 0, area :: _, services, si =>
    if area.firstIdx.toNat ≤ si then [area.code, area.endCode]
    else
      match services with
      | svc :: _ => [svc.code]
      | [] => [0xFFFF]
  | counter + 1, area :: areas, services, si =>
    if area.firstIdx.toNat ≤ si then searchServiceCode counter areas services si
    else
      match services with
      | _ :: services => searchServiceCode counter (area :: areas) services (si + 1)
      | [] => [0xFFFF]
  | 0, [], svc :: _, _ => [svc.code]
  | counter + 1, [], _ :: services, si => searchServiceCode counter [] services (si + 1)
  | _, [], [], _ => [0xFFFF]

def commandHandlerSearchServiceCode (rx : FelicaRx) : Handled := do
  let counter ← rx.uint16 10
  let codes : List UInt16 := match listener.getCurrentSystem with
    | some system => searchServiceCode counter.toNat system.areas system.services 0
    | none => [0xFFFF]
  let data := codes.flatMap uint16Bytes
  let reply ← felicaListenerFrameExchange
    ([UInt8.ofNat (10 + data.length), 0x0B] ++ listener.getCurrentIdm ++ data)
  return (reply, listener)

def commandHandlerRequestSystemCode : Handled := do
  let systems := listener.data.systems
  let codes := systems.flatMap fun system => (uint16Bytes system.systemCode).reverse
  let reply ← felicaListenerFrameExchange ([UInt8.ofNat (11 + systems.length * 2), 0x0D] ++
    listener.getCurrentIdm ++ [UInt8.ofNat systems.length] ++ codes)
  return (reply, listener)

def processRequest (rx : FelicaRx) (blockListSize : UInt8) : Handled := do
  let code ← rx.code
  if code = FELICA_CMD_REQUEST_RESPONSE then listener.commandHandlerRequestResponse
  else if code = FELICA_CMD_REQUEST_SERVICE then listener.commandHandlerRequestService rx
  else if code = FELICA_CMD_READ_WITHOUT_ENCRYPTION then
    if listener.data.workflowType = .standard then listener.commandHandlerStandardRead rx
    else listener.commandHandlerRead crypto rx
  else if code = FELICA_CMD_WRITE_WITHOUT_ENCRYPTION then
    if listener.data.workflowType = .standard then listener.commandHandlerStandardWrite rx
    else listener.commandHandlerWrite crypto rx blockListSize
  else if code = FELICA_CMD_LIST_SERVICE_CODE then listener.commandHandlerSearchServiceCode rx
  else if code = FELICA_CMD_REQUEST_SYSTEM_CODE then listener.commandHandlerRequestSystemCode
  else return (.silent, listener)

/-! ## Polling -/

def FELICA_SYSTEM_CODE_CODE : UInt16 := 0xFFFF

def bswap16 (x : UInt16) : UInt16 := (x <<< 8) ||| (x >>> 8)

def FELICA_LISTENER_SYSTEM_CODE_NDEF : UInt16 := bswap16 0x12FC

def FELICA_LISTENER_SYSTEM_CODE_LITES : UInt16 := bswap16 0x88B4

def FELICA_LISTENER_PERFORMANCE_VALUE : UInt16 := bswap16 0x0083

def checkSystemCode (requested code : UInt16) : Bool :=
  requested = code ∨ requested = code ||| 0x00FF ∨ requested = code ||| 0xFF00

/-- The code of the system that is answered with, and its place among those of the card. -/
def getResponseSystemCode (requested : UInt16) : UInt16 × UInt8 :=
  if checkSystemCode requested FELICA_LISTENER_SYSTEM_CODE_NDEF && listener.data.mc 3 == 1 then
    (FELICA_LISTENER_SYSTEM_CODE_NDEF, 0)
  else if checkSystemCode requested FELICA_LISTENER_SYSTEM_CODE_LITES then
    (FELICA_LISTENER_SYSTEM_CODE_LITES, 0)
  else
    match listener.data.systems.findIdx? fun system =>
      checkSystemCode requested (bswap16 system.systemCode) with
    | some i => (bswap16 ((listener.data.systems.map FelicaSystem.systemCode).getD i 0), UInt8.ofNat i)
    | none => (FELICA_SYSTEM_CODE_CODE, 0)

def processSystemCode (rx : FelicaRx) (requested : UInt16) : Handled := do
  let (code, matchedIdx) := listener.getResponseSystemCode requested
  if code = FELICA_SYSTEM_CODE_CODE then return (.reset, listener)
  else
    let listener := { listener with currentSystemIdx := matchedIdx }
    let requestCode ← rx.byte 4
    let optional : List UInt8 :=
      if requestCode = 0x01 then uint16Bytes code
      else if requestCode = 0x02 then uint16Bytes FELICA_LISTENER_PERFORMANCE_VALUE
      else []
    let reply ← felicaListenerFrameExchange ([UInt8.ofNat (18 + optional.length), 0x01] ++
      listener.getCurrentIdm ++ listener.data.pmm.toList ++ optional)
    return (reply, listener)

/-! ## Events -/

inductive Event
  | fieldOff
  | received (rx : FelicaRx)

def received (rx : FelicaRx) : Handled := do
  if !felicaCrcCheck rx.frame then return (.silent, listener)
  else
    let size := UInt8.ofNat (rx.frame.length - 2)
    let length ← rx.length
    if length ≠ size then return (.silent, listener)
    else
      let (valid, blockListSize) ← rx.checkBlockListSize listener.data.workflowType
      if !valid then return (.silent, listener)
      else
        let code ← rx.code
        if code = 0x00 then
          let requested ← rx.uint16 2
          if requested ≠ FELICA_SYSTEM_CODE_CODE then listener.processSystemCode rx requested
          else return (.silent, listener)
        else
          let same ← listener.checkIdm rx
          if same then listener.processRequest crypto rx blockListSize
          else return (.silent, listener)

def run : Event → Handled
  | .fieldOff => .ok (.silent, listener.reset)
  | .received rx => listener.received crypto rx

/-- One event. -/
def step (event : Event) : Except FelicaFault FelicaListener :=
  (listener.run crypto event).map Prod.snd

end FelicaListener

end KiisuFirmware
