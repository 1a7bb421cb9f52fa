import KiisuFirmware.MfUltralight
import KiisuFirmware.Run
import KiisuFirmware.Strint

/-!
# The emulation of a MIFARE Ultralight tag

The listener with the commands that read and write pages, and the selection of a sector,
`mf_ultralight_listener.c` and `mf_ultralight_listener_i.c`. `accessed` is what the listener has
indexed the array of pages with. A loop goes as many rounds as there are at most, and everything ends
where they are exhausted.
-/

namespace KiisuFirmware

/-- Why everything ends: rounds of a loop that are exhausted, a division by zero, a frame of nothing
and one of another command. -/
inductive MfUltralightStop
  | exhausted
  | divisionByZero
  | check
  | otherCommand
  deriving DecidableEq

inductive MfUltralightListenerAuthState
  | idle
  | success
  deriving DecidableEq

inductive MfUltralightListenerAccessType
  | read
  | write
  deriving DecidableEq

/-- What a handler says, with what it has sent. -/
inductive MfUltralightCommand
  | processed (frame : List UInt8)
  | processedACK
  | processedSilent
  | notProcessedNAK
  | notProcessedSilent
  deriving DecidableEq

structure MfUltralightMirrorMode where
  enabled : Bool
  asciiOffset : UInt8
  asciiEnd : UInt8
  mirrorLastPage : UInt8
  actualMode : MfUltralightMirrorConf
  asciiMirrorData : List UInt8

/-- The second part of a command that comes in two. -/
inductive MfUltralightCompositeCmd
  | none
  | compWrite (startPage : ℕ)
  | sectorSelect
  deriving DecidableEq

structure MfUltralightListener where
  data : MfUltralightData
  authState : MfUltralightListenerAuthState
  sector : UInt8
  singleCounterIncreased : Bool
  mirror : MfUltralightMirrorMode
  compositeCmd : MfUltralightCompositeCmd
  accessed : List ℕ

namespace MfUltralightListener

variable (listener : MfUltralightListener)

def setMirror (mirror : MfUltralightMirrorMode) : MfUltralightListener :=
  { listener with mirror := mirror }

def setData (data : MfUltralightData) : MfUltralightListener := { listener with data := data }

/-- An access to the array of pages. -/
def access (i : ℕ) : MfUltralightListener := { listener with accessed := i :: listener.accessed }

/-! ## The text that is mirrored -/

/-- The counter, the highest of its three bytes first. -/
def formatCounter (counter : UInt32) : List UInt8 :=
  printHex 2 (counter >>> 16).toUInt8.toNat ++ printHex 2 (counter >>> 8).toUInt8.toNat ++
    printHex 2 counter.toUInt8.toNat

def mirrorFormatCounter : MfUltralightListener :=
  listener.setMirror { listener.mirror with
    asciiMirrorData := listener.mirror.asciiMirrorData.take (listener.data.uid.size * 2 + 1) ++
      formatCounter listener.data.counter }

def mirrorPrepareEmulation : MfUltralightListener :=
  (listener.setMirror { listener.mirror with
    asciiMirrorData := (listener.data.uid.toList.flatMap fun b => printHex 2 b.toNat) ++
      [0x78] }).mirrorFormatCounter

def singleCounterTryIncrease : MfUltralightListener :=
  if listener.data.type.supportFeature .singleCounter && listener.data.config.nfcCntEn &&
      !listener.singleCounterIncreased then
    if listener.data.counter < MF_ULTRALIGHT_MAX_CNTR_VAL then
      { (listener.setData { listener.data with
        counter := listener.data.counter + 1 }).mirrorFormatCounter with
          singleCounterIncreased := true }
    else { listener with singleCounterIncreased := true }
  else listener

/-! ## Where it is mirrored -/

def mirrorCheckMode (config : MfUltralightConfigPages)
    (authState : MfUltralightListenerAuthState) : MfUltralightMirrorConf :=
  let mirrorMode := config.mirrorConf
  if mirrorMode = .none ∨ mirrorMode = .uid then mirrorMode
  else if !config.nfcCntEn || config.nfcCntPwdProt && authState ≠ .success then
    if mirrorMode = .counter then .none else .uid
  else mirrorMode

/-- What the loop over the modes keeps from round to round. -/
structure MirrorBoundaries where
  mode : MfUltralightMirrorConf
  actualMode : MfUltralightMirrorConf
  maxPageOffset : ℕ
  maxByteOffset : ℕ
  again : Bool

def MirrorBoundaries.setOffsets (s : MirrorBoundaries) : MirrorBoundaries :=
  match s.mode with
  | .none => s
  | .uid => { s with maxPageOffset := 3, actualMode := .uid }
  | .counter => { s with maxPageOffset := 1, actualMode := .counter }
  | .uidCounter => { s with maxPageOffset := 5, maxByteOffset := 3, actualMode := .uidCounter }

/-- One round of the loop. It goes round again once it has gone round again. -/
def mirrorBoundariesRound (config : MfUltralightConfigPages) (lastUserPage : ℕ)
    (s : MirrorBoundaries) : Option Bool × MirrorBoundaries :=
  if s.mode = .none then (some false, s)
  else
    let s := s.setOffsets
    let last : ℤ := (lastUserPage : ℤ) - s.maxPageOffset
    if config.mirrorPage ≤ 3 then (some false, s)
    else if config.mirrorPage < last then (some true, s)
    else if config.mirrorPage = last then (some (decide (config.mirrorByte ≤ s.maxByteOffset)), s)
    else
      let s := if s.mode = .uidCounter then { s with mode := .uid, again := true } else s
      (if s.again then none else some false, s)

/-- The number as a `uint8_t`. -/
def lastUserPage : ℕ := (listener.data.type.getConfigPageNum + 254) % 2 ^ 8

def mirrorCheckBoundaries (rounds : ℕ) : Except MfUltralightStop (Bool × MfUltralightListener) :=
  let config := listener.data.config
  match firstOutput (mirrorBoundariesRound config listener.lastUserPage) rounds
    { mode := mirrorCheckMode config listener.authState
      actualMode := listener.mirror.actualMode
      maxPageOffset := 0
      maxByteOffset := 2
      again := false } with
  | none => .error .exhausted
  | some (result, s) =>
    .ok (result, listener.setMirror { listener.mirror with actualMode := s.actualMode })

def mirrorEnabled (rounds : ℕ) : Except MfUltralightStop MfUltralightListener :=
  if listener.data.type.supportFeature .asciiMirror ∧ listener.data.type.getConfigPageNum ≠ 0 then do
    let (result, listener) ← listener.mirrorCheckBoundaries rounds
    return listener.setMirror { listener.mirror with enabled := result }
  else .ok (listener.setMirror { listener.mirror with enabled := false })

def getMirrorDataSize : MfUltralightMirrorConf → ℕ
  | .uid => 14
  | .counter => 6
  | .uidCounter => 21
  | .none => 0

def getMirrorLastPage : UInt8 :=
  UInt8.ofNat (listener.data.config.mirrorPage + 1 +
    getMirrorDataSize listener.mirror.actualMode / 4)

def getAsciiOffset (startPage : ℕ) : UInt8 :=
  let config := listener.data.config
  let startOffset := if config.mirrorConf = .counter then 15 else 0
  if config.mirrorPage < startPage then
    UInt8.ofNat ((startPage - config.mirrorPage) * 4 - config.mirrorByte + startOffset)
  else UInt8.ofNat startOffset

def getAsciiEnd (mode : MfUltralightMirrorConf) : UInt8 := if mode = .uid then 14 else 21

def mirrorReadPrepare (rounds startPage : ℕ) : Except MfUltralightStop MfUltralightListener := do
  let listener ← listener.mirrorEnabled rounds
  if listener.mirror.enabled then
    return listener.setMirror { listener.mirror with
      asciiOffset := listener.getAsciiOffset (startPage % 2 ^ 8)
      asciiEnd := getAsciiEnd listener.mirror.actualMode
      mirrorLastPage := listener.getMirrorLastPage }
  else return listener

/-- The loop over the bytes of a page that are overlaid, and where it ends in the text. -/
def mirrorBytes (source : List UInt8) (asciiEnd : UInt8) :
    UInt8 → List UInt8 → List UInt8 × UInt8
  | asciiOffset, [] => ([], asciiOffset)
  | asciiOffset, b :: dest =>
    if asciiOffset < asciiEnd then
      let (dest, asciiOffset') := mirrorBytes source asciiEnd (asciiOffset + 1) dest
      (source.getD asciiOffset.toNat 0 :: dest, asciiOffset')
    else (b :: dest, asciiOffset)

def mirrorReadHandler (mirrorPageNum : ℕ) (dest : List UInt8) :
    List UInt8 × MfUltralightListener :=
  let config := listener.data.config
  if listener.mirror.enabled && config.mirrorPage ≤ mirrorPageNum &&
      mirrorPageNum ≤ listener.mirror.mirrorLastPage.toNat then
    let byteOffset := if config.mirrorPage < mirrorPageNum then 0 else config.mirrorByte
    let (bytes, asciiOffset) := mirrorBytes listener.mirror.asciiMirrorData
      listener.mirror.asciiEnd listener.mirror.asciiOffset (dest.drop byteOffset)
    (dest.take byteOffset ++ bytes,
      listener.setMirror { listener.mirror with asciiOffset := asciiOffset })
  else (dest, listener)

/-! ## Sectors -/

def inBounds (page start stop : ℕ) : Bool := start ≤ page && page ≤ stop

def i2cPageOnSessionReg (page : ℕ) : Bool := inBounds page 0x00EC 0x00ED

def i2cPageOnMirroredSessionReg (page : ℕ) : Bool := inBounds page 0x00F8 0x00F9

def i2cPageValidatorForSector0 (startPage endPage : ℕ) : MfUltralightType → Bool
  | .ntagI2CPlus1K | .ntagI2CPlus2K =>
    startPage ≤ 0xE9 && endPage ≤ 0xE9 ||
      i2cPageOnSessionReg startPage && i2cPageOnSessionReg endPage
  | .ntagI2C1K => startPage ≤ 0xE2 || inBounds startPage 0x00E8 0x00E9
  | .ntagI2C2K => startPage ≤ 0xFF && endPage ≤ 0xFF
  | _ => false

def i2cPageValidatorForSector1 (startPage endPage : ℕ) : MfUltralightType → Bool
  | .ntagI2CPlus2K => startPage ≤ 0xFF && endPage ≤ 0xFF
  | .ntagI2C2K => inBounds startPage 0x00E8 0x00E9 || startPage ≤ 0xE0
  | _ => false

def i2cValidatePages (startPage endPage : ℕ) : Bool :=
  match listener.sector with
  | 0 => i2cPageValidatorForSector0 startPage endPage listener.data.type
  | 1 => i2cPageValidatorForSector1 startPage endPage listener.data.type
  | 2 => false
  | 3 => i2cPageOnMirroredSessionReg startPage
  | _ => false

/-- The page as a `uint8_t`, but for the registers. -/
def i2cPageProviderForSector0 (page : ℕ) : MfUltralightType → ℕ
  | .ntagI2CPlus1K | .ntagI2CPlus2K =>
    if page = 0x00EC then 234 else if page = 0x00ED then 235 else page % 2 ^ 8
  | .ntagI2C1K => if page = 0x00E8 then 232 else if page = 0x00E9 then 233 else page % 2 ^ 8
  | _ => page % 2 ^ 8

def i2cPageProviderForSector1 (page : ℕ) : MfUltralightType → ℕ
  | .ntagI2CPlus2K => page + 236
  | .ntagI2C2K => page + 256
  | _ => page

def i2cPageProviderForSector3 (page : ℕ) : MfUltralightType → ℕ
  | .ntagI2CPlus1K | .ntagI2CPlus2K =>
    if page = 0x00F8 then 234 else if page = 0x00F9 then 235 else page
  | .ntagI2C1K => if page = 0x00F8 then 227 else if page = 0x00F9 then 228 else page
  | .ntagI2C2K => if page = 0x00F8 then 481 else if page = 0x00F9 then 482 else page
  | _ => page

def i2cProvidePageByRequested (page : ℕ) : ℕ :=
  match listener.sector with
  | 0 => i2cPageProviderForSector0 page listener.data.type
  | 1 => i2cPageProviderForSector1 page listener.data.type
  | 2 => page
  | 3 => i2cPageProviderForSector3 page listener.data.type
  | _ => page

/-! ## Access and locks -/

def commonCheckAccess (startPage : ℕ) (accessType : MfUltralightListenerAccessType) : Bool :=
  let config := listener.data.config
  let isWriteOp := accessType = .write
  let configPageStart := (listener.data.pagesTotal + (2 ^ 16 - 4)) % 2 ^ 16
  if listener.authState ≠ .success ∧ config.auth0 ≤ startPage ∧ (config.prot ∨ isWriteOp) then false
  else if config.cfglck ∧ isWriteOp ∧
      (startPage = configPageStart ∨ startPage = configPageStart + 1) then false
  else true

def cCheckAccess (startPage : ℕ) (accessType : MfUltralightListenerAccessType) : Bool :=
  if 44 ≤ startPage then false
  else
    let auth0 := ((listener.data.getPage 42).getD 0 0).toNat
    let auth1 := (listener.data.getPage 43).getD 0 0 &&& 0x01
    if auth0 < 0x03 ∨ 0x30 ≤ auth0 ∨ listener.authState = .success then true
    else if auth0 ≤ startPage ∧ (auth1 = 0 ∨ auth1 = 1 ∨ accessType = .write) then false
    else true

def checkAccess (startPage : ℕ) (accessType : MfUltralightListenerAccessType) : Bool :=
  if listener.data.type.supportFeature .authenticate then
    listener.cCheckAccess startPage accessType
  else if listener.data.type.supportFeature .passwordAuth then
    listener.commonCheckAccess startPage accessType
  else true

/-- The lock bits of the pages 3 to 15, the lower byte first. -/
def staticLock : UInt16 :=
  let page := listener.data.getPage 2
  (page.getD 2 0).toUInt16 ||| (page.getD 3 0).toUInt16 <<< 8

def staticLockCheckPage (page : ℕ) : Bool :=
  inBounds page 0x0003 0x000F && listener.staticLock.toNat.testBit page

/-- The bits whose block is locked stay as they are, and none is cleared. -/
def staticLockBytesWrite (newBits : UInt16) : MfUltralightListener :=
  let currentLocks := listener.staticLock
  let newBits := if currentLocks.toNat.testBit 0 then newBits &&& 0xFFF7 else newBits
  let newBits := if currentLocks.toNat.testBit 1 then newBits &&& 0xFC0F else newBits
  let newBits := if currentLocks.toNat.testBit 2 then newBits &&& 0x03FF else newBits
  let locks := currentLocks ||| newBits
  listener.setData (listener.data.setPage 2
    ((listener.data.getPage 2).take 2 ++ [locks.toUInt8, (locks >>> 8).toUInt8]))

def capabilityContainerWrite (newData : List UInt8) : MfUltralightListener :=
  listener.setData (listener.data.setPage 3
    (((listener.data.getPage 3).zip newData).map fun b => b.1 ||| b.2))

def dynamicLockPageNum : ℕ :=
  match listener.data.type with
  | .ntagI2C1K => 226
  | .ntagI2C2K => 480
  | type => type.getConfigPageNum - 1

/-- The page with the sector before it. -/
def linearPage (page : ℕ) : ℕ := (page + listener.sector.toNat * 256) % 2 ^ 16

def isPageDynamicLock (page : ℕ) : Bool :=
  listener.data.type.supportFeature .dynamicLock &&
    listener.linearPage page = listener.dynamicLockPageNum

def dynamicLock : UInt32 :=
  let page := listener.data.getPage listener.dynamicLockPageNum
  (page.getD 0 0).toUInt32 ||| (page.getD 1 0).toUInt32 <<< 8 |||
    (page.getD 2 0).toUInt32 <<< 16 ||| (page.getD 3 0).toUInt32 <<< 24

/-- The bits whose block is locked stay as they are, and none is cleared. -/
def dynamicLockBytesWrite (newBits : UInt32) : MfUltralightListener :=
  let currentLock := listener.dynamicLock
  let newBits := (List.range 8).foldl (fun newBits i =>
    if currentLock.toNat.testBit (i + 16) then newBits &&& ~~~((3 : UInt32) <<< (i * 2).toUInt32)
    else newBits) (newBits &&& 0x00FFFFFF)
  let lock := currentLock ||| newBits
  listener.setData (listener.data.setPage listener.dynamicLockPageNum
    [lock.toUInt8, (lock >>> 8).toUInt8, (lock >>> 16).toUInt8, (lock >>> 24).toUInt8])

def dynamicLockGranularity : MfUltralightType → ℕ
  | .ul21 | .ntag213 => 2
  | .ntag215 | .ntag216 | .ntagI2C1K | .ntagI2CPlus1K => 16
  | .ntagI2C2K | .ntagI2CPlus2K => 32
  | _ => 1

def getUpperPageBound : MfUltralightType → ℕ
  | .ntagI2CPlus2K => 511
  | .ntagI2C2K => 479
  | .ntagI2C1K => 225
  | type => (type.getConfigPageNum + (2 ^ 16 - 2)) % 2 ^ 16

/-- Only the lower half of the lock bits is looked at. -/
def dynamicLockCheckPage (page : ℕ) : Bool :=
  let linearPage := listener.linearPage page
  listener.data.type.supportFeature .dynamicLock &&
    inBounds linearPage 0x0010 (getUpperPageBound listener.data.type) &&
    listener.dynamicLock.toUInt16.toNat.testBit
      ((linearPage - 16) / dynamicLockGranularity listener.data.type % 2 ^ 8)

/-! ## Reading -/

def zeroPage : List UInt8 := List.replicate MF_ULTRALIGHT_PAGE_SIZE 0

/-- One round of the loop over the pages that are read: the bytes of one page, and how many pages
without access have been read so far. -/
def readPage (startPage : ℕ) (doI2cPageCheck : Bool) (i rollover : ℕ) :
    Except MfUltralightStop (List UInt8 × ℕ × MfUltralightListener) :=
  let page := startPage + i
  let pageRestricted := !listener.checkAccess page .read
  if doI2cPageCheck && !listener.i2cValidatePages page page then .ok (zeroPage, rollover, listener)
  else if listener.data.type.isPagePwdOrPack page then .ok (zeroPage, rollover, listener)
  else
    let page := if doI2cPageCheck then listener.i2cProvidePageByRequested page else page
    if !pageRestricted ∧ listener.data.pagesTotal = 0 then .error .divisionByZero
    else
      let page := if pageRestricted then rollover else page % listener.data.pagesTotal
      let (bytes, listener) :=
        (listener.access page).mirrorReadHandler (page % 2 ^ 8) (listener.data.getPage page)
      .ok (bytes, if pageRestricted then rollover + 1 else rollover, listener)

def readPages (startPage : ℕ) (doI2cPageCheck : Bool) : ℕ → ℕ → ℕ → MfUltralightListener →
    Except MfUltralightStop (List (List UInt8) × MfUltralightListener)
  | 0, _, _, listener => .ok ([], listener)
  | pageCnt + 1, i, rollover, listener => do
    let (bytes, rollover, listener) ← listener.readPage startPage doI2cPageCheck i rollover
    let (pages, listener) ← readPages startPage doI2cPageCheck pageCnt (i + 1) rollover listener
    return (bytes :: pages, listener)

def performRead (rounds startPage pageCnt : ℕ) (doI2cPageCheck : Bool) :
    Except MfUltralightStop (List (List UInt8) × MfUltralightListener) := do
  let listener ← listener.mirrorReadPrepare rounds startPage
  let (pages, listener) ← readPages startPage doI2cPageCheck pageCnt 0 0 listener
  return (pages, listener.singleCounterTryIncrease)

/-- What a handler says, and the listener afterwards. -/
abbrev Handled := Except MfUltralightStop (MfUltralightCommand × MfUltralightListener)

/-- Whether a page is one to begin with: on a tag with sectors one that the current sector has, on
another tag one that is not behind all pages. -/
def hasStartPage (startPage : ℕ) : Bool :=
  if listener.data.type.isI2cTag then listener.i2cValidatePages startPage startPage
  else startPage ≤ listener.data.pagesTotal

def readPageHandler (rounds : ℕ) (rx : List UInt8) : Handled := do
  let startPage := (rx.getD 1 0).toNat
  if !listener.hasStartPage startPage then return (.notProcessedNAK, listener)
  else if !listener.checkAccess startPage .read then return (.notProcessedNAK, listener)
  else
    let (pages, listener) ←
      listener.performRead rounds startPage 4 listener.data.type.isI2cTag
    return (.processed pages.flatten, listener)

def fastReadHandler (rounds : ℕ) (rx : List UInt8) : Handled := do
  if !listener.data.type.supportFeature .fastRead then return (.notProcessedSilent, listener)
  else
    let startPage := (rx.getD 1 0).toNat
    let endPage := (rx.getD 2 0).toNat
    if !(if listener.data.type.isI2cTag then listener.i2cValidatePages startPage endPage
        else decide ((endPage : ℤ) ≤ (listener.data.pagesTotal : ℤ) - 1)) then
      return (.notProcessedNAK, listener)
    else if endPage < startPage then return (.notProcessedNAK, listener)
    else if !listener.checkAccess startPage .read || !listener.checkAccess endPage .read then
      return (.notProcessedNAK, listener)
    else
      let pageCnt := (endPage - startPage + 1) % 2 ^ 8
      if 64 < pageCnt then return (.notProcessedNAK, listener)
      else
        let (pages, listener) ←
          listener.performRead rounds startPage pageCnt listener.data.type.isI2cTag
        return (.processed pages.flatten, listener)

/-! ## Writing -/

/-- A number of two bytes, the lower one first. -/
def number16 (bytes : List UInt8) : UInt16 :=
  (bytes.getD 0 0).toUInt16 ||| (bytes.getD 1 0).toUInt16 <<< 8

def number32 (bytes : List UInt8) : UInt32 :=
  (bytes.getD 0 0).toUInt32 ||| (bytes.getD 1 0).toUInt32 <<< 8 |||
    (bytes.getD 2 0).toUInt32 <<< 16 ||| (bytes.getD 3 0).toUInt32 <<< 24

def performWrite (rxData : List UInt8) (startPage : ℕ) (doI2cCheck : Bool) :
    MfUltralightCommand × MfUltralightListener :=
  if startPage < 2 ∧ listener.sector = 0 then (.notProcessedNAK, listener)
  else if startPage = 2 ∧ listener.sector = 0 then
    (.processedACK, (listener.access 2).staticLockBytesWrite (number16 (rxData.drop 2)))
  else if startPage = 3 ∧ listener.sector = 0 then
    (.processedACK, (listener.access 3).capabilityContainerWrite rxData)
  else if listener.isPageDynamicLock startPage then
    (.processedACK,
      (listener.access listener.dynamicLockPageNum).dynamicLockBytesWrite (number32 rxData))
  else
    let page := if doI2cCheck then listener.i2cProvidePageByRequested startPage else startPage
    (.processedACK, (listener.access page).setData (listener.data.setPage page (rxData.take 4)))

def writePageHandler (rx : List UInt8) : MfUltralightCommand × MfUltralightListener :=
  let startPage := (rx.getD 1 0).toNat
  if !listener.hasStartPage startPage then (.notProcessedNAK, listener)
  else if !listener.checkAccess startPage .write then (.notProcessedNAK, listener)
  else if listener.staticLockCheckPage startPage then (.notProcessedNAK, listener)
  else if listener.dynamicLockCheckPage startPage then (.notProcessedNAK, listener)
  else listener.performWrite (rx.drop 2) startPage listener.data.type.isI2cTag

/-- There is no memory behind these pages. -/
def fastWriteHandler (rx : List UInt8) : MfUltralightCommand × MfUltralightListener :=
  if !listener.data.type.supportFeature .fastWrite then (.notProcessedSilent, listener)
  else if rx.getD 1 0 ≠ 0xF0 ∨ rx.getD 2 0 ≠ 0xFF then (.notProcessedNAK, listener)
  else (.processedACK, listener)

def setNext (cmd : MfUltralightCompositeCmd) : MfUltralightListener :=
  { listener with compositeCmd := cmd }

def compWriteHandlerP1 (rx : List UInt8) : MfUltralightCommand × MfUltralightListener :=
  if !listener.data.type.supportFeature .compatibleWrite then (.notProcessedSilent, listener)
  else
    let startPage := (rx.getD 1 0).toNat
    let lastPage := (listener.data.pagesTotal + (2 ^ 16 - 1)) % 2 ^ 16
    if startPage < 2 ∨ lastPage < startPage then (.notProcessedNAK, listener)
    else if !listener.checkAccess startPage .write then (.notProcessedNAK, listener)
    else if listener.staticLockCheckPage startPage || listener.dynamicLockCheckPage startPage then
      (.notProcessedNAK, listener)
    else (.processedACK, listener.setNext (.compWrite startPage))

def compWriteHandlerP2 (startPage : ℕ) (rx : List UInt8) :
    MfUltralightCommand × MfUltralightListener :=
  if rx.length ≠ 16 then (.notProcessedNAK, listener)
  else listener.performWrite rx startPage false

/-- A tag without sectors refuses none but the last one. -/
def sectorSelectHandlerP1 (rx : List UInt8) : MfUltralightCommand × MfUltralightListener :=
  if !listener.data.type.supportFeature .sectorSelect && rx.getD 1 0 = 0xFF then
    (.notProcessedNAK, listener)
  else (.processedACK, listener.setNext .sectorSelect)

def sectorSelectHandlerP2 (rx : List UInt8) : MfUltralightCommand × MfUltralightListener :=
  if rx.length ≠ 4 then (.notProcessedNAK, listener)
  else if rx.getD 0 0 = 0xFF then (.notProcessedNAK, listener)
  else (.processedSilent, { listener with sector := rx.getD 0 0 })

/-! ## Frames -/

def MF_ULTRALIGHT_CMD_READ_PAGE : UInt8 := 0x30

def MF_ULTRALIGHT_CMD_FAST_READ : UInt8 := 0x3A

def MF_ULTRALIGHT_CMD_SECTOR_SELECT : UInt8 := 0xC2

def MF_ULTRALIGHT_CMD_COMP_WRITE : UInt8 := 0xA0

def MF_ULTRALIGHT_CMD_WRITE_PAGE : UInt8 := 0xA2

def MF_ULTRALIGHT_CMD_FAST_WRITE : UInt8 := 0xA6

/-- The commands that neither read nor write pages, with the lengths of their frames. -/
def otherCommands : List (UInt8 × ℕ) :=
  [(0x60, 1), (0x3C, 2), (0x39, 2), (0x3E, 2), (0x1B, 5), (0xA5, 6), (0x4B, 21), (0x1A, 2)]

/-- The table of the commands. -/
def handleCommand (rounds : ℕ) (rx : List UInt8) : Handled :=
  let cmd := rx.getD 0 0
  if cmd = MF_ULTRALIGHT_CMD_READ_PAGE ∧ rx.length = 2 then listener.readPageHandler rounds rx
  else if cmd = MF_ULTRALIGHT_CMD_FAST_READ ∧ rx.length = 3 then listener.fastReadHandler rounds rx
  else if cmd = MF_ULTRALIGHT_CMD_WRITE_PAGE ∧ rx.length = 6 then .ok (listener.writePageHandler rx)
  else if cmd = MF_ULTRALIGHT_CMD_FAST_WRITE ∧ rx.length = 67 then
    .ok (listener.fastWriteHandler rx)
  else if cmd = MF_ULTRALIGHT_CMD_SECTOR_SELECT ∧ rx.length = 2 then
    .ok (listener.sectorSelectHandlerP1 rx)
  else if cmd = MF_ULTRALIGHT_CMD_COMP_WRITE ∧ rx.length = 2 then
    .ok (listener.compWriteHandlerP1 rx)
  else if (cmd, rx.length) ∈ otherCommands then .error .otherCommand
  else .ok (.notProcessedSilent, listener)

/-- What the other side gets. -/
inductive Reply
  | frame (bytes : List UInt8)
  | ack
  | nack
  | silent
  deriving DecidableEq

def commandPostprocess (command : MfUltralightCommand) : Reply × MfUltralightListener :=
  match command with
  | .processed frame => (.frame frame, listener)
  | .processedACK => (.ack, listener)
  | .processedSilent => (.silent, listener)
  | .notProcessedNAK => (.nack, { listener with authState := .idle })
  | .notProcessedSilent => (.silent, { listener with authState := .idle })

/-- A frame of the standard is received. -/
def run (rounds : ℕ) (rx : List UInt8) :
    Except MfUltralightStop (Reply × MfUltralightListener) := do
  if rx = [] then .error .check
  else
    let (command, listener) ←
      match listener.compositeCmd with
      | .none => listener.handleCommand rounds rx
      | .compWrite startPage => .ok ((listener.compWriteHandlerP2 startPage rx).map id (setNext · .none))
      | .sectorSelect => .ok ((listener.sectorSelectHandlerP2 rx).map id (setNext · .none))
    return listener.commandPostprocess command

/-- The listener when emulation begins. -/
def alloc (data : MfUltralightData) : MfUltralightListener :=
  mirrorPrepareEmulation
    { data := data
      authState := .idle
      sector := 0
      singleCounterIncreased := false
      mirror := ⟨false, 0, 0, 0, .none, []⟩
      compositeCmd := .none
      accessed := [] }

end MfUltralightListener

end KiisuFirmware
