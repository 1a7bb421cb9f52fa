import KiisuFirmware.Run
import KiisuFirmware.Word

/-!
# FeliCa cards

What a card holds, `felica.h`, and the checksum of its frames, `felica_crc.c`. What the cipher
computes for `felica.c` is whatever it is (`FelicaCrypto`).
-/

namespace KiisuFirmware

/-- A failed `furi_check` or `furi_assert`, a `furi_crash`, bytes that are read where there are none,
and an element of a list that is missing. -/
inductive FelicaFault
  | check
  | assert
  | crash
  | outOfBounds
  | nullPointer
  deriving DecidableEq

/-! ## The data of a card -/

abbrev FelicaBlockData := Fin 16 → UInt8

namespace Felica

/-- There are bytes in a block, and blocks in a dump, so their numbers are literals. -/
scoped instance neZeroBlockSize : NeZero 16 := ⟨by decide⟩

scoped instance neZeroBlocks : NeZero 28 := ⟨by decide⟩

end Felica

open Felica

/-- The number that some bytes of a block are, the lowest one first. -/
def FelicaBlockData.number (block : FelicaBlockData) (start count : ℕ) : ℕ :=
  Nat.ofDigits 256 ((((List.ofFn block).drop start).take count).map UInt8.toNat)

def FELICA_SERVICE_ATTRIBUTE_UNAUTH_READ : UInt8 := 0b000001

def FELICA_SERVICE_ATTRIBUTE_READ_ONLY : UInt8 := 0b000010

structure FelicaService where
  code : UInt16
  attr : UInt8
  keyVersion : UInt16
  deriving DecidableEq

structure FelicaArea where
  code : UInt16
  endCode : UInt16
  firstIdx : UInt16
  lastIdx : UInt16
  keyVersion : UInt16
  deriving DecidableEq

structure FelicaPublicBlock where
  data : FelicaBlockData
  serviceCode : UInt16
  blockIdx : UInt8
  deriving DecidableEq

structure FelicaSystem where
  systemCode : UInt16
  keyVersion : UInt16
  services : List FelicaService
  areas : List FelicaArea
  publicBlocks : List FelicaPublicBlock
  deriving DecidableEq

/-- The first service with this code. -/
def FelicaSystem.findService (system : FelicaSystem) (code : UInt16) : Option FelicaService :=
  system.services.find? fun svc => svc.code == code

inductive FelicaWorkflowType
  | unknown
  | standard
  | lite
  deriving DecidableEq

/-- The blocks of the file system are those of a FeliCa Lite card, in the order of the dump. -/
structure FelicaData where
  idm : Vector UInt8 8
  pmm : Vector UInt8 8
  blocks : Fin 28 → FelicaBlockData
  systems : List FelicaSystem
  workflowType : FelicaWorkflowType
  deriving DecidableEq

namespace FelicaData

variable (data : FelicaData)

def reg : FelicaBlockData := data.blocks 14

def rc : FelicaBlockData := data.blocks 15

def id : FelicaBlockData := data.blocks 17

def ck : FelicaBlockData := data.blocks 22

def mc : FelicaBlockData := data.blocks 23

def wcnt : ℕ := (data.blocks 24).number 0 4

def state : FelicaBlockData := data.blocks 26

/-- A block of the dump. -/
def getBlock (num : UInt8) : Except FelicaFault FelicaBlockData :=
  if h : num.toNat < 28 then .ok (data.blocks ⟨num.toNat, h⟩) else .error .outOfBounds

def setBlock (num : UInt8) (block : FelicaBlockData) : Except FelicaFault FelicaData :=
  if h : num.toNat < 28 then
    .ok { data with blocks := Function.update data.blocks ⟨num.toNat, h⟩ block }
  else .error .outOfBounds

end FelicaData

/-! ## Numbers of blocks -/

def FELICA_BLOCK_INDEX_REG : UInt8 := 0x0E

def FELICA_BLOCK_INDEX_RC : UInt8 := 0x80

def FELICA_BLOCK_INDEX_MAC : UInt8 := 0x81

def FELICA_BLOCK_INDEX_ID : UInt8 := 0x82

def FELICA_BLOCK_INDEX_D_ID : UInt8 := 0x83

def FELICA_BLOCK_INDEX_SER_C : UInt8 := 0x84

def FELICA_BLOCK_INDEX_CKV : UInt8 := 0x86

def FELICA_BLOCK_INDEX_CK : UInt8 := 0x87

def FELICA_BLOCK_INDEX_MC : UInt8 := 0x88

def FELICA_BLOCK_INDEX_WCNT : UInt8 := 0x90

def FELICA_BLOCK_INDEX_MAC_A : UInt8 := 0x91

def FELICA_BLOCK_INDEX_STATE : UInt8 := 0x92

def FELICA_BLOCK_INDEX_CRC_CHECK : UInt8 := 0xA0

/-! ## What the cipher computes -/

/-- The key of a session, and the checksums of blocks that are read and of a block that is written
with the three bytes of a counter. -/
structure FelicaCrypto where
  calculateSessionKey : (ck rc : FelicaBlockData) → FelicaBlockData
  calculateMacRead : (sessionKey rc : FelicaBlockData) → (blocks data : List UInt8) → Vector UInt8 8
  calculateMacWrite : (sessionKey rc : FelicaBlockData) → (wcnt : List UInt8) →
    (data : FelicaBlockData) → Vector UInt8 8

/-! ## Frames -/

def FELICA_CRC_SIZE : ℕ := 2

/-- The inner loop, over the bits of a byte. -/
def felicaCrcByte (crc : UInt16) (byte : UInt8) : UInt16 :=
  (List.range 8).foldl (fun crc _ =>
    if crc &&& 0x8000 ≠ 0 then (crc <<< 1) ^^^ 0x1021 else crc <<< 1) (crc ^^^ (byte.toUInt16 <<< 8))

def felicaCrcCalculate (data : List UInt8) : UInt16 :=
  let crc := data.foldl felicaCrcByte 0x0000
  (crc <<< 8) ||| (crc >>> 8)

/-- The two bytes of a number in memory. -/
def uint16Bytes (value : UInt16) : List UInt8 := [value.toUInt8, (value >>> 8).toUInt8]

def felicaCrc (data : List UInt8) : List UInt8 := uint16Bytes (felicaCrcCalculate data)

def felicaCrcCheck (frame : List UInt8) : Bool :=
  decide (FELICA_CRC_SIZE < frame.length) &&
    frame.drop (frame.length - FELICA_CRC_SIZE) ==
      felicaCrc (frame.take (frame.length - FELICA_CRC_SIZE))

/-- A received frame, and what its buffer holds behind it. -/
structure FelicaRx where
  frame : List UInt8
  behind : ℕ → Option UInt8

namespace FelicaRx

variable (rx : FelicaRx)

def byte (i : ℕ) : Except FelicaFault UInt8 :=
  match rx.frame[i]? <|> rx.behind (i - rx.frame.length) with
  | some byte => .ok byte
  | none => .error .outOfBounds

/-- A number of two bytes, the lower one first. -/
def uint16 (i : ℕ) : Except FelicaFault UInt16 := do
  let low ← rx.byte i
  let high ← rx.byte (i + 1)
  return low.toUInt16 ||| (high.toUInt16 <<< 8)

/-- Bytes from a place on. -/
def bytes (i : ℕ) : ℕ → Except FelicaFault (List UInt8)
  | 0 => .ok []
  | n + 1 => do
    let byte ← rx.byte i
    let rest ← bytes (i + 1) n
    return byte :: rest

def block (i : ℕ) : Except FelicaFault FelicaBlockData := do
  let bytes ← rx.bytes i 16
  return fun j => bytes.getD j 0

end FelicaRx

end KiisuFirmware

/-!
## The directory tree of a FeliCa system

`felica_write_directory_tree` of `felica.c`. What it writes are lines; a push beside the eight entries
of its stack has no result. The area that was pushed last is the first one of the stack.
-/

namespace KiisuFirmware

namespace FelicaSystem

/-- A line of an area or of a service, with the depth at which it is written. -/
inductive DirectoryLine
  | area (depth : ℕ) (code : UInt16)
  | service (depth : ℕ) (isPublic : Bool) (code : UInt16)
  deriving DecidableEq

namespace DirectoryLine

def hex4 (n : ℕ) : List Char :=
  [n / 16 ^ 3, n / 16 ^ 2, n / 16, n].map fun d => (Nat.digitChar (d % 16)).toUpper

def text : DirectoryLine → List Char
  | area depth code =>
    (List.replicate (depth - 1) "| ".toList).flatten ++ (if depth ≠ 0 then "|".toList else []) ++
      "- AREA_".toList ++ hex4 (code >>> 6).toNat ++ "/\n".toList
  | service depth isPublic code =>
    (List.replicate (depth - 1) (if isPublic then ": ".toList else "| ".toList)).flatten ++
      (if isPublic then ":".toList else "|".toList) ++ "- serv_".toList ++ hex4 code.toNat ++
      "\n".toList

end DirectoryLine

/-- The areas that begin with a service, those behind them and the stack. -/
def pushAreas (svcIdx : ℕ) : List FelicaArea → List UInt16 →
    Option (List DirectoryLine × List FelicaArea × List UInt16)
  | [], stack => some ([], [], stack)
  | area :: areas, stack =>
    if area.firstIdx.toNat ≠ svcIdx then some ([], area :: areas, stack)
    else if stack.length < 8 then
      (pushAreas svcIdx areas (area.lastIdx :: stack)).map fun r =>
        (.area stack.length area.code :: r.1, r.2)
    else none

def popArea (svcIdx : ℕ) : List UInt16 → List UInt16
  | [] => []
  | last :: stack => if last.toNat ≤ svcIdx then stack else last :: stack

def isPublic (service : FelicaService) : Bool :=
  service.attr &&& FELICA_SERVICE_ATTRIBUTE_UNAUTH_READ ≠ 0

def writeServices : ℕ → List FelicaService → List FelicaArea → List UInt16 →
    Option (List DirectoryLine)
  | _, [], _, _ => some []
  | svcIdx, service :: services, areas, stack =>
    match pushAreas svcIdx areas stack with
    | none => none
    | some (lines, areas, stack) =>
      (writeServices (svcIdx + 1) services areas (popArea svcIdx stack)).map fun rest =>
        lines ++ .service stack.length (isPublic service) service.code :: rest

def directoryLines (system : FelicaSystem) : Option (List DirectoryLine) :=
  writeServices 0 system.services system.areas []

def writeDirectoryTree (system : FelicaSystem) (str : List Char) : Option (List Char) :=
  system.directoryLines.map fun lines => str ++ '\n' :: lines.flatMap DirectoryLine.text

end FelicaSystem

end KiisuFirmware
