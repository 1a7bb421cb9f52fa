import KiisuFirmware.Word
import Mathlib.Logic.Function.Basic

/-!
# MIFARE Classic cards

The data of a card (`mf_classic.c`): its blocks, what is known of them, and what the access bits
of a sector allow.
-/

namespace KiisuFirmware

def MF_CLASSIC_BLOCK_SIZE : ℕ := 16

def MF_CLASSIC_KEY_SIZE : ℕ := 6

def MF_CLASSIC_ACCESS_BYTES_SIZE : ℕ := 4

inductive MfClassicType
  | mini
  | type1k
  | type4k
  deriving DecidableEq, Repr

inductive MfClassicAction
  | dataRead
  | dataWrite
  | dataInc
  | dataDec
  | keyARead
  | keyAWrite
  | keyBRead
  | keyBWrite
  | acRead
  | acWrite
  deriving DecidableEq, Repr

inductive MfClassicKeyType
  | a
  | b
  deriving DecidableEq, Repr

/-! ## Numbers as bytes: `bit_lib.c` -/

def bitLibBytesToNumBe (src : List UInt8) : UInt64 :=
  src.foldl (fun res byte => res <<< 8 ||| byte.toUInt64) 0

def bitLibNumToBytesBe (src : UInt64) : ℕ → List UInt8
  | 0 => []
  | len + 1 => bitLibNumToBytesBe (src >>> 8) len ++ [src.toUInt8]

/-! ## Blocks -/

abbrev MfClassicBlock := Vector UInt8 16

namespace MfClassicBlock

variable (block : MfClassicBlock)

/-- Bytes copied over those of a block from this index on. -/
def copy (start : ℕ) (data : List UInt8) : MfClassicBlock :=
  Vector.ofFn fun i => if start ≤ i then data.getD (i - start) block[i] else block[i]

/-! A sector trailer is a block with a key A, access bits and a key B. -/

def keyA : List UInt8 := block.toList.take 6

def accessBits : List UInt8 := (block.toList.drop 6).take 4

def keyB : List UInt8 := block.toList.drop 10

end MfClassicBlock

/-! ## Numbers of blocks and sectors -/

def mfClassicGetTotalSectorsNum : MfClassicType → ℕ
  | .mini => 5
  | .type1k => 16
  | .type4k => 40

def mfClassicGetTotalBlockNum : MfClassicType → ℕ
  | .mini => 20
  | .type1k => 64
  | .type4k => 256

/-- The block of a sector's trailer; there is a crash for a sector that no card has. -/
def mfClassicGetSectorTrailerNumBySector (sector : UInt8) : Option UInt8 :=
  if sector < 32 then some (sector * 4 + 3)
  else if sector < 40 then some (32 * 4 + (sector - 32) * 16 + 15)
  else none

def mfClassicGetSectorTrailerNumByBlock (block : UInt8) : UInt8 :=
  if block < 128 then block ||| 0x03 else block ||| 0x0f

def mfClassicIsSectorTrailer (block : UInt8) : Bool :=
  block == mfClassicGetSectorTrailerNumByBlock block

def mfClassicGetSectorByBlock (block : UInt8) : UInt8 :=
  if block < 128 then (block ||| 0x03) / 4 else 32 + ((block ||| 0x0f) - 32 * 4) / 16

/-! ## Values -/

/-- Whether the block has a value, and what is in its place; the lowest byte comes first. -/
def mfClassicBlockToValue (block : MfClassicBlock) : Bool × UInt32 :=
  let word (i : ℕ) : UInt32 := (block.toList.drop i).take 4 |>.foldr
    (fun byte res => res <<< 8 ||| byte.toUInt32) 0
  let v := word 0
  (v == word 8 && v == ~~~word 4 && block[12] == ~~~block[13] && block[14] == ~~~block[15] &&
    block[12] == block[14], v)

def mfClassicValueToBlock (value : UInt32) (addr : UInt8) : MfClassicBlock :=
  let bytes (v : UInt32) : List UInt8 :=
    [v.toUInt8, (v >>> 8).toUInt8, (v >>> 16).toUInt8, (v >>> 24).toUInt8]
  Vector.ofFn fun i => (bytes value ++ bytes (~~~value) ++ bytes value ++
    [addr, ~~~addr, addr, ~~~addr]).getD i 0

/-! ## The data of a card -/

/-- The three bits of an access condition, each where it is to be in its byte. -/
def accessCondition (c₁ c₂ c₃ : UInt8) : UInt8 := (c₁ &&& 0x04) ||| (c₂ &&& 0x02) ||| (c₃ &&& 0x01)

structure MfClassicData where
  cuid : UInt32
  type : MfClassicType
  block : UInt8 → MfClassicBlock

namespace MfClassicData

variable (data : MfClassicData)

def setBlock (blockNum : UInt8) (block : MfClassicBlock) : MfClassicData :=
  { data with block := Function.update data.block blockNum block }

def getSectorTrailerBySector (sectorNum : UInt8) : Option MfClassicBlock :=
  (mfClassicGetSectorTrailerNumBySector sectorNum).map data.block

/-! ## Access bits -/

def isAllowedAccessSectorTrailer (blockNum : UInt8) (keyType : MfClassicKeyType)
    (action : MfClassicAction) : Option Bool :=
  (data.getSectorTrailerBySector (mfClassicGetSectorByBlock blockNum)).map fun secTr =>
    let bits₁ : UInt8 := secTr.get 7
    let bits₂ : UInt8 := secTr.get 8
    let ac := accessCondition (bits₁ >>> 5) (bits₂ >>> 2) (bits₂ >>> 7)
    match action, keyType with
    | .keyAWrite, .a | .keyBWrite, .a => ac == 0x00 || ac == 0x01
    | .keyAWrite, .b | .keyBWrite, .b => ac == 0x00 || ac == 0x04 || ac == 0x03 || ac == 0x01
    | .keyBRead, _ => ac == 0x00 || ac == 0x02 || ac == 0x01
    | .acRead, _ => true
    | .acWrite, .a => ac == 0x01
    | .acWrite, .b => ac == 0x01 || ac == 0x03 || ac == 0x05
    | _, _ => false

end MfClassicData

def mfClassicIsAllowedAccessDataBlock (secTr : MfClassicBlock) (blockNum : UInt8)
    (keyType : MfClassicKeyType) (action : MfClassicAction) : Bool :=
  let sectorBlock := if blockNum ≤ 128 then blockNum &&& 0x03 else (blockNum &&& 0x0f) / 5
  let bits₁ : UInt8 := secTr.get 7
  let bits₂ : UInt8 := secTr.get 8
  let ac :=
    if sectorBlock = 0 then
      some (accessCondition (bits₁ >>> 2) (bits₂ <<< 1) (bits₂ >>> 4))
    else if sectorBlock = 1 then
      some (accessCondition (bits₁ >>> 3) (bits₂ >>> 0) (bits₂ >>> 5))
    else if sectorBlock = 2 then
      some (accessCondition (bits₁ >>> 4) (bits₂ >>> 1) (bits₂ >>> 6))
    else none
  if blockNum = 0 ∧ action = .dataWrite then false
  else ac.any fun (ac : UInt8) =>
    match action, keyType with
    | .dataRead, .a => !(ac == 0x03 || ac == 0x05 || ac == 0x07)
    | .dataRead, .b => !ac == 0x07
    | .dataWrite, .a => ac == 0x00
    | .dataWrite, .b => ac == 0x00 || ac == 0x04 || ac == 0x06 || ac == 0x03
    | .dataInc, .a => ac == 0x00
    | .dataInc, .b => ac == 0x00 || ac == 0x06
    | .dataDec, _ => ac == 0x00 || ac == 0x06 || ac == 0x01
    | _, _ => false

/-- Whether the access bits of a block's sector allow an action to who has this key. -/
def MfClassicData.isAllowedAccess (data : MfClassicData) (blockNum : UInt8)
    (keyType : MfClassicKeyType) (action : MfClassicAction) : Option Bool :=
  if mfClassicIsSectorTrailer blockNum then
    data.isAllowedAccessSectorTrailer blockNum keyType action
  else (data.getSectorTrailerBySector (mfClassicGetSectorByBlock blockNum)).map fun secTr =>
    mfClassicIsAllowedAccessDataBlock secTr blockNum keyType action

end KiisuFirmware
