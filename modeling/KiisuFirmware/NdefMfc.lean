import KiisuFirmware.MfClassic

/-!
# NDEF on MIFARE Classic cards

Of `ndef.c` with the protocol of MIFARE Classic: how bytes of the data space are read (`ndef_get`),
and the sectors at which `ndef_mfc_parse` starts to parse. A read outside the blocks of a card has no
result. A `size_t` has 32 bits.
-/

namespace KiisuFirmware

namespace NdefMfc

def AID_SIZE : ℕ := 2

def madKey : UInt64 := 0xA0A1A2A3A4A5

def ndefAid : List UInt8 := [0x03, 0xE1]

/-! ## Reading -/

/-- The bytes of the blocks, one behind the other. -/
def memory (data : MfClassicData) : List UInt8 :=
  (List.range 256).flatMap fun block => (data.block (UInt8.ofNat block)).toList

def memcpy (data : MfClassicData) (cur len : ℕ) : Option (List UInt8) :=
  if cur + len ≤ 256 * MF_CLASSIC_BLOCK_SIZE then some (((memory data).drop cur).take len) else none

/-- The block behind a sector; MAD2 is skipped. -/
def nextBlock (sectorTrailer : ℕ) : ℕ := if sectorTrailer + 1 = 64 then 68 else sectorTrailer + 1

/-- A difference of pointers as a `size_t`. -/
def pointerDiff (stop cur : ℕ) : ℕ := if cur ≤ stop then stop - cur else 2 ^ 32 + stop - cur

theorem lt_nextBlock {block : ℕ} (h : block < 256) :
    block < nextBlock (mfClassicGetSectorTrailerNumByBlock (UInt8.ofNat block)).toNat := by
  have hall : ∀ b < 256,
      b < nextBlock (mfClassicGetSectorTrailerNumByBlock (UInt8.ofNat b)).toNat := by
    decide +kernel
  exact hall block h

/-- The loop over the sectors. Where there is no block of this number the trailer is one in front of
it, so that all bytes are copied from where no block is. -/
def getLoop (data : MfClassicData) (realBlock cur len : ℕ) : Option (List UInt8) :=
  if len = 0 then some []
  else if _h : realBlock < 256 then
    let sectorTrailer := (mfClassicGetSectorTrailerNumByBlock (UInt8.ofNat realBlock)).toNat
    let chunkLen := min (pointerDiff (sectorTrailer * MF_CLASSIC_BLOCK_SIZE) cur) len
    match memcpy data cur chunkLen with
    | none => none
    | some chunk =>
      (getLoop data (nextBlock sectorTrailer) (nextBlock sectorTrailer * MF_CLASSIC_BLOCK_SIZE)
        (len - chunkLen)).map (chunk ++ ·)
  else none
termination_by 256 - realBlock
decreasing_by
  have hlt := lt_nextBlock _h
  omega

/-- The block with a position of the data space. -/
def realBlockOf (pos : ℕ) : ℕ :=
  let dataBlocks := pos / MF_CLASSIC_BLOCK_SIZE
  let largeSectorDataBlocks := dataBlocks - 93
  let smallSectorDataBlocks := min dataBlocks 93
  let smallSectors := smallSectorDataBlocks / 3
  smallSectors * 4 + smallSectorDataBlocks % 3 + (if 16 ≤ smallSectors then 4 else 0) +
    (if largeSectorDataBlocks ≠ 0 then
      largeSectorDataBlocks / 15 * 16 + largeSectorDataBlocks % 15
    else 0)

/-- `ndef_get`: nothing if the data space does not have the bytes. -/
def get (data : MfClassicData) (size : ℕ) (pos len : UInt32) : Option (Option (List UInt8)) :=
  if size < (pos + len).toNat then some none
  else
    (getLoop data (realBlockOf pos.toNat)
      (realBlockOf pos.toNat * MF_CLASSIC_BLOCK_SIZE + pos.toNat % MF_CLASSIC_BLOCK_SIZE)
      len.toNat).map some

/-! ## Where parsing starts -/

/-- The block and the number of entries of each application directory. -/
def mads : List (UInt8 × ℕ) := [(1, 15), (64, 23)]

def entryIsNdef (data : MfClassicData) (block : UInt8) (aidIndex : ℕ) : Bool :=
  ((memory data).drop (block.toNat * MF_CLASSIC_BLOCK_SIZE + (2 + aidIndex * AID_SIZE))).take
    AID_SIZE == ndefAid

def isMadKey (data : MfClassicData) (sector : UInt8) : Bool :=
  match data.getSectorTrailerBySector sector with
  | some trailer => bitLibBytesToNumBe trailer.keyA == madKey
  | none => false

/-- The marks of the sectors with NDEF after the entries of a directory. -/
def markSectors (data : MfClassicData) (marks : ℕ → Bool) (mad : UInt8 × ℕ) : ℕ → Bool :=
  let sector := mfClassicGetSectorByBlock mad.1
  if mfClassicGetTotalSectorsNum data.type ≤ sector.toNat then marks
  else if ¬isMadKey data sector then marks
  else (List.range mad.2).foldl
    (fun marks aidIndex =>
      if entryIsNdef data mad.1 aidIndex then Function.update marks (aidIndex + 1) true else marks)
    marks

def sectorsWithNdef (data : MfClassicData) : ℕ → Bool :=
  mads.foldl (markSectors data) fun _ => false

/-- The size of the data space. -/
def dataSize (type : MfClassicType) : ℕ :=
  let sectorCount := mfClassicGetTotalSectorsNum type
  (if 32 < sectorCount then 93 + (sectorCount - 32) * 15
    else if 16 < sectorCount then sectorCount * 3 - 3 else sectorCount * 3) * MF_CLASSIC_BLOCK_SIZE

def dataBlock (sector : ℕ) : ℕ :=
  if sector < 32 then if 16 ≤ sector then sector * 3 - 3 else sector * 3
  else 93 + (sector - 32) * 15

/-- The sectors of which TLVs are parsed, with where these begin and how many bytes there are. -/
def starts (data : MfClassicData) : List (ℕ × ℕ × ℕ) :=
  ((List.range (mfClassicGetTotalSectorsNum data.type)).filter
    (sectorsWithNdef data)).map fun sector =>
    (sector, dataBlock sector * MF_CLASSIC_BLOCK_SIZE,
      dataSize data.type - dataBlock sector * MF_CLASSIC_BLOCK_SIZE)

end NdefMfc

end KiisuFirmware
