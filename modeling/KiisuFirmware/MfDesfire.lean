import KiisuFirmware.BitBuffer
import KiisuFirmware.BitLib
import KiisuFirmware.MfClassic

/-!
# File settings of DESFire cards

The parser of file settings of `mf_desfire_i.c`. A byte of a response is one of its buffer, or what
is in memory behind that; which bytes the parser reads is told with its result. The access rights
are those that are in use. A failed `furi_check` is `none`.
-/

namespace KiisuFirmware

def MF_DESFIRE_MAX_KEYS : ℕ := 14

inductive MfDesfireFileType
  | standard
  | backup
  | value
  | linearRecord
  | cyclicRecord
  | transactionMac
  deriving DecidableEq

def MfDesfireFileType.ofByte (type : UInt8) : Option MfDesfireFileType :=
  if type = 0 then some .standard
  else if type = 1 then some .backup
  else if type = 2 then some .value
  else if type = 3 then some .linearRecord
  else if type = 4 then some .cyclicRecord
  else if type = 5 then some .transactionMac
  else none

inductive MfDesfireFileFields
  | data (size : UInt32)
  | value (loLimit hiLimit limitedCreditValue : UInt32) (limitedCreditEnabled : Bool)
  | record (size max cur : UInt32)
  | transactionMac (keyOption keyVersion : UInt8) (counterLimit : UInt32)
  deriving DecidableEq

structure MfDesfireFileSettings where
  type : MfDesfireFileType
  comm : UInt8
  accessRights : List UInt16
  fields : MfDesfireFileFields
  deriving DecidableEq

/-- What the parser returns, what it leaves at its destination and the bytes that it reads. -/
structure MfDesfireParsed where
  parsed : Bool
  data : MfDesfireFileSettings
  reads : List ℕ

namespace MfDesfireFileSettings

/-- Bytes that are copied from the response. -/
def copied (raw : ℕ → UInt8) (offset size : ℕ) : List UInt8 := (List.range' offset size).map raw

/-- A number of a packed structure. -/
def number (raw : ℕ → UInt8) (offset size : ℕ) : UInt32 :=
  UInt32.ofNat (bitLibBytesToNumLe (copied raw offset size))

def accessRight (raw : ℕ → UInt8) (offset : ℕ) : UInt16 :=
  UInt16.ofNat (bitLibBytesToNumLe (copied raw offset 2))

/-- AES (4b) or LRP (2b). -/
def counterLimitSize (keyOption : UInt8) : ℕ := if keyOption &&& 0x02 ≠ 0 then 4 else 2

/-- The fields of a type, and how many bytes they take. -/
def parseFields (raw : ℕ → UInt8) (comm : UInt8) (offset : ℕ) :
    MfDesfireFileType → MfDesfireFileFields × ℕ
  | .standard | .backup => (.data (number raw offset 3), 3)
  | .value =>
    (.value (number raw offset 4) (number raw (offset + 4) 4) (number raw (offset + 8) 4)
      (raw (offset + 12) ≠ 0), 13)
  | .linearRecord | .cyclicRecord =>
    (.record (number raw offset 3) (number raw (offset + 3) 3) (number raw (offset + 6) 3), 9)
  | .transactionMac =>
    let keyOption := raw offset
    let hasCounterLimit := comm &&& 0x20 ≠ 0
    if ¬hasCounterLimit then (.transactionMac keyOption (raw (offset + 1)) 0, 2)
    else
      let size := counterLimitSize keyOption
      (.transactionMac keyOption (raw (offset + 1))
        (bitLibBytesToNumBe (copied raw (offset + 2) size)).toUInt32, size + 2)

/-- A byte that the pointer to the data reads. -/
def readByte (buf : BitBuffer) (behind : ℕ → UInt8) (i : ℕ) : UInt8 :=
  (buf.getByte i).getD (behind i)

/-- The access rights behind the first one. Their copy begins at the byte with their number. -/
def parseAccessRights (raw : ℕ → UInt8) (bytesProcessed len : ℕ) : List UInt16 :=
  (List.range len).map fun i => accessRight raw (bytesProcessed + 2 * i)

/-- What is parsed with an access right for each additional one. -/
def parseAdditional (data temp : MfDesfireFileSettings) (buf : BitBuffer) (raw : ℕ → UInt8)
    (bytesProcessed : ℕ) : Option MfDesfireParsed := do
  let byte ← buf.getByte bytesProcessed
  let len := byte.toNat
  if buf.sizeBytes ≠ bytesProcessed + len * 2 + 1 then
    return ⟨false, data, List.range (bytesProcessed + 1) ++ List.range buf.sizeBytes⟩
  else if len > MF_DESFIRE_MAX_KEYS - 1 then return ⟨false, data, List.range (bytesProcessed + 1)⟩
  else
    return ⟨true,
      { temp with accessRights := temp.accessRights ++ parseAccessRights raw bytesProcessed len },
      List.range (bytesProcessed + 1) ++ List.range' bytesProcessed (len * 2)⟩

/-- `mf_desfire_file_settings_parse`. -/
def parse (data : MfDesfireFileSettings) (buf : BitBuffer) (behind : ℕ → UInt8) :
    Option MfDesfireParsed :=
  if buf.sizeBytes < 4 + 2 then some ⟨false, data, []⟩
  else
    let raw := readByte buf behind
    let comm := raw 1
    match MfDesfireFileType.ofByte (raw 0) with
    | none => some ⟨false, data, List.range 4⟩
    | some type =>
      let fields := parseFields raw comm 4 type
      let temp : MfDesfireFileSettings := ⟨type, comm &&& 0x03, [accessRight raw 2], fields.1⟩
      let bytesProcessed := 4 + fields.2
      if comm &&& 0x80 ≠ 0 then parseAdditional data temp buf raw bytesProcessed
      else some ⟨true, temp, List.range bytesProcessed⟩

end MfDesfireFileSettings

end KiisuFirmware
