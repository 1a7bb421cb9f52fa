import Mathlib.Tactic

/-!
# MIFARE Ultralight tags

The types of tags and the pages of a tag, `mf_ultralight.c`, with what of them an emulated tag looks
at when its pages are read and written.
-/

namespace KiisuFirmware

def MF_ULTRALIGHT_MAX_PAGE_NUM : ℕ := 510

def MF_ULTRALIGHT_PAGE_SIZE : ℕ := 4

def MF_ULTRALIGHT_MAX_CNTR_VAL : UInt32 := 0x00FFFFFF

inductive MfUltralightType
  | origin
  | ntag203
  | mfulC
  | ul11
  | ul21
  | ntag213
  | ntag215
  | ntag216
  | ntagI2C1K
  | ntagI2C2K
  | ntagI2CPlus1K
  | ntagI2CPlus2K
  deriving DecidableEq

inductive MfUltralightFeature
  | readVersion
  | readSignature
  | readCounter
  | checkTearingFlag
  | fastRead
  | incCounter
  | fastWrite
  | compatibleWrite
  | passwordAuth
  | vcsl
  | sectorSelect
  | singleCounter
  | asciiMirror
  | counterInMemory
  | dynamicLock
  | authenticate
  deriving DecidableEq

structure MfUltralightFeatures where
  totalPages : ℕ
  configPage : ℕ
  featureSet : List MfUltralightFeature

namespace MfUltralightType

open MfUltralightFeature

def features : MfUltralightType → MfUltralightFeatures
  | origin => ⟨16, 0, [compatibleWrite]⟩
  | mfulC => ⟨48, 0, [compatibleWrite, authenticate]⟩
  | ntag203 => ⟨42, 0, [compatibleWrite, counterInMemory]⟩
  | ul11 => ⟨20, 16, [readVersion, readSignature, readCounter, checkTearingFlag, fastRead,
      incCounter, compatibleWrite, passwordAuth, vcsl]⟩
  | ul21 => ⟨41, 37, [readVersion, readSignature, readCounter, checkTearingFlag, fastRead,
      incCounter, compatibleWrite, passwordAuth, vcsl, dynamicLock]⟩
  | ntag213 => ⟨45, 41, [readVersion, readSignature, readCounter, fastRead, compatibleWrite,
      passwordAuth, singleCounter, asciiMirror, dynamicLock]⟩
  | ntag215 => ⟨135, 131, [readVersion, readSignature, readCounter, fastRead, compatibleWrite,
      passwordAuth, singleCounter, asciiMirror, dynamicLock]⟩
  | ntag216 => ⟨231, 227, [readVersion, readSignature, readCounter, fastRead, compatibleWrite,
      passwordAuth, singleCounter, asciiMirror, dynamicLock]⟩
  | ntagI2C1K => ⟨231, 0, [readVersion, fastRead, sectorSelect, dynamicLock]⟩
  | ntagI2C2K => ⟨485, 0, [readVersion, fastRead, sectorSelect, dynamicLock]⟩
  | ntagI2CPlus1K => ⟨236, 227, [readVersion, readSignature, fastRead, passwordAuth, sectorSelect,
      fastWrite, dynamicLock]⟩
  | ntagI2CPlus2K => ⟨492, 227, [readVersion, readSignature, fastRead, passwordAuth, sectorSelect,
      fastWrite, dynamicLock]⟩

variable (type : MfUltralightType)

def getPagesTotal : ℕ := type.features.totalPages

def getConfigPageNum : ℕ := type.features.configPage

def supportFeature (feature : MfUltralightFeature) : Bool :=
  feature ∈ type.features.featureSet

def getPwdPageNum : ℕ :=
  if type.features.configPage ≠ 0 then (type.features.configPage + 2) % 2 ^ 8 else 0

def isPagePwdOrPack (page : ℕ) : Bool :=
  type.getPwdPageNum ≠ 0 && (page = type.getPwdPageNum || page = (type.getPwdPageNum + 1) % 2 ^ 8)

def isI2cTag : Bool := type ∈ [ntagI2C1K, ntagI2C2K, ntagI2CPlus1K, ntagI2CPlus2K]

end MfUltralightType

inductive MfUltralightMirrorConf
  | none
  | uid
  | counter
  | uidCounter
  deriving DecidableEq

def MfUltralightMirrorConf.ofBits : ℕ → MfUltralightMirrorConf
  | 0 => none
  | 1 => uid
  | 2 => counter
  | _ => uidCounter

/-- The fields of the pages with the configuration that reads and writes of pages look at. -/
structure MfUltralightConfigPages where
  mirrorConf : MfUltralightMirrorConf
  mirrorByte : ℕ
  mirrorPage : ℕ
  auth0 : ℕ
  nfcCntPwdProt : Bool
  nfcCntEn : Bool
  cfglck : Bool
  prot : Bool
  deriving DecidableEq

/-- What is loaded of a tag. Only the third of its counters is mirrored. -/
structure MfUltralightData where
  type : MfUltralightType
  uid : Vector UInt8 7
  counter : UInt32
  page : List (List UInt8)
  pagesTotal : ℕ
  length_page : page.length = MF_ULTRALIGHT_MAX_PAGE_NUM
  length_of_mem : ∀ bytes ∈ page, bytes.length = MF_ULTRALIGHT_PAGE_SIZE
  pagesTotal_le : pagesTotal ≤ MF_ULTRALIGHT_MAX_PAGE_NUM

namespace MfUltralightData

variable (data : MfUltralightData)

def getPage (i : ℕ) : List UInt8 := data.page.getD i []

/-- A page written with as many bytes as it has. -/
def setPage (i : ℕ) (bytes : List UInt8) : MfUltralightData :=
  if h : bytes.length = MF_ULTRALIGHT_PAGE_SIZE then
    { data with
      page := data.page.set i bytes
      length_page := by rw [List.length_set, data.length_page]
      length_of_mem := fun b hb => (List.mem_or_eq_of_mem_set hb).elim (data.length_of_mem b)
        fun heq => heq ▸ h }
  else data

/-- The configuration, where the type of the tag has pages for it. -/
def config : MfUltralightConfigPages :=
  let mirror := ((data.getPage data.type.getConfigPageNum).getD 0 0).toNat
  let access := ((data.getPage (data.type.getConfigPageNum + 1)).getD 0 0).toNat
  { mirrorConf := .ofBits (mirror / 64)
    mirrorByte := mirror / 16 % 4
    mirrorPage := ((data.getPage data.type.getConfigPageNum).getD 2 0).toNat
    auth0 := ((data.getPage data.type.getConfigPageNum).getD 3 0).toNat
    nfcCntPwdProt := access.testBit 3
    nfcCntEn := access.testBit 4
    cfglck := access.testBit 6
    prot := access.testBit 7 }

end MfUltralightData

end KiisuFirmware
