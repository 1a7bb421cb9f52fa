import KiisuFirmware.MfClassic

/-!
# NDEF messages

The parser of messages of `ndef.c`, without the text that it writes. What it gives is whether it
parsed the message and the records that it has reached. A `size_t` has 32 bits. There is no result
when the fuel is used up, as a loop may not end.
-/

namespace KiisuFirmware

/-- A data area with the bytes that are in it, as `ndef_get` finds them. What is found where a
position and a length wrap is left open. -/
structure NdefArea where
  content : List UInt8
  get : UInt32 → UInt32 → Option (List UInt8)
  length_le : content.length ≤ 2 ^ 31
  get_eq : ∀ pos len, pos.toNat + len.toNat < 2 ^ 32 → get pos len =
    if pos.toNat + len.toNat ≤ content.length then
      some ((content.drop pos.toNat).take len.toNat)
    else none

/-- Memory that is contiguous, as that of most cards is. -/
def NdefArea.contiguous (content : List UInt8) (length_le : content.length ≤ 2 ^ 31) :
    NdefArea where
  content := content
  get pos len :=
    if pos.toNat + len.toNat ≤ content.length then
      some ((content.drop pos.toNat).take len.toNat)
    else none
  length_le := length_le
  get_eq _ _ _ := rfl

inductive NdefKind
  | smartPoster
  | uri
  | text
  | bt
  | vcard
  | wifi
  deriving DecidableEq

/-- What is read of a record in front of its payload, and where this is. -/
structure NdefHeader where
  flags : UInt8
  type : List UInt8
  payloadPos : UInt32
  payloadLen : UInt32
  deriving DecidableEq

namespace Ndef

def NDEF_SMART_POSTER_MAX_DEPTH : ℕ := 8

/-! ## Flags -/

def messageBegin (flags : UInt8) : Bool := flags &&& 0x80 ≠ 0

def messageEnd (flags : UInt8) : Bool := flags &&& 0x40 ≠ 0

def chunkFlag (flags : UInt8) : Bool := flags &&& 0x20 ≠ 0

def shortRecord (flags : UInt8) : Bool := flags &&& 0x10 ≠ 0

def idLengthPresent (flags : UInt8) : Bool := flags &&& 0x08 ≠ 0

def typeNameFormat (flags : UInt8) : UInt8 := flags &&& 0x07

/-! ## Types -/

/-- Whether `strncmp` of a literal and the bytes of a type finds no difference. -/
def strncmpEq : List UInt8 → List UInt8 → Bool
  | _, [] => true
  | [], byte :: _ => byte == 0
  | char :: literal, byte :: type => char == byte && strncmpEq literal type

def ascii (literal : String) : List UInt8 := literal.toList.map fun char => UInt8.ofNat char.toNat

/-- The literals in the order in which they are compared. -/
def literals (tnf : UInt8) : List (List UInt8 × NdefKind) :=
  if tnf = 1 then [(ascii "Sp", .smartPoster), (ascii "U", .uri), (ascii "T", .text)]
  else if tnf = 2 then
    [(ascii "application/vnd.bluetooth.ep.oob", .bt), (ascii "text/vcard", .vcard),
      (ascii "application/vnd.wfa.wsc", .wifi)]
  else []

def kindOf (tnf : UInt8) (type : List UInt8) : Option NdefKind :=
  ((literals tnf).find? fun literal => strncmpEq literal.1 type).map Prod.snd

section Payload

variable (area : NdefArea)

def getByte (pos : UInt32) : Option UInt8 := (area.get pos 1).bind List.head?

def getNum (pos len : UInt32) : Option UInt32 :=
  (area.get pos len).map fun bytes => (bitLibBytesToNumBe bytes).toUInt32

/-! ## Payloads that are dumped -/

def isPrintable (c : UInt8) : Bool := (0x20 ≤ c && c ≤ 0x7E) || c == 0x0D || c == 0x0A

inductive DumpText
  | failed
  | hex
  | done

def dumpText (pos : UInt32) : ℕ → DumpText
  | 0 => .done
  | len + 1 =>
    match getByte area pos with
    | none => .failed
    | some c =>
      if isPrintable c || (c == 0 && len == 0) then dumpText (pos + 1) len else .hex

def dumpHex (pos : UInt32) (len : ℕ) : Bool :=
  if len = 0 then true
  else if (area.get pos (UInt32.ofNat (min 4 len))).isSome then dumpHex (pos + 4) (len - 4)
  else false
termination_by len

def dump (pos len : UInt32) (forceHex : Bool) : Bool :=
  if forceHex then dumpHex area pos len.toNat
  else
    match dumpText area pos len.toNat with
    | .failed => false
    | .hex => dumpHex area pos len.toNat
    | .done => true

/-! ## Payloads of a kind -/

def isHexDigit (c : UInt8) : Bool :=
  (0x30 ≤ c && c ≤ 0x39) || (0x41 ≤ c && c ≤ 0x46) || (0x61 ≤ c && c ≤ 0x66)

/-- One character at a time, or an encoded one. -/
def uriLoop (pos : UInt32) (len : ℕ) : Bool :=
  match len with
  | 0 => true
  | len + 1 =>
    match getByte area pos with
    | none => false
    | some c =>
      if c ≠ 0x25 ∨ len < 2 then uriLoop (pos + 1) len
      else
        match area.get (pos + 1) 2 with
        | none => false
        | some enc =>
          if enc.all isHexDigit then uriLoop (pos + 3) (len - 2) else uriLoop (pos + 1) len
termination_by len

def parseUri (pos len : UInt32) : Bool :=
  match getByte area pos with
  | none => false
  | some prependType =>
    let pos := pos + 1
    let len := len - 1
    if prependType ≠ 0 ∧ prependType < 0x24 then uriLoop area pos len.toNat
    else
      match area.get pos (min 7 len) with
      | none => false
      | some schema =>
        if (ascii "tel:").isPrefixOf schema then uriLoop area (pos + 4) (len - 4).toNat
        else if (ascii "mailto:").isPrefixOf schema then uriLoop area (pos + 7) (len - 7).toNat
        else uriLoop area pos len.toNat

def parseText (pos len : UInt32) : Bool := dump area (pos + 3) (len - 3) false

def parseBt (pos len : UInt32) : Bool := len = 8 && dump area (pos + 2) (len - 2) true

/-- What is skipped of the line of the version. The number of bytes is one of 8 bits, so that the
loop may not end. -/
def skipVersion (pos len : UInt32) : ℕ → UInt8 → Option (Option UInt8)
  | 0, _ => none
  | fuel + 1, skip =>
    if skip.toUInt32 < len then
      match getByte area (pos + skip.toUInt32) with
      | none => some none
      | some c => if c = 0x0A then some (some (skip + 1)) else skipVersion pos len fuel (skip + 1)
    else some (some skip)

def skipBegin (tmp : List UInt8) : UInt32 :=
  if (ascii "BEGIN:VCARD").isPrefixOf tmp then
    let skip := if tmp.getD 11 0 = 0x0D then 12 else 11
    if tmp.getD skip 0 = 0x0A then UInt32.ofNat (skip + 1) else UInt32.ofNat skip
  else 0

/-- The end of a contact, that only has to be there; what is dumped does not matter. -/
def parseVcardEnd (pos len : UInt32) : Bool :=
  if 13 ≤ len then (area.get (pos + len - 13) 13).isSome else true

def parseVcardVersion (fuel : ℕ) (pos len : UInt32) : Option Bool :=
  if 13 ≤ len then
    match area.get pos 13 with
    | none => some false
    | some tmp =>
      if (ascii "VERSION:").isPrefixOf tmp then
        (skipVersion area pos len fuel 8).map fun skip =>
          match skip with
          | none => false
          | some skip => parseVcardEnd area (pos + skip.toUInt32) (len - skip.toUInt32)
      else some (parseVcardEnd area pos len)
  else some true

def parseVcard (fuel : ℕ) (pos len : UInt32) : Option Bool :=
  if 13 ≤ len then
    match area.get pos 13 with
    | none => some false
    | some tmp => parseVcardVersion area fuel (pos + skipBegin tmp) (len - skipBegin tmp)
  else some true

def CREDENTIAL_FIELD_ID : UInt32 := 0x100E

def SSID_FIELD_ID : UInt32 := 0x1045

def NETWORK_KEY_FIELD_ID : UInt32 := 0x1027

def AUTH_TYPE_FIELD_ID : UInt32 := 0x1003

/-- An entry of a credential, of which the length is checked already. -/
def parseWifiCfg (cfgId pos cfgLen : UInt32) : Bool :=
  if cfgId = SSID_FIELD_ID then dump area pos cfgLen false
  else if cfgId = NETWORK_KEY_FIELD_ID then cfgLen ≤ 64 && dump area pos cfgLen false
  else if cfgId = AUTH_TYPE_FIELD_ID then cfgLen = 2 && (area.get pos 2).isSome
  else true

def parseCredential (fieldEnd : UInt32) : ℕ → UInt32 → Option Bool
  | 0, _ => none
  | fuel + 1, pos =>
    if pos < fieldEnd then
      match getNum area pos 2, getNum area (pos + 2) 2 with
      | some cfgId, some cfgLen =>
        if fieldEnd < pos + 4 + cfgLen then some false
        else if parseWifiCfg area cfgId (pos + 4) cfgLen then
          parseCredential fieldEnd fuel (pos + 4 + cfgLen)
        else some false
      | _, _ => some false
    else some true

def parseWifi (stop : UInt32) : ℕ → UInt32 → Option Bool
  | 0, _ => none
  | fuel + 1, pos =>
    if pos < stop then
      match getNum area pos 2, getNum area (pos + 2) 2 with
      | some fieldId, some fieldLen =>
        if stop < pos + 4 + fieldLen then some false
        else if fieldId = CREDENTIAL_FIELD_ID then
          parseCredential area (pos + 4 + fieldLen) fuel (pos + 4)
        else parseWifi stop fuel (pos + 4 + fieldLen)
      | _, _ => some false
    else some true

end Payload

/-! ## Messages -/

/-- Whether a message is parsed, and the records that are reached. -/
structure Parsed where
  ok : Bool
  records : List NdefHeader
  deriving DecidableEq

section Message

variable (area : NdefArea)

/-- The lengths of the payload and of the id, and the position behind them. -/
def readLengths (flags : UInt8) (pos : UInt32) : Option (UInt32 × UInt32 × UInt32) :=
  let payload :=
    if shortRecord flags then (getByte area pos).map fun len => (len.toUInt32, pos + 1)
    else (getNum area pos 4).map fun len => (len, pos + 4)
  match payload with
  | none => none
  | some (payloadLen, pos) =>
    if idLengthPresent flags then
      (getByte area pos).map fun idLen => (payloadLen, idLen.toUInt32, pos + 1)
    else some (payloadLen, 0, pos)

/-- What is in front of the payload of the next record, with the checks of its flags. -/
def readHeader (pos : UInt32) (recordNum : ℕ) (lastRecord : Bool) : Option NdefHeader :=
  match getByte area pos with
  | none => none
  | some flags =>
    if (recordNum ≠ 0 ∧ messageBegin flags) ∨ lastRecord ∨ chunkFlag flags then none
    else
      match getByte area (pos + 1) with
      | none => none
      | some typeLen =>
        match readLengths area flags (pos + 2) with
        | none => none
        | some (payloadLen, idLen, pos) =>
          (if typeLen ≠ 0 then area.get pos typeLen.toUInt32 else some []).map fun type =>
            ⟨flags, type, pos + typeLen.toUInt32 + idLen, payloadLen⟩

/-- `ndef_parse_record`, with what parses the message of a smart poster. -/
def parseRecord (parseMessage : UInt32 → UInt32 → Option Parsed) (fuel depth : ℕ)
    (header : NdefHeader) : Option Parsed :=
  let pos := header.payloadPos
  let len := header.payloadLen
  if len = 0 then some ⟨true, []⟩
  else
    match kindOf (typeNameFormat header.flags) header.type with
    | some .smartPoster =>
      if NDEF_SMART_POSTER_MAX_DEPTH ≤ depth then some ⟨false, []⟩ else parseMessage pos len
    | some .uri => some ⟨parseUri area pos len, []⟩
    | some .text => some ⟨parseText area pos len, []⟩
    | some .bt => some ⟨parseBt area pos len, []⟩
    | some .vcard => (parseVcard area fuel pos len).map (⟨·, []⟩)
    | some .wifi => (parseWifi area (pos + len) fuel pos).map (⟨·, []⟩)
    | none => some ⟨dump area pos len false, []⟩

/-- The loop over the records of a message. -/
def parseLoop : ℕ → ℕ → UInt32 → UInt32 → ℕ → Bool → Option Parsed
  | 0, _, _, _, _, _ => none
  | fuel + 1, depth, stop, pos, recordNum, lastRecord =>
    if pos < stop then
      match readHeader area pos recordNum lastRecord with
      | none => some ⟨false, []⟩
      | some header =>
        let parseMessage (pos len : UInt32) := parseLoop fuel (depth + 1) (pos + len) pos 0 false
        match parseRecord area parseMessage fuel depth header with
        | none => none
        | some record =>
          if record.ok then
            (parseLoop fuel depth stop (header.payloadPos + header.payloadLen) (recordNum + 1)
              (messageEnd header.flags)).map fun rest =>
                ⟨rest.ok, header :: record.records ++ rest.records⟩
          else some ⟨false, header :: record.records⟩
    else some ⟨pos == stop && (lastRecord || recordNum == 0), []⟩

/-- `ndef_parse_message`. -/
def parseMessage (fuel depth : ℕ) (pos len : UInt32) : Option Parsed :=
  parseLoop area fuel depth (pos + len) pos 0 false

end Message

/-! ## The grammar -/

/-- A record that is not chunked, part by part. -/
structure NdefRecord where
  flags : UInt8
  typeLen : UInt8
  payloadLength : List UInt8
  idLength : List UInt8
  type : List UInt8
  id : List UInt8
  payload : List UInt8
  unchunked : chunkFlag flags = false
  payloadLength_length : payloadLength.length = if shortRecord flags then 1 else 4
  idLength_length : idLength.length = if idLengthPresent flags then 1 else 0
  type_length : type.length = typeLen.toNat
  id_length : id.length = (idLength.headD 0).toNat
  payload_length : payload.length = (bitLibBytesToNumBe payloadLength).toUInt32.toNat

namespace NdefRecord

variable (record : NdefRecord)

def head : List UInt8 :=
  record.flags :: record.typeLen :: (record.payloadLength ++ (record.idLength ++ record.type))

def bytes : List UInt8 := record.head ++ (record.id ++ record.payload)

/-- The kind as which a payload is taken. -/
def kind : Option NdefKind := kindOf (typeNameFormat record.flags) record.type

end NdefRecord

/-- The begin is marked on no record but the first, the end on the last one and on no other. -/
structure Marked (records : List NdefRecord) : Prop where
  begins : ∀ record ∈ records.tail, messageBegin record.flags = false
  continues : ∀ record ∈ records.dropLast, messageEnd record.flags = false
  ends : ∀ record ∈ records.getLast?, messageEnd record.flags = true

/-- A message in which the payloads of smart posters are `nested`. -/
def MessageOf (nested : List UInt8 → Prop) (bytes : List UInt8) : Prop :=
  ∃ records : List NdefRecord, bytes = records.flatMap NdefRecord.bytes ∧ Marked records ∧
    ∀ record ∈ records, record.kind = some .smartPoster → record.payload ≠ [] →
      nested record.payload

/-- A message with smart posters of at most some depth. -/
def IsMessage : ℕ → List UInt8 → Prop
  | 0 => MessageOf fun _ => False
  | depth + 1 => MessageOf (IsMessage depth)

/-- The type of a kind, in full. -/
def typeString : NdefKind → List UInt8
  | .smartPoster => ascii "Sp"
  | .uri => ascii "U"
  | .text => ascii "T"
  | .bt => ascii "application/vnd.bluetooth.ep.oob"
  | .vcard => ascii "text/vcard"
  | .wifi => ascii "application/vnd.wfa.wsc"

/-- A type that is taken for a literal that it is not: a part of one, or one with more behind a
zero. -/
def Mistaken (tnf : UInt8) (type : List UInt8) : Prop :=
  ∃ literal ∈ literals tnf, (type <+: literal.1 ∧ type ≠ literal.1) ∨ literal.1 ++ [0] <+: type

/-- What a parse has to keep: what is accepted is a message, and what is taken as a kind has its
type. -/
def FollowsGrammar (area : NdefArea) (depth pos len : ℕ) (parsed : Parsed) : Prop :=
  (parsed.ok = true →
    IsMessage (NDEF_SMART_POSTER_MAX_DEPTH - depth) ((area.content.drop pos).take len)) ∧
  ∀ header ∈ parsed.records, header.payloadLen ≠ 0 →
    ∀ kind, kindOf (typeNameFormat header.flags) header.type = some kind →
      header.type = typeString kind

end Ndef

namespace NdefHeader

/-- The end of the payload is not behind the last position of a `size_t`. -/
def Fits (header : NdefHeader) : Prop :=
  header.payloadPos.toNat + header.payloadLen.toNat < 2 ^ 32

end NdefHeader

end KiisuFirmware
