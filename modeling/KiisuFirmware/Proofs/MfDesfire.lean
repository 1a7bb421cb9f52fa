import KiisuFirmware.MfDesfire
import Mathlib.Data.List.GetD
import Mathlib.Tactic

/-!
# Parsed file settings

A response describes settings when it is a header, the fields of its type and, where its flag says
so, a number and as many access rights (`Describes`). What the parser accepts is described by its
response, within which it reads, only when the fields and the flag leave nothing out and over, and no
additional access right differs from what is in front of it (`Readable`).
-/

namespace KiisuFirmware

namespace MfDesfireFileSettings

open MfDesfireFileType

/-! ## What is copied -/

variable (raw : ℕ → UInt8) (offset : ℕ)

theorem length_copied (size : ℕ) : (copied raw offset size).length = size := by
  rw [copied, List.length_map, List.length_range']

theorem copied_add (m n : ℕ) :
    copied raw offset (m + n) = copied raw offset m ++ copied raw (offset + m) n := by
  unfold copied
  rw [← List.map_append, List.range'_append_1]

theorem copied_two : copied raw offset 2 = [raw offset, raw (offset + 1)] := rfl

variable {raw offset}

theorem copied_eq {bytes : List UInt8} {size : ℕ}
    (h : ∀ i, offset ≤ i → i < offset + size → raw i = bytes.getD i 0)
    (hlen : offset + size ≤ bytes.length) :
    copied raw offset size = (bytes.drop offset).take size := by
  refine List.ext_getElem ?_ fun i h1 h2 => ?_
  · rw [length_copied, List.length_take, List.length_drop]
    omega
  · rw [length_copied] at h1
    have hi : offset + i < bytes.length := by omega
    have hraw := h (offset + i) (by omega) (by omega)
    rw [List.getD_eq_getElem _ _ hi] at hraw
    simp [copied, hraw]

/-! ## Fields -/

/-- How many bytes the fields of a type take. -/
def fieldsSize (comm keyOption : UInt8) : MfDesfireFileType → ℕ
  | standard | backup => 3
  | value => 13
  | linearRecord | cyclicRecord => 9
  | transactionMac => if comm &&& 0x20 = 0 then 2 else counterLimitSize keyOption + 2

/-- A number with the lowest byte first. -/
def leNumber (bytes : List UInt8) : UInt32 := UInt32.ofNat (bitLibBytesToNumLe bytes)

/-- Bytes that are the fields of a type. -/
def Encodes (type : MfDesfireFileType) (comm : UInt8) (body : List UInt8) :
    MfDesfireFileFields → Prop
  | .data size => (type = standard ∨ type = backup) ∧ body.length = 3 ∧ size = leNumber body
  | .value loLimit hiLimit credit enabled =>
    type = value ∧ ∃ lo hi limited : List UInt8, ∃ flag : UInt8,
      body = lo ++ hi ++ limited ++ [flag] ∧ lo.length = 4 ∧ hi.length = 4 ∧ limited.length = 4 ∧
      loLimit = leNumber lo ∧ hiLimit = leNumber hi ∧ credit = leNumber limited ∧
      (enabled = true ↔ flag ≠ 0)
  | .record size max cur =>
    (type = linearRecord ∨ type = cyclicRecord) ∧ ∃ sizes maxs curs : List UInt8,
      body = sizes ++ maxs ++ curs ∧ sizes.length = 3 ∧ maxs.length = 3 ∧ curs.length = 3 ∧
      size = leNumber sizes ∧ max = leNumber maxs ∧ cur = leNumber curs
  | .transactionMac keyOption keyVersion counterLimit =>
    type = transactionMac ∧ ∃ limit : List UInt8, body = keyOption :: keyVersion :: limit ∧
      limit.length = (if comm &&& 0x20 = 0 then 0 else counterLimitSize keyOption) ∧
      counterLimit = (bitLibBytesToNumBe limit).toUInt32

theorem parseFields_snd (comm : UInt8) (type : MfDesfireFileType) :
    (parseFields raw comm offset type).2 = fieldsSize comm (raw offset) type := by
  cases type
  case transactionMac =>
    by_cases h : comm &&& 0x20 = 0
    · simp [parseFields, fieldsSize, h]
    · simp [parseFields, fieldsSize, h]
  all_goals rfl

theorem encodes_parseFields (raw : ℕ → UInt8) (offset : ℕ) (comm : UInt8)
    (type : MfDesfireFileType) :
    Encodes type comm (copied raw offset (fieldsSize comm (raw offset) type))
      (parseFields raw comm offset type).1 := by
  cases type
  case standard => exact ⟨.inl rfl, length_copied _ _ _, rfl⟩
  case backup => exact ⟨.inr rfl, length_copied _ _ _, rfl⟩
  case value =>
    refine ⟨rfl, copied raw offset 4, copied raw (offset + 4) 4, copied raw (offset + 8) 4,
      raw (offset + 12), ?_, length_copied _ _ _, length_copied _ _ _, length_copied _ _ _, rfl, rfl,
      rfl, decide_eq_true_iff⟩
    exact (copied_add raw offset 12 1).trans
      (congrArg (· ++ [raw (offset + 12)]) ((copied_add raw offset 8 4).trans
        (congrArg (· ++ copied raw (offset + 8) 4) (copied_add raw offset 4 4))))
  case linearRecord =>
    refine ⟨.inl rfl, copied raw offset 3, copied raw (offset + 3) 3, copied raw (offset + 6) 3, ?_,
      length_copied _ _ _, length_copied _ _ _, length_copied _ _ _, rfl, rfl, rfl⟩
    exact (copied_add raw offset 6 3).trans
      (congrArg (· ++ copied raw (offset + 6) 3) (copied_add raw offset 3 3))
  case cyclicRecord =>
    refine ⟨.inr rfl, copied raw offset 3, copied raw (offset + 3) 3, copied raw (offset + 6) 3, ?_,
      length_copied _ _ _, length_copied _ _ _, length_copied _ _ _, rfl, rfl, rfl⟩
    exact (copied_add raw offset 6 3).trans
      (congrArg (· ++ copied raw (offset + 6) 3) (copied_add raw offset 3 3))
  case transactionMac =>
    by_cases h : comm &&& 0x20 = 0
    · have hfields : (parseFields raw comm offset transactionMac).1 =
          .transactionMac (raw offset) (raw (offset + 1)) 0 := by simp [parseFields, h]
      rw [hfields, fieldsSize, if_pos h]
      exact ⟨rfl, [], rfl, (if_pos h).symm, rfl⟩
    · have hfields : (parseFields raw comm offset transactionMac).1 =
          .transactionMac (raw offset) (raw (offset + 1)) (bitLibBytesToNumBe
            (copied raw (offset + 2) (counterLimitSize (raw offset)))).toUInt32 := by
        simp [parseFields, h]
      rw [hfields, fieldsSize, if_neg h, Nat.add_comm, copied_add, copied_two]
      exact ⟨rfl, copied raw (offset + 2) (counterLimitSize (raw offset)), rfl,
        (length_copied _ _ _).trans (if_neg h).symm, rfl⟩

theorem Encodes.length_eq {type : MfDesfireFileType} {comm : UInt8} {body : List UInt8}
    {fields : MfDesfireFileFields} (h : Encodes type comm body fields) :
    body.length = fieldsSize comm (body.headD 0) type := by
  cases fields with
  | data size =>
    obtain ⟨rfl | rfl, hlen, -⟩ := h
    all_goals exact hlen
  | value loLimit hiLimit credit enabled =>
    obtain ⟨rfl, lo, hi, limited, flag, rfl, hlo, hhi, hlimited, -⟩ := h
    simp [fieldsSize, hlo, hhi, hlimited]
  | record size max cur =>
    obtain ⟨rfl | rfl, sizes, maxs, curs, rfl, hsizes, hmaxs, hcurs, -⟩ := h
    all_goals simp [fieldsSize, hsizes, hmaxs, hcurs]
  | transactionMac keyOption keyVersion counterLimit =>
    obtain ⟨rfl, limit, rfl, hlimit, -⟩ := h
    by_cases hcomm : comm &&& 0x20 = 0
    · simp [fieldsSize, hcomm] at hlimit ⊢
      exact hlimit
    · simp [fieldsSize, hcomm] at hlimit ⊢
      exact hlimit

/-! ## Responses -/

def rightOf (lo hi : UInt8) : UInt16 := UInt16.ofNat (bitLibBytesToNumLe [lo, hi])

theorem accessRight_eq (raw : ℕ → UInt8) (offset : ℕ) :
    accessRight raw offset = rightOf (raw offset) (raw (offset + 1)) := rfl

theorem rightOf_inj {lo hi lo' hi' : UInt8} (h : rightOf lo hi = rightOf lo' hi') :
    lo = lo' ∧ hi = hi' := by
  have hnum : ∀ a b : UInt8, (rightOf a b).toNat = a.toNat + 256 * b.toNat := fun a b => by
    have ha := a.toNat_lt
    have hb := b.toNat_lt
    unfold rightOf bitLibBytesToNumLe
    rw [UInt16.toNat_ofNat', List.foldr_cons, List.foldr_cons, List.foldr_nil]
    omega
  have heq := congrArg UInt16.toNat h
  rw [hnum, hnum] at heq
  have h1 := lo.toNat_lt
  have h2 := lo'.toNat_lt
  exact ⟨UInt8.toNat_inj.mp (by omega), UInt8.toNat_inj.mp (by omega)⟩

/-- The access rights of bytes, two for each. -/
def rightsOf (bytes : List UInt8) (count : ℕ) : List UInt16 :=
  (List.range count).map fun i => rightOf (bytes.getD (2 * i) 0) (bytes.getD (2 * i + 1) 0)

/-- A response is a header, the fields of its type and additional access rights if the flag is set,
and settings have all of them. -/
def Describes (bytes : List UInt8) (settings : MfDesfireFileSettings) : Prop :=
  ∃ type comm lo hi : UInt8, ∃ body additional : List UInt8,
    bytes = type :: comm :: lo :: hi :: (body ++ additional) ∧
    ofByte type = some settings.type ∧ settings.comm = comm &&& 0x03 ∧
    Encodes settings.type comm body settings.fields ∧
    ((comm &&& 0x80 = 0 ∧ additional = [] ∧ settings.accessRights = [rightOf lo hi]) ∨
      (comm &&& 0x80 ≠ 0 ∧ ∃ count : UInt8, ∃ rights : List UInt8, additional = count :: rights ∧
        rights.length = 2 * count.toNat ∧
        settings.accessRights = rightOf lo hi :: rightsOf rights count.toNat))

/-- The parser reads within the response, leaves the destination as it is when it fails, and else the
response describes what it has parsed. -/
def ParsesResponse (data : MfDesfireFileSettings) (buf : BitBuffer) (behind : ℕ → UInt8) : Prop :=
  ∃ result, parse data buf behind = some result ∧ (∀ i ∈ result.reads, i < buf.sizeBytes) ∧
    (result.parsed = false → result.data = data) ∧
    (result.parsed = true → Describes buf.bytes result.data)

/-- Where the fields of a response end. -/
def fieldsEnd (bytes : List UInt8) (type : MfDesfireFileType) : ℕ :=
  4 + fieldsSize (bytes.getD 1 0) (bytes.getD 4 0) type

/-- A response that is too short or of no type; or that ends with its fields if its flag says so;
or whose additional rights are not as many, are too many, or are all the byte in front of them. -/
def Readable (bytes : List UInt8) : Prop :=
  bytes.length < 6 ∨ ofByte (bytes.getD 0 0) = none ∨
  ∃ type, ofByte (bytes.getD 0 0) = some type ∧
    ((bytes.getD 1 0 &&& 0x80 = 0 ∧ bytes.length = fieldsEnd bytes type) ∨
      (bytes.getD 1 0 &&& 0x80 ≠ 0 ∧ fieldsEnd bytes type < bytes.length ∧
        (bytes.length ≠ fieldsEnd bytes type + (bytes.getD (fieldsEnd bytes type) 0).toNat * 2 + 1 ∨
          MF_DESFIRE_MAX_KEYS - 1 < (bytes.getD (fieldsEnd bytes type) 0).toNat ∨
          ∀ i, i < (bytes.getD (fieldsEnd bytes type) 0).toNat * 2 →
            bytes.getD (fieldsEnd bytes type + 1 + i) 0 = bytes.getD (fieldsEnd bytes type) 0)))

/-! ## What the parser does -/

section Parse

variable {data : MfDesfireFileSettings} {buf : BitBuffer} {behind : ℕ → UInt8}

theorem sizeBytes_le : buf.sizeBytes ≤ buf.data.length := by
  have h := buf.fits
  unfold BitBuffer.sizeBytes BITS_IN_BYTE at *
  split_ifs <;> omega

theorem length_bytes (buf : BitBuffer) : buf.bytes.length = buf.sizeBytes := by
  rw [BitBuffer.bytes, List.length_take, min_eq_left sizeBytes_le]

theorem readByte_eq (behind : ℕ → UInt8) {i : ℕ} (h : i < buf.sizeBytes) :
    readByte buf behind i = buf.bytes.getD i 0 := by
  have hdata : i < buf.data.length := h.trans_le sizeBytes_le
  have hlen : i < buf.bytes.length := by rwa [length_bytes buf]
  rw [readByte, BitBuffer.getByte, List.getElem?_eq_getElem hdata, Option.getD_some,
    List.getD_eq_getElem _ _ hlen]
  simp [BitBuffer.bytes]

theorem getByte_eq {i : ℕ} (h : i < buf.sizeBytes) : buf.getByte i = some (buf.bytes.getD i 0) := by
  have hdata : i < buf.data.length := h.trans_le sizeBytes_le
  have hread := readByte_eq (fun _ => 0) h
  rw [← hread, readByte, BitBuffer.getByte, List.getElem?_eq_getElem hdata, Option.getD_some]

/-- The settings without additional access rights. -/
def parsedFields (bytes : List UInt8) (raw : ℕ → UInt8) (type : MfDesfireFileType) :
    MfDesfireFileSettings :=
  ⟨type, bytes.getD 1 0 &&& 0x03, [rightOf (bytes.getD 2 0) (bytes.getD 3 0)],
    (parseFields raw (bytes.getD 1 0) 4 type).1⟩

theorem parse_short (h : buf.sizeBytes < 6) : parse data buf behind = some ⟨false, data, []⟩ :=
  if_pos h

theorem parse_unknown (h : ¬buf.sizeBytes < 6) (htype : ofByte (buf.bytes.getD 0 0) = none) :
    parse data buf behind = some ⟨false, data, List.range 4⟩ := by
  refine (if_neg h).trans ?_
  dsimp only
  rw [readByte_eq behind (by omega), htype]

theorem parse_known (data : MfDesfireFileSettings) (behind : ℕ → UInt8) (h : ¬buf.sizeBytes < 6)
    {type : MfDesfireFileType}
    (htype : ofByte (buf.bytes.getD 0 0) = some type) :
    parse data buf behind =
      if buf.bytes.getD 1 0 &&& 0x80 ≠ 0 then
        parseAdditional data (parsedFields buf.bytes (readByte buf behind) type) buf
          (readByte buf behind) (fieldsEnd buf.bytes type)
      else some ⟨true, parsedFields buf.bytes (readByte buf behind) type,
        List.range (fieldsEnd buf.bytes type)⟩ := by
  have h0 : readByte buf behind 0 = buf.bytes.getD 0 0 := readByte_eq _ (by omega)
  have h1 : readByte buf behind 1 = buf.bytes.getD 1 0 := readByte_eq _ (by omega)
  have h2 : readByte buf behind 2 = buf.bytes.getD 2 0 := readByte_eq _ (by omega)
  have h3 : readByte buf behind (2 + 1) = buf.bytes.getD 3 0 := readByte_eq _ (by omega)
  have h4 : readByte buf behind 4 = buf.bytes.getD 4 0 := readByte_eq _ (by omega)
  refine (if_neg h).trans ?_
  dsimp only
  rw [h0, htype]
  dsimp only
  rw [h1, parseFields_snd, accessRight_eq, h2, h3, h4]
  rfl

variable {temp : MfDesfireFileSettings} {raw : ℕ → UInt8} {bytesProcessed : ℕ}

theorem mem_reads_parseAdditional {result : MfDesfireParsed}
    (h : parseAdditional data temp buf raw bytesProcessed = some result) :
    bytesProcessed ∈ result.reads := by
  have hmem : bytesProcessed ∈ List.range (bytesProcessed + 1) :=
    List.mem_range.mpr (Nat.lt_succ_self _)
  unfold parseAdditional at h
  cases hbyte : buf.getByte bytesProcessed with
  | none =>
    rw [hbyte] at h
    cases h
  | some byte =>
    rw [hbyte] at h
    simp only [Option.bind_eq_bind, Option.bind_some, Option.pure_def] at h
    split_ifs at h
    all_goals
      cases h
      simp

theorem parseAdditional_length {byte : UInt8} (hbyte : buf.getByte bytesProcessed = some byte)
    (h : buf.sizeBytes ≠ bytesProcessed + byte.toNat * 2 + 1) :
    parseAdditional data temp buf raw bytesProcessed =
      some ⟨false, data, List.range (bytesProcessed + 1) ++ List.range buf.sizeBytes⟩ := by
  simp [parseAdditional, hbyte, h]

theorem parseAdditional_many {byte : UInt8} (hbyte : buf.getByte bytesProcessed = some byte)
    (hlen : buf.sizeBytes = bytesProcessed + byte.toNat * 2 + 1)
    (h : MF_DESFIRE_MAX_KEYS - 1 < byte.toNat) :
    parseAdditional data temp buf raw bytesProcessed =
      some ⟨false, data, List.range (bytesProcessed + 1)⟩ := by
  simp [parseAdditional, hbyte, hlen, h]

theorem parseAdditional_rights {byte : UInt8} (hbyte : buf.getByte bytesProcessed = some byte)
    (hlen : buf.sizeBytes = bytesProcessed + byte.toNat * 2 + 1)
    (h : ¬MF_DESFIRE_MAX_KEYS - 1 < byte.toNat) :
    parseAdditional data temp buf raw bytesProcessed =
      some ⟨true,
        { temp with
          accessRights := temp.accessRights ++ parseAccessRights raw bytesProcessed byte.toNat },
        List.range (bytesProcessed + 1) ++ List.range' bytesProcessed (byte.toNat * 2)⟩ := by
  simp [parseAdditional, hbyte, hlen, h]

end Parse

/-! ## What a response describes -/

section Describe

variable {bytes : List UInt8} {settings : MfDesfireFileSettings} {raw : ℕ → UInt8}
  {type : MfDesfireFileType}

theorem two_le_fieldsSize (comm keyOption : UInt8) (type : MfDesfireFileType) :
    2 ≤ fieldsSize comm keyOption type := by
  cases type
  case transactionMac =>
    dsimp only [fieldsSize]
    split_ifs
    all_goals omega
  all_goals norm_num [fieldsSize]

theorem header_eq (h : 4 ≤ bytes.length) :
    bytes = bytes.getD 0 0 :: bytes.getD 1 0 :: bytes.getD 2 0 :: bytes.getD 3 0 ::
      bytes.drop 4 := by
  match bytes, h with
  | _ :: _ :: _ :: _ :: _, _ => rfl

theorem Describes.behind (h : Describes bytes settings) :
    fieldsEnd bytes settings.type ≤ bytes.length ∧
    ((bytes.getD 1 0 &&& 0x80 = 0 ∧ bytes.drop (fieldsEnd bytes settings.type) = []) ∨
      (bytes.getD 1 0 &&& 0x80 ≠ 0 ∧ ∃ count : UInt8, ∃ rights : List UInt8,
        bytes.drop (fieldsEnd bytes settings.type) = count :: rights ∧
        settings.accessRights =
          rightOf (bytes.getD 2 0) (bytes.getD 3 0) :: rightsOf rights count.toNat)) := by
  obtain ⟨type, comm, lo, hi, body, additional, rfl, -, -, hbody, hflag⟩ := h
  have hlen := hbody.length_eq
  have hend : fieldsEnd (type :: comm :: lo :: hi :: (body ++ additional)) settings.type =
      4 + body.length := by
    match body, hlen with
    | [], hlen =>
      have h2 := two_le_fieldsSize comm 0 settings.type
      exact absurd hlen (Nat.ne_of_lt (Nat.lt_of_lt_of_le two_pos h2))
    | _ :: _, hlen =>
      rw [hlen]
      rfl
  have hdrop : (type :: comm :: lo :: hi :: (body ++ additional)).drop (4 + body.length) =
      additional := by
    rw [Nat.add_comm]
    exact List.drop_left
  rw [hend, hdrop]
  refine ⟨?_, ?_⟩
  · simp only [List.length_cons, List.length_append]
    omega
  · rcases hflag with ⟨hcomm, hnil, -⟩ | ⟨hcomm, count, rights, hcons, -, hrights⟩
    · exact .inl ⟨hcomm, hnil⟩
    · exact .inr ⟨hcomm, count, rights, hcons, hrights⟩

theorem describes_of (h6 : 6 ≤ bytes.length) (htype : ofByte (bytes.getD 0 0) = some type)
    (hend : fieldsEnd bytes type ≤ bytes.length)
    (hraw : ∀ i, i < bytes.length → raw i = bytes.getD i 0) (rights : List UInt16)
    (hflag : (bytes.getD 1 0 &&& 0x80 = 0 ∧ bytes.drop (fieldsEnd bytes type) = [] ∧ rights = []) ∨
      (bytes.getD 1 0 &&& 0x80 ≠ 0 ∧ ∃ count : UInt8, ∃ behind : List UInt8,
        bytes.drop (fieldsEnd bytes type) = count :: behind ∧ behind.length = 2 * count.toNat ∧
        rights = rightsOf behind count.toNat)) :
    Describes bytes { parsedFields bytes raw type with
      accessRights := (parsedFields bytes raw type).accessRights ++ rights } := by
  have hbody : copied raw 4 (fieldsSize (bytes.getD 1 0) (bytes.getD 4 0) type) =
      (bytes.drop 4).take (fieldsSize (bytes.getD 1 0) (bytes.getD 4 0) type) :=
    copied_eq (fun i _ hi => hraw i (by unfold fieldsEnd at hend; omega)) hend
  refine ⟨bytes.getD 0 0, bytes.getD 1 0, bytes.getD 2 0, bytes.getD 3 0,
    copied raw 4 (fieldsSize (bytes.getD 1 0) (bytes.getD 4 0) type),
    bytes.drop (fieldsEnd bytes type), ?_, htype, rfl, ?_, ?_⟩
  · rw [hbody, fieldsEnd, ← List.drop_drop, List.take_append_drop]
    exact header_eq (by omega)
  · have hencodes := encodes_parseFields raw 4 (bytes.getD 1 0) type
    rwa [hraw 4 (by omega)] at hencodes
  · rcases hflag with ⟨hcomm, hnil, rfl⟩ | ⟨hcomm, count, behind, hcons, hlen, rfl⟩
    · exact .inl ⟨hcomm, hnil, rfl⟩
    · exact .inr ⟨hcomm, count, behind, hcons, hlen, rfl⟩

/-- Access rights whose copy begins one byte early are right only if all their bytes are one. -/
theorem parseAccessRights_eq_iff {e len : ℕ} (hlen : bytes.length = e + len * 2 + 1)
    (hraw : ∀ i, i < bytes.length → raw i = bytes.getD i 0) :
    parseAccessRights raw e len = rightsOf (bytes.drop (e + 1)) len ↔
      ∀ i, i < len * 2 → bytes.getD (e + 1 + i) 0 = bytes.getD e 0 := by
  have hdrop : ∀ i, (bytes.drop (e + 1)).getD i 0 = bytes.getD (e + 1 + i) 0 := fun i => by
    rw [List.getD_eq_getElem?_getD, List.getD_eq_getElem?_getD, List.getElem?_drop]
  unfold parseAccessRights rightsOf
  rw [List.map_inj_left]
  constructor
  · intro h
    have hstep : ∀ i, i < len * 2 → bytes.getD (e + i) 0 = bytes.getD (e + 1 + i) 0 := by
      intro i hi
      have hright := h (i / 2) (List.mem_range.mpr (by omega))
      rw [accessRight_eq, hraw _ (by omega), hraw _ (by omega), hdrop, hdrop] at hright
      obtain ⟨hlo, hhi⟩ := rightOf_inj hright
      obtain heven | hodd : i = 2 * (i / 2) ∨ i = 2 * (i / 2) + 1 := by omega
      · rw [heven]
        exact hlo
      · rw [hodd]
        exact hhi
    intro i
    induction i with
    | zero => exact fun hi => (hstep 0 hi).symm
    | succ i ih =>
      intro hi
      have hnext := hstep (i + 1) hi
      rw [← hnext, show e + (i + 1) = e + 1 + i by omega]
      exact ih (by omega)
  · intro h i hi
    have hi := List.mem_range.mp hi
    have hat : ∀ k, k ≤ len * 2 → raw (e + k) = bytes.getD e 0 := by
      intro k hk
      rw [hraw _ (by omega)]
      cases k with
      | zero => rfl
      | succ k =>
        rw [show e + (k + 1) = e + 1 + k by omega]
        exact h k (by omega)
    rw [accessRight_eq, hdrop, hdrop, h _ (by omega), h _ (by omega), hat _ (by omega),
      Nat.add_assoc, hat _ (by omega)]

end Describe

/-! ## Responses that are parsed -/

theorem parsesResponse_plain_iff {data : MfDesfireFileSettings} {buf : BitBuffer}
    {behind : ℕ → UInt8} {type : MfDesfireFileType} (h : ¬buf.sizeBytes < 6)
    (htype : ofByte (buf.bytes.getD 0 0) = some type) (hcomm : buf.bytes.getD 1 0 &&& 0x80 = 0) :
    ParsesResponse data buf behind ↔ buf.bytes.length = fieldsEnd buf.bytes type := by
  have hparse := parse_known data behind h htype
  rw [if_neg (not_not.mpr hcomm)] at hparse
  have hlen := length_bytes buf
  constructor
  · rintro ⟨result, hresult, -, -, hdescribes⟩
    obtain rfl := Option.some.inj (hparse.symm.trans hresult)
    obtain ⟨hend, ⟨-, hnil⟩ | ⟨hflag, -⟩⟩ := (hdescribes rfl).behind
    · exact le_antisymm (List.drop_eq_nil_iff.mp hnil) hend
    · exact absurd hcomm hflag
  · intro hend
    refine ⟨_, hparse, fun i hi => ?_, Bool.noConfusion, fun _ => ?_⟩
    · rw [← hlen, hend]
      exact List.mem_range.mp hi
    · exact describes_of (by omega) htype hend.ge
        (fun i hi => readByte_eq behind (hlen ▸ hi)) []
        (.inl ⟨hcomm, List.drop_eq_nil_iff.mpr hend.le, rfl⟩)

theorem parsesResponse_additional_iff {data : MfDesfireFileSettings} {buf : BitBuffer}
    {behind : ℕ → UInt8} {type : MfDesfireFileType} (h : ¬buf.sizeBytes < 6)
    (htype : ofByte (buf.bytes.getD 0 0) = some type) (hcomm : buf.bytes.getD 1 0 &&& 0x80 ≠ 0) :
    ParsesResponse data buf behind ↔ fieldsEnd buf.bytes type < buf.bytes.length ∧
      (buf.bytes.length ≠ fieldsEnd buf.bytes type +
          (buf.bytes.getD (fieldsEnd buf.bytes type) 0).toNat * 2 + 1 ∨
        MF_DESFIRE_MAX_KEYS - 1 < (buf.bytes.getD (fieldsEnd buf.bytes type) 0).toNat ∨
        ∀ i, i < (buf.bytes.getD (fieldsEnd buf.bytes type) 0).toNat * 2 →
          buf.bytes.getD (fieldsEnd buf.bytes type + 1 + i) 0 =
            buf.bytes.getD (fieldsEnd buf.bytes type) 0) := by
  have hparse := parse_known data behind h htype
  rw [if_pos hcomm] at hparse
  have hlen := length_bytes buf
  have hraw : ∀ i, i < buf.bytes.length → readByte buf behind i = buf.bytes.getD i 0 :=
    fun i hi => readByte_eq behind (hlen ▸ hi)
  obtain ⟨e, he⟩ : ∃ e, fieldsEnd buf.bytes type = e := ⟨_, rfl⟩
  rw [he] at hparse ⊢
  by_cases hfit : e < buf.bytes.length
  · have hbyte : buf.getByte e = some (buf.bytes.getD e 0) := getByte_eq (hlen ▸ hfit)
    by_cases hnum : buf.sizeBytes = e + (buf.bytes.getD e 0).toNat * 2 + 1
    · by_cases hmany : MF_DESFIRE_MAX_KEYS - 1 < (buf.bytes.getD e 0).toNat
      · rw [parseAdditional_many hbyte hnum hmany] at hparse
        refine iff_of_true ⟨_, hparse, fun i hi => ?_, fun _ => rfl, Bool.noConfusion⟩
          ⟨hfit, .inr (.inl hmany)⟩
        have hi := List.mem_range.mp hi
        omega
      · rw [parseAdditional_rights hbyte hnum hmany] at hparse
        have hiff := parseAccessRights_eq_iff (hlen.trans hnum) hraw
        constructor
        · rintro ⟨result, hresult, -, -, hdescribes⟩
          obtain rfl := Option.some.inj (hparse.symm.trans hresult)
          obtain ⟨-, ⟨hzero, -⟩ | ⟨-, count, rights, hdrop, hrights⟩⟩ := (hdescribes rfl).behind
          · exact absurd hzero hcomm
          · refine ⟨hfit, .inr (.inr (hiff.mp ?_))⟩
            have hdrop : buf.bytes.drop e = count :: rights := he ▸ hdrop
            obtain ⟨hcount, hbehind⟩ :=
              List.cons.inj ((List.drop_eq_getElem_cons hfit).symm.trans hdrop)
            rw [hbehind, List.getD_eq_getElem _ _ hfit, hcount]
            rw [List.getD_eq_getElem _ _ hfit, hcount] at hrights
            exact List.cons.inj hrights |>.2
        · rintro ⟨-, hnot | hgt | hall⟩
          · exact absurd (hlen.trans hnum) hnot
          · exact absurd hgt hmany
          · refine ⟨_, hparse, fun i hi => ?_, Bool.noConfusion, fun _ => ?_⟩
            · rcases List.mem_append.mp hi with hi | hi
              · have hi := List.mem_range.mp hi
                omega
              · have hi := List.mem_range'_1.mp hi
                omega
            · refine describes_of (by omega) htype (he ▸ hfit.le) hraw _
                (.inr ⟨hcomm, buf.bytes.getD e 0, buf.bytes.drop (e + 1), ?_, ?_, hiff.mpr hall⟩)
              · rw [he, List.getD_eq_getElem _ _ hfit]
                exact List.drop_eq_getElem_cons hfit
              · rw [List.length_drop]
                omega
    · rw [parseAdditional_length hbyte hnum] at hparse
      refine iff_of_true ⟨_, hparse, fun i hi => ?_, fun _ => rfl, Bool.noConfusion⟩
        ⟨hfit, .inl fun heq => hnum (hlen ▸ heq)⟩
      rcases List.mem_append.mp hi with hi | hi
      · have hi := List.mem_range.mp hi
        omega
      · exact List.mem_range.mp hi
  · refine iff_of_false ?_ fun hcond => hfit hcond.1
    rintro ⟨result, hresult, hreads, -⟩
    have hmem := mem_reads_parseAdditional (hparse.symm.trans hresult)
    exact hfit (hlen ▸ hreads e hmem)

/-- The parser does what it should exactly for a response that is `Readable`. -/
theorem parsesResponse_iff (data : MfDesfireFileSettings) (buf : BitBuffer) (behind : ℕ → UInt8) :
    ParsesResponse data buf behind ↔ Readable buf.bytes := by
  unfold Readable
  have hlen := length_bytes buf
  by_cases h : buf.sizeBytes < 6
  · refine iff_of_true ⟨_, parse_short h, fun i hi => ?_, fun _ => rfl, Bool.noConfusion⟩
      (.inl (hlen ▸ h))
    cases hi
  · cases htype : ofByte (buf.bytes.getD 0 0) with
    | none =>
      refine iff_of_true ⟨_, parse_unknown h htype, fun i hi => ?_, fun _ => rfl, Bool.noConfusion⟩
        (.inr (.inl rfl))
      have hi := List.mem_range.mp hi
      omega
    | some type =>
      by_cases hcomm : buf.bytes.getD 1 0 &&& 0x80 = 0
      · rw [parsesResponse_plain_iff h htype hcomm]
        constructor
        · intro hend
          exact .inr (.inr ⟨type, rfl, .inl ⟨hcomm, hend⟩⟩)
        · rintro (hshort | hnone | ⟨type', htype', ⟨-, hend⟩ | ⟨hflag, -⟩⟩)
          · exact absurd (hlen ▸ hshort) h
          · cases hnone
          · rwa [Option.some.inj htype']
          · exact absurd hcomm hflag
      · rw [parsesResponse_additional_iff h htype hcomm]
        constructor
        · intro hend
          exact .inr (.inr ⟨type, rfl, .inr ⟨hcomm, hend⟩⟩)
        · rintro (hshort | hnone | ⟨type', htype', ⟨hflag, -⟩ | ⟨-, hend⟩⟩)
          · exact absurd (hlen ▸ hshort) h
          · cases hnone
          · exact absurd hflag hcomm
          · rwa [Option.some.inj htype']

/-- One additional right of a standard file is read with its number as a byte of it, and the size of
a standard file is read behind a response of six bytes. -/
theorem not_parsesResponse :
    ¬ParsesResponse ⟨standard, 0, [], .data 0⟩
      ⟨[0, 0x80, 0xEE, 0xEE, 0x20, 0, 0, 1, 0x34, 0x12], 80, by decide⟩ (fun _ => 0) ∧
    ¬ParsesResponse ⟨standard, 0, [], .data 0⟩ ⟨[0, 0, 0xEE, 0xEE, 0x20, 0], 48, by decide⟩
      (fun _ => 0) := by
  constructor
  · rw [parsesResponse_additional_iff (by decide) (by rfl) (by decide)]
    decide
  · rw [parsesResponse_plain_iff (by decide) (by rfl) (by decide)]
    decide

end MfDesfireFileSettings

end KiisuFirmware
