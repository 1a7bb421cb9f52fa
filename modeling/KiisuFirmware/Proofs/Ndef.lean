import KiisuFirmware.Ndef
import Mathlib.Tactic.Ring

/-!
# Messages that are accepted

The header that is read at a position says where the record ends. A record of the grammar at the
same position has the same header, so that an accepted message is one of the grammar unless the end
of one of its records is behind the last position of a `size_t`.
-/

namespace KiisuFirmware

open Ndef

namespace NdefArea

variable {area : NdefArea}

theorem get_some {pos len : UInt32} {bytes : List UInt8}
    (hwrap : pos.toNat + len.toNat < 2 ^ 32) (hget : area.get pos len = some bytes) :
    area.content.drop pos.toNat = bytes ++ area.content.drop (pos.toNat + len.toNat) ∧
      bytes.length = len.toNat ∧ pos.toNat + len.toNat ≤ area.content.length := by
  rw [area.get_eq pos len hwrap] at hget
  split at hget
  · rename_i hle
    obtain rfl := Option.some.inj hget
    refine ⟨?_, by simp; omega, hle⟩
    rw [← List.drop_drop, List.take_append_drop]
  · exact absurd hget (by simp)

theorem getByte_some {pos : UInt32} {byte : UInt8} (hpos : pos.toNat ≤ area.content.length)
    (hget : getByte area pos = some byte) :
    area.content.drop pos.toNat = byte :: area.content.drop (pos.toNat + 1) ∧
      (pos + 1).toNat = pos.toNat + 1 ∧ pos.toNat + 1 ≤ area.content.length := by
  have hlimit := area.length_le
  obtain ⟨bytes, hbytes, hhead⟩ := Option.bind_eq_some_iff.mp hget
  obtain ⟨hdrop, hlength, hle⟩ := get_some (by simp; omega) hbytes
  obtain ⟨first, rfl⟩ := List.length_eq_one_iff.mp (by simpa using hlength)
  obtain rfl : first = byte := by simpa using hhead
  refine ⟨by simpa using hdrop, ?_, by simpa using hle⟩
  rw [UInt32.toNat_add, UInt32.toNat_one, Nat.mod_eq_of_lt (by omega)]

end NdefArea

namespace Ndef

open NdefArea

variable {area : NdefArea}

/-! ## Headers -/

theorem toUInt32_bytesToNumBe_one (byte : UInt8) :
    (bitLibBytesToNumBe [byte]).toUInt32 = byte.toUInt32 := by
  simp [bitLibBytesToNumBe]

/-- The bytes of the lengths are at the position, and nothing is between them. -/
theorem readLengths_some {flags : UInt8} {pos payloadLen idLen next : UInt32}
    (hpos : pos.toNat ≤ area.content.length)
    (hread : readLengths area flags pos = some (payloadLen, idLen, next)) :
    ∃ payloadLength idLength : List UInt8,
      area.content.drop pos.toNat =
        payloadLength ++ (idLength ++ area.content.drop next.toNat) ∧
      payloadLength.length = (if shortRecord flags then 1 else 4) ∧
      idLength.length = (if idLengthPresent flags then 1 else 0) ∧
      payloadLen = (bitLibBytesToNumBe payloadLength).toUInt32 ∧
      idLen.toNat = (idLength.headD 0).toNat ∧
      next.toNat = pos.toNat + payloadLength.length + idLength.length ∧
      next.toNat ≤ area.content.length := by
  have hlimit := area.length_le
  -- First the length of the payload, of one or of four bytes.
  obtain ⟨middle, payloadLength, hdrop, hlength, hnum, hmiddle, hle, hrest⟩ :
      ∃ (middle : UInt32) (payloadLength : List UInt8),
        area.content.drop pos.toNat = payloadLength ++ area.content.drop middle.toNat ∧
        payloadLength.length = (if shortRecord flags then 1 else 4) ∧
        payloadLen = (bitLibBytesToNumBe payloadLength).toUInt32 ∧
        middle.toNat = pos.toNat + payloadLength.length ∧
        middle.toNat ≤ area.content.length ∧
        (if idLengthPresent flags then
          (getByte area middle).map fun idLen => (payloadLen, idLen.toUInt32, middle + 1)
        else some (payloadLen, 0, middle)) = some (payloadLen, idLen, next) := by
    unfold readLengths at hread
    by_cases hshort : shortRecord flags
    · simp only [if_pos hshort] at hread ⊢
      cases hbyte : getByte area pos with
      | none => simp [hbyte] at hread
      | some byte =>
        obtain ⟨hdrop, hnext, hle⟩ := getByte_some hpos hbyte
        simp only [hbyte, Option.map_some] at hread
        obtain rfl : byte.toUInt32 = payloadLen := by
          split at hread
          · obtain ⟨_, -, heq⟩ := Option.map_eq_some_iff.mp hread
            exact congrArg Prod.fst heq
          · exact congrArg Prod.fst (Option.some.inj hread)
        refine ⟨pos + 1, [byte], ?_, by simp, (toUInt32_bytesToNumBe_one byte).symm, hnext,
          by omega, hread⟩
        simpa [hnext] using hdrop
    · simp only [if_neg hshort] at hread ⊢
      cases hget : area.get pos 4 with
      | none => simp [getNum, hget] at hread
      | some bytes =>
        obtain ⟨hdrop, hlength, hle⟩ := get_some (by simp; omega) hget
        have hnext : (pos + 4).toNat = pos.toNat + 4 := by
          rw [UInt32.toNat_add]
          exact Nat.mod_eq_of_lt (by simp; omega)
        simp only [getNum, hget, Option.map_some] at hread
        obtain rfl : (bitLibBytesToNumBe bytes).toUInt32 = payloadLen := by
          split at hread
          · obtain ⟨_, -, heq⟩ := Option.map_eq_some_iff.mp hread
            exact congrArg Prod.fst heq
          · exact congrArg Prod.fst (Option.some.inj hread)
        refine ⟨pos + 4, bytes, ?_, by simpa using hlength, rfl, ?_, by simpa [hnext] using hle,
          hread⟩
        · rw [hnext]
          exact hdrop
        · rw [hnext, hlength]
          rfl
  -- Then the length of the id, when there is one.
  by_cases hid : idLengthPresent flags
  · rw [if_pos hid] at hrest
    obtain ⟨byte, hbyte, heq⟩ := Option.map_eq_some_iff.mp hrest
    obtain ⟨hdropId, hnext, hleId⟩ := getByte_some hle hbyte
    simp only [Prod.mk.injEq, true_and] at heq
    obtain ⟨rfl, rfl⟩ := heq
    refine ⟨payloadLength, [byte], ?_, hlength, by simp [hid], hnum, by simp, ?_, by omega⟩
    · rw [hdrop, hdropId, hnext]
      rfl
    · rw [hnext, hmiddle]
      rfl
  · rw [if_neg hid] at hrest
    simp only [Option.some.injEq, Prod.mk.injEq, true_and] at hrest
    obtain ⟨rfl, rfl⟩ := hrest
    refine ⟨payloadLength, [], by simpa using hdrop, hlength, by simp [hid], hnum, by simp, ?_, hle⟩
    simpa using hmiddle

/-- The bytes at a position from which a header is read. -/
structure HeadAt (area : NdefArea) (pos : ℕ) (header : NdefHeader) (typeLen : UInt8)
    (payloadLength idLength : List UInt8) : Prop where
  drop_eq : area.content.drop pos =
    header.flags :: typeLen :: (payloadLength ++ (idLength ++ (header.type ++
      area.content.drop (pos + 2 + payloadLength.length + idLength.length + typeLen.toNat))))
  payloadLength_length : payloadLength.length = if shortRecord header.flags then 1 else 4
  idLength_length : idLength.length = if idLengthPresent header.flags then 1 else 0
  type_length : header.type.length = typeLen.toNat
  payloadLen_eq : header.payloadLen = (bitLibBytesToNumBe payloadLength).toUInt32
  payloadPos_eq : header.payloadPos.toNat =
    pos + 2 + payloadLength.length + idLength.length + typeLen.toNat + (idLength.headD 0).toNat

theorem readType_some {pos : UInt32} {typeLen : UInt8} {type : List UInt8}
    (hpos : pos.toNat ≤ area.content.length)
    (hread : (if typeLen ≠ 0 then area.get pos typeLen.toUInt32 else some []) = some type) :
    area.content.drop pos.toNat = type ++ area.content.drop (pos.toNat + typeLen.toNat) ∧
      type.length = typeLen.toNat ∧ pos.toNat + typeLen.toNat ≤ area.content.length := by
  have hlimit := area.length_le
  have hbyte := typeLen.toNat_lt
  split at hread
  · obtain ⟨hdrop, hlength, hle⟩ := get_some (by simp; omega) hread
    exact ⟨by simpa using hdrop, by simpa using hlength, by simpa using hle⟩
  · rename_i hzero
    obtain rfl : typeLen = 0 := not_not.mp hzero
    obtain rfl := Option.some.inj hread
    exact ⟨by simp, rfl, by simpa⟩

theorem readHeader_some {pos : UInt32} {recordNum : ℕ} {lastRecord : Bool} {header : NdefHeader}
    (hpos : pos.toNat ≤ area.content.length)
    (hread : readHeader area pos recordNum lastRecord = some header) :
    lastRecord = false ∧ chunkFlag header.flags = false ∧
      (recordNum ≠ 0 → messageBegin header.flags = false) ∧
      ∃ typeLen payloadLength idLength,
        HeadAt area pos.toNat header typeLen payloadLength idLength := by
  have hlimit := area.length_le
  unfold readHeader at hread
  split at hread
  · exact absurd hread (by simp)
  rename_i flags hflags
  obtain ⟨hdrop₀, hnext₀, hle₀⟩ := getByte_some hpos hflags
  split at hread
  · exact absurd hread (by simp)
  rename_i hchecks
  simp only [not_or, not_and, Bool.not_eq_true] at hchecks
  split at hread
  · exact absurd hread (by simp)
  rename_i typeLen htypeLen
  obtain ⟨hdrop₁, hnext₁, hle₁⟩ := getByte_some (by omega) htypeLen
  have hnext₂ : (pos + 2).toNat = pos.toNat + 2 := by
    rw [show pos + 2 = pos + 1 + 1 by rw [UInt32.add_assoc]; rfl, hnext₁, hnext₀]
  split at hread
  · exact absurd hread (by simp)
  rename_i payloadLen idLen next hlengths
  obtain ⟨payloadLength, idLength, hdrop₂, hpayloadLength, hidLength, hnum, hidLen, hnext, hle⟩ :=
    readLengths_some (by omega) hlengths
  obtain ⟨type, htype, rfl⟩ := Option.map_eq_some_iff.mp hread
  obtain ⟨hdrop₃, htypeLength, hle₃⟩ := readType_some hle htype
  refine ⟨hchecks.2.1, hchecks.2.2, hchecks.1, typeLen, payloadLength, idLength, ?_⟩
  have hbytes := typeLen.toNat_lt
  have hidByte := (idLength.headD 0).toNat_lt
  constructor
  · have hsum : pos.toNat + 2 + payloadLength.length + idLength.length + typeLen.toNat =
        next.toNat + typeLen.toNat := by omega
    rw [hsum, ← hdrop₃, ← hdrop₂, hnext₂, hdrop₀, ← hnext₀, hdrop₁, hnext₀]
  · exact hpayloadLength
  · exact hidLength
  · exact htypeLength
  · exact hnum
  · show (next + typeLen.toUInt32 + idLen).toNat = _
    rw [UInt32.toNat_add, UInt32.toNat_add, UInt8.toNat_toUInt32, hidLen, Nat.mod_add_mod,
      Nat.mod_eq_of_lt (by omega)]
    omega

/-! ## Records -/

section Head

variable {pos : ℕ} {header : NdefHeader} {typeLen : UInt8} {payloadLength idLength : List UInt8}

/-- A header of which the payload ends inside of the content is one of a record. -/
theorem HeadAt.record (hhead : HeadAt area pos header typeLen payloadLength idLength)
    (hchunk : chunkFlag header.flags = false)
    (hend : header.payloadPos.toNat + header.payloadLen.toNat ≤ area.content.length) :
    ∃ record : NdefRecord, record.flags = header.flags ∧ record.type = header.type ∧
      area.content.drop pos = record.bytes ++
        area.content.drop (header.payloadPos.toNat + header.payloadLen.toNat) ∧
      record.payload =
        (area.content.drop header.payloadPos.toNat).take header.payloadLen.toNat ∧
      pos + record.bytes.length = header.payloadPos.toNat + header.payloadLen.toNat := by
  obtain ⟨start, hstart⟩ : ∃ start, start =
    pos + 2 + payloadLength.length + idLength.length + typeLen.toNat := ⟨_, rfl⟩
  have hdrop := hhead.drop_eq
  have hpayloadPos := hhead.payloadPos_eq
  rw [← hstart] at hdrop hpayloadPos
  let record : NdefRecord :=
    { flags := header.flags
      typeLen := typeLen
      payloadLength := payloadLength
      idLength := idLength
      type := header.type
      id := (area.content.drop start).take (idLength.headD 0).toNat
      payload := (area.content.drop header.payloadPos.toNat).take header.payloadLen.toNat
      unchunked := hchunk
      payloadLength_length := hhead.payloadLength_length
      idLength_length := hhead.idLength_length
      type_length := hhead.type_length
      id_length := by
        rw [List.length_take, List.length_drop]
        omega
      payload_length := by
        rw [List.length_take, List.length_drop, ← hhead.payloadLen_eq]
        omega }
  have htail : area.content.drop start = record.id ++ (record.payload ++
      area.content.drop (header.payloadPos.toNat + header.payloadLen.toNat)) := by
    show _ = (area.content.drop start).take _ ++
      ((area.content.drop header.payloadPos.toNat).take _ ++ _)
    rw [← List.drop_drop, List.take_append_drop, hpayloadPos, ← List.drop_drop,
      List.take_append_drop]
  refine ⟨record, rfl, rfl, ?_, rfl, ?_⟩
  · rw [hdrop, htail]
    simp [NdefRecord.bytes, NdefRecord.head, record]
  · have hid := record.id_length
    have hpayload := record.payload_length
    have htype := hhead.type_length
    have hnum := hhead.payloadLen_eq
    simp only [NdefRecord.bytes, NdefRecord.head, List.length_append, List.length_cons]
    simp only [record] at hid hpayload ⊢
    rw [hid, hpayload, htype, ← hnum]
    omega

theorem HeadAt.eq_record (hhead : HeadAt area pos header typeLen payloadLength idLength)
    (record : NdefRecord) {rest : List UInt8}
    (hrecord : area.content.drop pos = record.bytes ++ rest) :
    record.flags = header.flags ∧ record.type = header.type ∧
      header.payloadLen.toNat = record.payload.length ∧
      header.payloadPos.toNat + header.payloadLen.toNat = pos + record.bytes.length := by
  have heq := hhead.drop_eq.symm.trans hrecord
  simp only [NdefRecord.bytes, NdefRecord.head, List.cons_append, List.append_assoc,
    List.cons.injEq] at heq
  obtain ⟨hflags, htypeLen, htail⟩ := heq
  obtain ⟨hpayloadLength, htail⟩ := List.append_inj htail
    (by rw [hhead.payloadLength_length, record.payloadLength_length, hflags])
  obtain ⟨hidLength, htail⟩ := List.append_inj htail
    (by rw [hhead.idLength_length, record.idLength_length, hflags])
  obtain ⟨htype, -⟩ := List.append_inj htail
    (by rw [hhead.type_length, record.type_length, htypeLen])
  have hlen : header.payloadLen.toNat = record.payload.length := by
    rw [hhead.payloadLen_eq, hpayloadLength, record.payload_length]
  refine ⟨hflags.symm, htype.symm, hlen, ?_⟩
  have htypeLength := record.type_length
  have hid := record.id_length
  rw [hlen, hhead.payloadPos_eq, hpayloadLength, hidLength, htypeLen, ← htypeLength, ← hid]
  simp only [NdefRecord.bytes, NdefRecord.head, List.length_append, List.length_cons]
  omega

end Head

/-! ## The records of a range -/

/-- What is still to come of a message, by the number of records before and whether the last one of
them is marked as the end. -/
def Remaining (nested : List UInt8 → Prop) : ℕ → Bool → List NdefRecord → Prop
  | recordNum, lastRecord, [] => lastRecord = true ∨ recordNum = 0
  | recordNum, lastRecord, record :: records =>
    lastRecord = false ∧ (recordNum ≠ 0 → messageBegin record.flags = false) ∧
      (record.kind = some .smartPoster → record.payload ≠ [] → nested record.payload) ∧
      Remaining nested (recordNum + 1) (messageEnd record.flags) records

theorem remaining_succ_iff {nested : List UInt8 → Prop} :
    ∀ {records : List NdefRecord} {recordNum : ℕ},
      Remaining nested (recordNum + 1) false records ↔
        records ≠ [] ∧ (∀ record ∈ records, messageBegin record.flags = false) ∧
          (∀ record ∈ records.dropLast, messageEnd record.flags = false) ∧
          (∀ record ∈ records.getLast?, messageEnd record.flags = true) ∧
          ∀ record ∈ records, record.kind = some .smartPoster → record.payload ≠ [] →
            nested record.payload
  | [], recordNum => by simp [Remaining]
  | [record], recordNum => by
    simp only [Remaining, List.forall_mem_singleton]
    simp
    tauto
  | record :: next :: records, recordNum => by
    cases hend : messageEnd record.flags with
    | true => simp [Remaining, hend]
    | false =>
      have ih := @remaining_succ_iff nested (next :: records) (recordNum + 1)
      rw [Remaining, hend, ih]
      simp only [List.forall_mem_cons, List.dropLast_cons_cons, List.getLast?_cons_cons, hend,
        Nat.succ_ne_zero, ne_eq, not_false_eq_true, true_implies, true_and, reduceCtorEq]
      tauto

theorem remaining_iff {nested : List UInt8 → Prop} {records : List NdefRecord} :
    Remaining nested 0 false records ↔
      Marked records ∧ ∀ record ∈ records, record.kind = some .smartPoster →
        record.payload ≠ [] → nested record.payload := by
  match records with
  | [] => exact ⟨fun _ => ⟨⟨by simp, by simp, by simp⟩, by simp⟩, fun _ => .inr rfl⟩
  | [record] =>
    refine ⟨fun h => ⟨⟨by simp, by simp, ?_⟩, by simpa using h.2.2.1⟩, fun h => ?_⟩
    · simpa [Remaining] using h.2.2.2
    · refine ⟨rfl, by simp, by simpa using h.2, ?_⟩
      simpa [Remaining] using h.1.ends
  | record :: next :: records =>
    cases hend : messageEnd record.flags with
    | true =>
      refine ⟨fun h => ?_, fun h => ?_⟩
      · simp [Remaining, hend] at h
      · have := h.1.continues record (by simp)
        simp [hend] at this
    | false =>
      rw [Remaining, hend, remaining_succ_iff]
      refine ⟨fun ⟨_, _, hfirst, _, hbegins, hcontinues, hends, hnested⟩ =>
        ⟨⟨hbegins, ?_, by simpa using hends⟩, ?_⟩, fun ⟨hmarked, hnested⟩ =>
        ⟨rfl, by simp, hnested record (by simp), by simp, hmarked.begins, ?_, ?_,
          fun other hother => hnested other (by simp [hother])⟩⟩
      · simp only [List.dropLast_cons_cons, List.forall_mem_cons]
        exact ⟨hend, hcontinues⟩
      · simp only [List.forall_mem_cons]
        exact ⟨hfirst, by simpa using hnested⟩
      · exact fun other hother => hmarked.continues other (by simp [hother])
      · simpa using hmarked.ends

/-- The bytes of a range are records, with which the message is one. -/
def Between (area : NdefArea) (nested : List UInt8 → Prop) (pos stop recordNum : ℕ)
    (lastRecord : Bool) : Prop :=
  ∃ records : List NdefRecord,
    (area.content.drop pos).take (stop - pos) = records.flatMap NdefRecord.bytes ∧
      Remaining nested recordNum lastRecord records

theorem between_message {nested : List UInt8 → Prop} {pos stop : ℕ} :
    Between area nested pos stop 0 false ↔
      MessageOf nested ((area.content.drop pos).take (stop - pos)) :=
  exists_congr fun _ => and_congr_right' remaining_iff

theorem bytes_ne_nil (record : NdefRecord) : record.bytes ≠ [] := by
  simp [NdefRecord.bytes, NdefRecord.head]

theorem between_self {nested : List UInt8 → Prop} {pos recordNum : ℕ} {lastRecord : Bool} :
    Between area nested pos pos recordNum lastRecord ↔ lastRecord = true ∨ recordNum = 0 := by
  refine ⟨fun ⟨records, hbytes, hremaining⟩ => ?_, fun h => ⟨[], by simp, h⟩⟩
  cases records with
  | nil => exact hremaining
  | cons record records =>
    have hempty : record.bytes = [] := by
      simp only [Nat.sub_self, List.take_zero, List.flatMap_cons] at hbytes
      exact (List.append_eq_nil_iff.mp hbytes.symm).1
    exact absurd hempty (bytes_ne_nil record)

/-- The range is a message exactly if the record with the header ends in it, its payload is as it
has to be, and what is behind it is the rest of the message. -/
theorem between_step {nested : List UInt8 → Prop} {pos stop recordNum : ℕ} {header : NdefHeader}
    {typeLen : UInt8} {payloadLength idLength : List UInt8}
    (hhead : HeadAt area pos header typeLen payloadLength idLength)
    (hchunk : chunkFlag header.flags = false)
    (hbegin : recordNum ≠ 0 → messageBegin header.flags = false)
    (hpos : pos < stop) (hstop : stop ≤ area.content.length) :
    Between area nested pos stop recordNum false ↔
      header.payloadPos.toNat + header.payloadLen.toNat ≤ stop ∧
      (kindOf (typeNameFormat header.flags) header.type = some .smartPoster →
        header.payloadLen ≠ 0 →
        nested ((area.content.drop header.payloadPos.toNat).take header.payloadLen.toNat)) ∧
      Between area nested (header.payloadPos.toNat + header.payloadLen.toNat) stop (recordNum + 1)
        (messageEnd header.flags) := by
  obtain ⟨finish, hfinish⟩ : ∃ finish, finish =
    header.payloadPos.toNat + header.payloadLen.toNat := ⟨_, rfl⟩
  have hlenZero : header.payloadLen = 0 ↔ header.payloadLen.toNat = 0 :=
    ⟨fun h => by simp [h], fun h => UInt32.toNat_inj.mp (by simpa using h)⟩
  rw [← hfinish]
  constructor
  · rintro ⟨records, hbytes, hremaining⟩
    cases records with
    | nil =>
      have hlength := congrArg List.length hbytes
      simp at hlength
      omega
    | cons record records =>
      obtain ⟨-, -, hnested, hrest⟩ := hremaining
      rw [List.flatMap_cons] at hbytes
      have hdrop : area.content.drop pos = record.bytes ++
          (records.flatMap NdefRecord.bytes ++ area.content.drop stop) := by
        conv_lhs => rw [← List.take_append_drop (stop - pos) (area.content.drop pos), hbytes,
          List.drop_drop, Nat.add_sub_cancel' hpos.le]
        rw [List.append_assoc]
      obtain ⟨hflags, htype, hlen, hsum⟩ := hhead.eq_record record hdrop
      have hlength := congrArg List.length hbytes
      simp only [List.length_take, List.length_drop, List.length_append] at hlength
      have hfinishDrop : area.content.drop finish =
          records.flatMap NdefRecord.bytes ++ area.content.drop stop := by
        rw [hfinish, hsum, ← List.drop_drop, hdrop, List.drop_left]
      refine ⟨by omega, ?_, records, ?_, ?_⟩
      · intro hkind hne
        have hpayload : (area.content.drop header.payloadPos.toNat).take header.payloadLen.toNat =
            record.payload := by
          have hfront : pos + (record.head ++ record.id).length = header.payloadPos.toNat := by
            simp only [NdefRecord.bytes, List.length_append] at hsum ⊢
            omega
          have hparts : area.content.drop pos = record.head ++ record.id ++ (record.payload ++
              (records.flatMap NdefRecord.bytes ++ area.content.drop stop)) := by
            rw [hdrop]
            simp only [NdefRecord.bytes, List.append_assoc]
          rw [← hfront, ← List.drop_drop, hparts, List.drop_left, hlen, List.take_left]
        rw [hpayload]
        refine hnested ?_ ?_
        · rw [NdefRecord.kind, hflags, htype]
          exact hkind
        · intro hempty
          exact hne (hlenZero.mpr (by rw [hlen, hempty]; rfl))
      · rw [hfinishDrop]
        refine List.take_left' ?_
        omega
      · rw [← hflags]
        exact hrest
  · rintro ⟨hle, hnested, records, hbytes, hremaining⟩
    obtain ⟨record, hflags, htype, hdrop, hpayload, hsum⟩ :=
      hhead.record hchunk (by omega)
    rw [← hfinish] at hdrop hsum
    refine ⟨record :: records, ?_, rfl, ?_, ?_, ?_⟩
    · rw [hdrop, List.flatMap_cons, ← hbytes, List.take_append,
        List.take_of_length_le (by omega), show stop - pos - record.bytes.length = stop - finish by
          omega]
    · rw [hflags]
      exact hbegin
    · intro hkind hne
      rw [hpayload] at hne ⊢
      refine hnested ?_ ?_
      · rw [← hflags, ← htype]
        exact hkind
      · intro hzero
        exact hne (by rw [hlenZero.mp hzero]; rfl)
    · rw [hflags]
      exact hremaining

/-! ## The loop -/

/-- What the payload of a smart poster has to be when there may be so many more inside of each
other. -/
def Poster : ℕ → List UInt8 → Prop
  | 0 => fun _ => False
  | depth + 1 => IsMessage depth

theorem isMessage_eq (depth : ℕ) : IsMessage depth = MessageOf (Poster depth) := by
  cases depth <;> rfl

theorem parseLoop_ok {fuel depth : ℕ} {stop pos : UInt32} {recordNum : ℕ} {lastRecord : Bool}
    {parsed : Parsed}
    (hrun : parseLoop area (fuel + 1) depth stop pos recordNum lastRecord = some parsed)
    (hok : parsed.ok = true) :
    (pos = stop ∧ (lastRecord = true ∨ recordNum = 0) ∧ parsed.records = []) ∨
    pos < stop ∧ ∃ header record rest,
      readHeader area pos recordNum lastRecord = some header ∧
      parseRecord area (fun pos len => parseLoop area fuel (depth + 1) (pos + len) pos 0 false) fuel
        depth header = some record ∧ record.ok = true ∧
      parseLoop area fuel depth stop (header.payloadPos + header.payloadLen) (recordNum + 1)
        (messageEnd header.flags) = some rest ∧ rest.ok = true ∧
      parsed.records = header :: record.records ++ rest.records := by
  rw [parseLoop] at hrun
  by_cases hpos : pos < stop
  · rw [if_pos hpos] at hrun
    cases hheader : readHeader area pos recordNum lastRecord with
    | none =>
      simp only [hheader, Option.some.injEq] at hrun
      exact absurd hok (by simp [← hrun])
    | some header =>
      simp only [hheader] at hrun
      cases hrecord : parseRecord area
          (fun pos len => parseLoop area fuel (depth + 1) (pos + len) pos 0 false) fuel depth
          header with
      | none => simp [hrecord] at hrun
      | some record =>
        simp only [hrecord] at hrun
        by_cases hrecordOk : record.ok = true
        · rw [if_pos hrecordOk] at hrun
          obtain ⟨rest, hrest, rfl⟩ := Option.map_eq_some_iff.mp hrun
          exact .inr ⟨hpos, header, record, rest, rfl, hrecord, hrecordOk, hrest, hok, rfl⟩
        · rw [if_neg hrecordOk, Option.some.injEq] at hrun
          exact absurd hok (by simp [← hrun])
  · rw [if_neg hpos, Option.some.injEq] at hrun
    subst hrun
    simp only [Bool.and_eq_true, beq_iff_eq, Bool.or_eq_true] at hok
    exact .inl ⟨hok.1, hok.2, rfl⟩

theorem parseLoop_le {fuel depth : ℕ} {stop pos : UInt32} {recordNum : ℕ} {lastRecord : Bool}
    {parsed : Parsed}
    (hrun : parseLoop area fuel depth stop pos recordNum lastRecord = some parsed)
    (hok : parsed.ok = true) : pos.toNat ≤ stop.toNat := by
  cases fuel with
  | zero => exact absurd hrun (by simp [parseLoop])
  | succ fuel =>
    rcases parseLoop_ok hrun hok with ⟨rfl, -, -⟩ | ⟨hpos, -⟩
    · exact le_rfl
    · exact (UInt32.lt_iff_toNat_lt.mp hpos).le

theorem toNat_payloadEnd {header : NdefHeader} (hfits : header.Fits) :
    (header.payloadPos + header.payloadLen).toNat =
      header.payloadPos.toNat + header.payloadLen.toNat := by
  rw [UInt32.toNat_add, Nat.mod_eq_of_lt hfits]

/-- What a record adds to the records that are reached is what its smart poster does. -/
theorem parseRecord_ok {fuel depth : ℕ} {header : NdefHeader} {record : Parsed}
    {parse : UInt32 → UInt32 → Option Parsed}
    (hrun : parseRecord area parse fuel depth header = some record) (hok : record.ok = true) :
    record.records = [] ∧ (kindOf (typeNameFormat header.flags) header.type ≠ some .smartPoster ∨
        header.payloadLen = 0) ∨
      depth < NDEF_SMART_POSTER_MAX_DEPTH ∧ header.payloadLen ≠ 0 ∧
        kindOf (typeNameFormat header.flags) header.type = some .smartPoster ∧
        parse header.payloadPos header.payloadLen = some record := by
  rw [parseRecord] at hrun
  by_cases hlen : header.payloadLen = 0
  · rw [if_pos hlen, Option.some.injEq] at hrun
    exact .inl ⟨by rw [← hrun], .inr hlen⟩
  · rw [if_neg hlen] at hrun
    split at hrun
    · rename_i hkind
      by_cases hdepth : NDEF_SMART_POSTER_MAX_DEPTH ≤ depth
      · rw [if_pos hdepth, Option.some.injEq] at hrun
        exact absurd hok (by simp [← hrun])
      · rw [if_neg hdepth] at hrun
        exact .inr ⟨not_le.mp hdepth, hlen, hkind, hrun⟩
    all_goals
      rename_i hkind
      refine .inl ⟨?_, .inl (by simp [hkind])⟩
    · rw [← Option.some.inj hrun]
    · rw [← Option.some.inj hrun]
    · rw [← Option.some.inj hrun]
    · obtain ⟨_, -, rfl⟩ := Option.map_eq_some_iff.mp hrun
      rfl
    · obtain ⟨_, -, rfl⟩ := Option.map_eq_some_iff.mp hrun
      rfl
    · rw [← Option.some.inj hrun]

/-- A range that is accepted is a message exactly if no record that is reached wraps. -/
theorem parseLoop_iff : ∀ {fuel depth : ℕ} {stop pos : UInt32} {recordNum : ℕ} {lastRecord : Bool}
    {parsed : Parsed}, stop.toNat ≤ area.content.length →
    parseLoop area fuel depth stop pos recordNum lastRecord = some parsed → parsed.ok = true →
      (Between area (Poster (NDEF_SMART_POSTER_MAX_DEPTH - depth)) pos.toNat stop.toNat recordNum
        lastRecord ↔ ∀ header ∈ parsed.records, header.Fits) := by
  intro fuel
  induction fuel with
  | zero =>
    intro depth stop pos recordNum lastRecord parsed _ hrun _
    exact absurd hrun (by simp [parseLoop])
  | succ fuel ih =>
    intro depth stop pos recordNum lastRecord parsed hstop hrun hok
    rcases parseLoop_ok hrun hok with ⟨rfl, hlast, hrecords⟩ |
      ⟨hpos, header, record, rest, hheader, hrecord, hrecordOk, hrest, hrestOk, hrecords⟩
    · rw [hrecords, between_self]
      simpa using hlast
    have hlt : pos.toNat < stop.toNat := UInt32.lt_iff_toNat_lt.mp hpos
    have hlimit := area.length_le
    obtain ⟨rfl, hchunk, hbegin, typeLen, payloadLength, idLength, hhead⟩ :=
      readHeader_some (by omega) hheader
    rw [between_step hhead hchunk hbegin hlt hstop, hrecords]
    simp only [List.cons_append, List.forall_mem_cons, List.forall_mem_append]
    -- Either side says that the record ends in front of where the numbers wrap.
    by_cases hfits : header.Fits
    swap
    · refine iff_of_false (fun h => hfits ?_) (fun h => hfits h.1)
      have hle := h.1
      unfold NdefHeader.Fits
      omega
    have hend := toNat_payloadEnd hfits
    have hrestIff := ih hstop hrest hrestOk
    rw [hend] at hrestIff
    have hle : header.payloadPos.toNat + header.payloadLen.toNat ≤ stop.toNat := by
      rw [← hend]
      exact parseLoop_le hrest hrestOk
    have hposter : (kindOf (typeNameFormat header.flags) header.type = some .smartPoster →
        header.payloadLen ≠ 0 → Poster (NDEF_SMART_POSTER_MAX_DEPTH - depth)
          ((area.content.drop header.payloadPos.toNat).take header.payloadLen.toNat)) ↔
        ∀ header ∈ record.records, header.Fits := by
      rcases parseRecord_ok hrecord hrecordOk with ⟨hnone, hkind⟩ | ⟨hdepth, hlen, hkind, hnested⟩
      · rw [hnone]
        refine iff_of_true (fun hsmart hne => ?_) (by simp)
        rcases hkind with hkind | hzero
        · exact absurd hsmart hkind
        · exact absurd hzero hne
      · have hnestedIff := ih (by rw [hend]; omega) hnested hrecordOk
        rw [hend, between_message, ← isMessage_eq, Nat.add_sub_cancel_left] at hnestedIff
        rw [← hnestedIff, show NDEF_SMART_POSTER_MAX_DEPTH - depth =
          NDEF_SMART_POSTER_MAX_DEPTH - (depth + 1) + 1 by omega]
        exact ⟨fun h => h hkind hlen, fun h _ _ => h⟩
    rw [hposter, hrestIff]
    exact ⟨fun h => ⟨hfits, h.2.1, h.2.2⟩, fun h => ⟨hle, h.2.1, h.2.2⟩⟩

/-! ## Types -/

theorem strncmpEq_iff {literal type : List UInt8} :
    strncmpEq literal type = true ↔ type <+: literal ∨ literal ++ [0] <+: type := by
  induction literal generalizing type with
  | nil =>
    cases type with
    | nil => simp [strncmpEq]
    | cons byte type =>
      simp only [strncmpEq, beq_iff_eq, List.nil_append, List.cons_prefix_cons]
      simp [eq_comm (a := byte)]
  | cons char literal ih =>
    cases type with
    | nil => simp [strncmpEq]
    | cons byte type =>
      simp only [strncmpEq, Bool.and_eq_true, beq_iff_eq, ih, List.cons_append,
        List.cons_prefix_cons]
      tauto

theorem typeString_literal {tnf : UInt8} :
    ∀ literal ∈ literals tnf, typeString literal.2 = literal.1 := by
  unfold literals
  split_ifs <;> simp [typeString]

theorem literals_apart {tnf : UInt8} : ∀ literal ∈ literals tnf, ∀ other ∈ literals tnf,
    ¬ ((literal.1 <+: other.1 ∧ literal.1 ≠ other.1) ∨ other.1 ++ [0] <+: literal.1) := by
  unfold literals
  split_ifs
  · decide
  · decide +kernel
  · simp

theorem kindOf_exact_iff {tnf : UInt8} {type : List UInt8} :
    (∀ kind, kindOf tnf type = some kind → type = typeString kind) ↔ ¬ Mistaken tnf type := by
  constructor
  · rintro hexact ⟨literal, hliteral, hmistaken⟩
    have hmatch : strncmpEq literal.1 type = true :=
      strncmpEq_iff.mpr (hmistaken.imp_left And.left)
    obtain ⟨found, hfound⟩ := Option.isSome_iff_exists.mp
      (List.find?_isSome (p := fun literal => strncmpEq literal.1 type) |>.mpr
        ⟨literal, hliteral, hmatch⟩)
    have hmem := List.mem_of_find?_eq_some hfound
    have htype := hexact found.2 (by rw [kindOf, hfound]; rfl)
    rw [typeString_literal found hmem] at htype
    rw [htype] at hmistaken
    exact literals_apart found hmem literal hliteral hmistaken
  · intro hmistaken kind hkind
    obtain ⟨literal, hfound, rfl⟩ := Option.map_eq_some_iff.mp hkind
    have hmem := List.mem_of_find?_eq_some hfound
    rw [typeString_literal literal hmem]
    have hmatch : strncmpEq literal.1 type = true :=
      List.find?_some (p := fun literal : List UInt8 × NdefKind => strncmpEq literal.1 type) hfound
    rcases strncmpEq_iff.mp hmatch with hbefore | hzero
    · by_contra hne
      exact hmistaken ⟨literal, hmem, .inl ⟨hbefore, hne⟩⟩
    · exact absurd ⟨literal, hmem, .inr hzero⟩ hmistaken

/-! ## Messages -/

theorem isMessage_iff {fuel depth : ℕ} {pos len : UInt32} {parsed : Parsed}
    (hrange : pos.toNat + len.toNat ≤ area.content.length)
    (hrun : parseMessage area fuel depth pos len = some parsed) (hok : parsed.ok = true) :
    IsMessage (NDEF_SMART_POSTER_MAX_DEPTH - depth)
        ((area.content.drop pos.toNat).take len.toNat) ↔
      ∀ header ∈ parsed.records, header.Fits := by
  have hlimit := area.length_le
  have hstop : (pos + len).toNat = pos.toNat + len.toNat := by
    rw [UInt32.toNat_add, Nat.mod_eq_of_lt (by omega)]
  have hloop := parseLoop_iff (by rw [hstop]; exact hrange) hrun hok
  rw [hstop, between_message, ← isMessage_eq, Nat.add_sub_cancel_left] at hloop
  exact hloop

/-- The grammar is kept exactly if no record that is reached has a type that is mistaken for one of
the literals, and none wraps in a range that is accepted. -/
theorem parseMessage_iff {fuel depth : ℕ} {pos len : UInt32} {parsed : Parsed}
    (hrange : pos.toNat + len.toNat ≤ area.content.length)
    (hrun : parseMessage area fuel depth pos len = some parsed) :
    FollowsGrammar area depth pos.toNat len.toNat parsed ↔
      (parsed.ok = true → ∀ header ∈ parsed.records, header.Fits) ∧
      ∀ header ∈ parsed.records, header.payloadLen ≠ 0 →
        ¬ Mistaken (typeNameFormat header.flags) header.type := by
  refine and_congr (forall_congr' fun hok => isMessage_iff hrange hrun hok) ?_
  exact forall₂_congr fun header _ => forall_congr' fun _ => kindOf_exact_iff

/-- A text. -/
theorem parseMessage_text :
    FollowsGrammar (.contiguous [0xD1, 1, 4, 0x54, 2, 0x65, 0x6E, 0x41] (by simp)) 0 0 8
      ⟨true, [⟨0xD1, [0x54], 4, 4⟩]⟩ := by
  refine (@parseMessage_iff _ 3 0 0 8 _ (by simp [NdefArea.contiguous])
    (by decide +kernel)).mpr ⟨fun _ => ?_, ?_⟩
  · simp [NdefHeader.Fits]
  · simp only [List.forall_mem_singleton]
    intro _
    refine kindOf_exact_iff.mp fun kind hkind => ?_
    obtain rfl : NdefKind.text = kind := Option.some.inj hkind
    decide

/-- A record of Wi-Fi data of which the length leads back to the begin of the memory. -/
def wrapping : NdefArea :=
  .contiguous ([0x50, 0, 30, 2, 23, 0xFF, 0xFF, 0xFF, 0xE0] ++
    ascii "application/vnd.wfa.wsc" ++ [0]) (by decide)

/-- A record with the type `S`. -/
def mistaking : NdefArea := .contiguous [0xD1, 1, 3, 0x53, 0xD0, 0, 0] (by decide)

theorem parseMessage_wrapping : parseMessage wrapping 3 0 3 30 =
    some ⟨true, [⟨2, ascii "application/vnd.wfa.wsc", 32, 0xFFFFFFE0⟩, ⟨0x50, [], 3, 30⟩]⟩ := by
  decide +kernel

/-- What is accepted is no message, and the type `S` is taken for that of a smart poster. -/
theorem not_followsGrammar :
    (∃ parsed, parseMessage wrapping 3 0 3 30 = some parsed ∧
      ¬ FollowsGrammar wrapping 0 3 30 parsed) ∧
    ∃ parsed, parseMessage mistaking 3 0 0 7 = some parsed ∧
      ¬ FollowsGrammar mistaking 0 0 7 parsed := by
  constructor
  · refine ⟨_, parseMessage_wrapping, fun h => ?_⟩
    have hfits := (isMessage_iff (by decide) parseMessage_wrapping rfl).mp (h.1 rfl)
    exact absurd (hfits _ List.mem_cons_self) (by simp [NdefHeader.Fits])
  · refine ⟨⟨true, [⟨0xD1, [0x53], 4, 3⟩, ⟨0xD0, [], 7, 0⟩]⟩, by decide +kernel, fun h => ?_⟩
    have htype := h.2 ⟨0xD1, [0x53], 4, 3⟩ (by simp) (by decide) .smartPoster (by decide)
    exact absurd htype (by decide)

end Ndef

end KiisuFirmware
