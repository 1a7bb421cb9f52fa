import KiisuFirmware.Proofs.Stream
import KiisuFirmware.Run
import KiisuFirmware.StringStream
import Mathlib.Data.List.TakeWhile

/-!
# The string stream against the file stream

A string stream and a file are the same when the string is the content and the index the position
(`Same`). Each operation of the string stream has a closed form in which the heap is asked once,
for the string it leaves; on content without zero bytes that string is what the file stream
leaves.
-/

namespace KiisuFirmware

namespace StreamWriteCB

/-- What a callback writes when no write is short. -/
def text : StreamWriteCB → List UInt8
  | .done _ => []
  | .write data next => data ++ (next data.length).text

/-- What it returns then. -/
def success : StreamWriteCB → Bool
  | .done success => success
  | .write data next => (next data.length).success

end StreamWriteCB

/-- What an optional callback writes. -/
def insertedText (writeCallback : Option StreamWriteCB) : List UInt8 :=
  writeCallback.elim [] StreamWriteCB.text

theorem FileStream.runWriteCB_eq :
    ∀ (cb : StreamWriteCB) (stream : File), FileStream.runWriteCB cb stream =
      (cb.success, stream.write cb.text)
  | .done success, stream => by
    simp [FileStream.runWriteCB, StreamWriteCB.success, StreamWriteCB.text]
  | .write data next, stream => by
    simp only [FileStream.runWriteCB, FileStream.write, storageFileWrite,
      StreamWriteCB.success, StreamWriteCB.text]
    rw [FileStream.runWriteCB_eq (next data.length), Cursor.write_write]

namespace FuriString

theorem alloc_eq_some {chars : List UInt8} (h : chars.length + 1 < 2 ^ 31) :
    alloc chars = some ⟨chars, h⟩ := dif_pos h

theorem alloc_eq_none {chars : List UInt8} (h : ¬chars.length + 1 < 2 ^ 31) :
    alloc chars = none := dif_neg h

theorem chars_of_alloc {chars : List UInt8} {string : FuriString}
    (h : alloc chars = some string) : string.chars = chars := by
  unfold alloc at h
  split_ifs at h with hfits
  exact (congrArg FuriString.chars (Option.some.inj h)).symm

theorem alloc_chars (string : FuriString) : alloc string.chars = some string :=
  alloc_eq_some string.fits

end FuriString

namespace StringStream

variable {stream : StringStream}

theorem eof_eq (stream : StringStream) :
    stream.eof = decide (stream.string.chars.length ≤ stream.index) := rfl

theorem writeChar_eq (h : stream.index ≤ stream.string.chars.length) (c : UInt8) :
    stream.writeChar c = (FuriString.alloc (overwrite stream.string.chars stream.index [c])).map
      fun string => ⟨string, stream.index + 1⟩ := by
  unfold writeChar
  by_cases hend : stream.index = stream.string.chars.length
  · have heof : stream.eof = true := by
      rw [eof_eq, hend, decide_eq_true_eq]
    rw [if_pos heof, FuriString.pushBack, hend, overwrite_length]
  · have heof : ¬stream.eof = true := by
      rw [eof_eq, decide_eq_true_eq]
      omega
    have hset : overwrite stream.string.chars stream.index [c] =
        stream.string.chars.set stream.index c := by
      rw [List.set_eq_take_append_cons_drop, if_pos (by omega)]
      rfl
    have halloc : FuriString.alloc (stream.string.chars.set stream.index c) =
        some (stream.string.setChar stream.index c) := FuriString.alloc_eq_some _
    rw [if_neg heof, hset, halloc]
    rfl

theorem foldlM_writeChar (data : List UInt8) (stream : StringStream)
    (h : stream.index ≤ stream.string.chars.length) :
    data.foldlM writeChar stream =
      (FuriString.alloc (overwrite stream.string.chars stream.index data)).map
        fun string => ⟨string, stream.index + data.length⟩ := by
  induction data generalizing stream with
  | nil =>
    rw [overwrite_nil, FuriString.alloc_chars]
    rfl
  | cons c data ih =>
    have happend := overwrite_append h [c] data
    have hlen := length_overwrite h [c]
    rw [List.foldlM_cons, writeChar_eq h]
    by_cases hfits : (overwrite stream.string.chars stream.index [c]).length + 1 < 2 ^ 31
    · rw [FuriString.alloc_eq_some hfits]
      simp only [Option.map_some, Option.bind_eq_bind, Option.bind_some]
      rw [ih]
      · simp only [List.length_singleton] at happend
        simp only [happend, List.singleton_append, List.length_cons]
        congr 1
        ext1
        simp only [StringStream.mk.injEq, true_and]
        omega
      · simp only [hlen, List.length_singleton]
        omega
    · have hmore : ¬(overwrite stream.string.chars stream.index (c :: data)).length + 1 <
          2 ^ 31 := by
        rw [length_overwrite h] at hfits ⊢
        simp only [List.length_cons, List.length_nil] at hfits ⊢
        omega
      rw [FuriString.alloc_eq_none hfits, FuriString.alloc_eq_none hmore]
      rfl

theorem write_eq (h : stream.index ≤ stream.string.chars.length) (data : List UInt8) :
    stream.write data = (FuriString.alloc (overwrite stream.string.chars stream.index data)).map
      fun string => (data.length, ⟨string, stream.index + data.length⟩) := by
  rw [write, foldlM_writeChar data stream h, Option.map_map]
  rfl

theorem runWriteCB_eq : ∀ (cb : StreamWriteCB) (stream : StringStream),
    stream.index ≤ stream.string.chars.length →
      runWriteCB cb stream =
        (FuriString.alloc (overwrite stream.string.chars stream.index cb.text)).map
          fun string => (cb.success, ⟨string, stream.index + cb.text.length⟩)
  | .done success, stream, _ => by
    rw [StreamWriteCB.text, overwrite_nil, FuriString.alloc_chars]
    rfl
  | .write data next, stream, h => by
    have hlen := length_overwrite h data
    have happend := overwrite_append h data (next data.length).text
    rw [runWriteCB, write_eq h, StreamWriteCB.text, StreamWriteCB.success]
    by_cases hfits : (overwrite stream.string.chars stream.index data).length + 1 < 2 ^ 31
    · rw [FuriString.alloc_eq_some hfits]
      simp only [Option.map_some, Option.bind_some]
      rw [runWriteCB_eq]
      · simp only [happend, List.length_append, Nat.add_assoc]
      · simp only [hlen]
        omega
    · have hmore : ¬(overwrite stream.string.chars stream.index
          (data ++ (next data.length).text)).length + 1 < 2 ^ 31 := by
        rw [length_overwrite h] at hfits ⊢
        rw [List.length_append]
        omega
      rw [FuriString.alloc_eq_none hfits, FuriString.alloc_eq_none hmore]
      rfl

theorem seekIndex_eq (offset : ℤ) (type : StreamOffset) :
    stream.seekIndex offset type =
      match FileStream.seekPosition stream.index stream.size offset type with
      | some p => (true, p)
      | none => (false, 0) := by
  have hword : ∀ a b : ℤ, int32 (int32 a + b) = int32 (a + b) := by
    intro a b
    rw [add_comm, int32_add_int32, add_comm]
  cases type <;> simp only [seekIndex, FileStream.seekPosition, hword] <;> split_ifs <;> rfl

theorem seek_eq {offset p : ℤ} (h : stream.index ≤ stream.string.chars.length)
    (type : StreamOffset)
    (hp : type.origin stream.index stream.string.chars.length + offset = p)
    (hlow : -2 ^ 31 ≤ p) (hhigh : offset < 2 ^ 31) :
    stream.seek offset type =
      ((seekTarget stream.string.chars.length p).1,
        ⟨stream.string, (seekTarget stream.string.chars.length p).2⟩) := by
  have hfits := stream.string.fits
  have horigin : type.origin stream.index stream.string.chars.length ≤
      stream.string.chars.length := by
    cases type <;> simp [StreamOffset.origin, h]
  have hposition := FileStream.seekPosition_eq type hp hlow (by omega) (fun _ => hhigh)
  have hsize : stream.size = stream.string.chars.length := rfl
  rw [seek, seekIndex_eq, hsize, hposition]
  unfold seekTarget
  by_cases hout : p < 0 ∨ 2 ^ 31 ≤ p
  · have hdiff : ¬0 < int32 (((0 : ℕ) : ℤ) - stream.string.chars.length) := by
      rw [int32_of_range] <;> omega
    simp only [if_pos hout, if_neg hdiff]
  · simp only [if_neg hout]
    by_cases hpast : (stream.string.chars.length : ℤ) < p
    · have hdiff : int32 ((p.toNat : ℤ) - stream.string.chars.length) =
          p - stream.string.chars.length := by
        rw [int32_of_range] <;> omega
      rw [hdiff, if_pos (by omega), if_pos hpast, sizeT_of_range (by omega) (by omega)]
      congr 2
      omega
    · have hdiff : ¬0 < int32 ((p.toNat : ℤ) - stream.string.chars.length) := by
        rw [int32_of_range] <;> omega
      rw [if_neg hdiff, if_neg hpast]

theorem readLoop_eq (n : ℕ) (stream : StringStream)
    (h : stream.index < stream.string.chars.length) :
    readLoop n stream = ((stream.string.chars.drop stream.index).take n,
      ⟨stream.string, min (stream.index + n) stream.string.chars.length⟩) := by
  induction n generalizing stream with
  | zero =>
    rw [readLoop, List.take_zero, Nat.add_zero, min_eq_left h.le]
  | succ n ih =>
    have hfits := stream.string.fits
    have hseek := seek_eq h.le .fromCurrent
      (show (StreamOffset.origin _ _ .fromCurrent : ℤ) + 1 = (stream.index + 1 : ℕ) by
        simp [StreamOffset.origin]) (by omega) (by norm_num)
    rw [seekTarget_of_le (by omega) (by omega)] at hseek
    have hdrop := List.drop_eq_getElem_cons h
    have hget : stream.string.chars.getD stream.index 0 = stream.string.chars[stream.index] := by
      rw [List.getD_eq_getElem?_getD, List.getElem?_eq_getElem h, Option.getD_some]
    simp only [readLoop, hseek, hget]
    rw [hdrop, List.take_succ_cons]
    by_cases hend : stream.index + 1 = stream.string.chars.length
    · have hrest : stream.string.chars.drop (stream.index + 1) = [] := by
        rw [hend, List.drop_length]
      rw [eof_eq, if_pos (by simp only [hend, le_refl, decide_true]), hrest, List.take_nil,
        min_eq_right (by omega), hend]
    · have heof : ¬eof ⟨stream.string, stream.index + 1⟩ = true := by
        rw [eof_eq, decide_eq_true_eq]
        simp only
        omega
      rw [if_neg heof, ih ⟨stream.string, stream.index + 1⟩ (by simp only; omega)]
      simp only [Nat.add_assoc, Nat.add_comm 1 n]

theorem read_eq (h : stream.index ≤ stream.string.chars.length) (n : ℕ) :
    stream.read n = ((stream.string.chars.drop stream.index).take n,
      ⟨stream.string, min (stream.index + n) stream.string.chars.length⟩) := by
  rw [read, eof_eq]
  by_cases hend : stream.string.chars.length ≤ stream.index
  · rw [if_pos (by rw [decide_eq_true_eq]; exact hend), List.drop_of_length_le hend,
      List.take_nil, min_eq_right (by omega), le_antisymm hend h]
  · rw [if_neg (by rw [decide_eq_true_eq]; exact hend), readLoop_eq n stream (by omega)]

theorem erased_eq (stream : StringStream) (deleteSize : ℕ) :
    (if deleteSize ≠ 0 ∧ min deleteSize (stream.size - stream.tell) ≠ 0 then
      stream.string.eraseAt stream.index (min deleteSize (stream.size - stream.tell))
      else stream.string).chars =
    stream.string.chars.take stream.index ++
      stream.string.chars.drop (stream.index + deleteSize) := by
  have hsize : stream.size = stream.string.chars.length := rfl
  rw [hsize, tell]
  rcases le_total deleteSize (stream.string.chars.length - stream.index) with hle | hle
  · rw [min_eq_left hle]
    split_ifs with h
    · rfl
    · have hzero : deleteSize = 0 := by omega
      rw [hzero, Nat.add_zero, List.take_append_drop]
  · rw [min_eq_right hle, List.drop_of_length_le (by omega), List.append_nil]
    split_ifs with h
    · simp only [FuriString.eraseAt]
      rw [List.drop_of_length_le (by omega), List.append_nil]
    · rw [List.take_of_length_le (by omega)]

theorem takeWhile_ne_zero {l : List UInt8} (h : 0 ∉ l) : l.takeWhile (· ≠ 0) = l := by
  rw [List.takeWhile_eq_self_iff]
  intro c hc
  simp only [decide_eq_true_eq]
  rintro rfl
  exact h hc

theorem deleteAndInsert_eq (h : stream.index ≤ stream.string.chars.length)
    (hnul : 0 ∉ stream.string.chars) (deleteSize : ℕ) (writeCallback : Option StreamWriteCB) :
    stream.deleteAndInsert deleteSize writeCallback =
      (FuriString.alloc (stream.string.chars.take stream.index ++
        (insertedText writeCallback ++
          stream.string.chars.drop (stream.index + deleteSize)))).map fun string =>
      (writeCallback.elim true StreamWriteCB.success,
        ⟨string, stream.index + (insertedText writeCallback).length⟩) := by
  have herased := erased_eq stream deleteSize
  unfold deleteAndInsert
  simp only
  generalize (if deleteSize ≠ 0 ∧ min deleteSize (stream.size - stream.tell) ≠ 0 then
    stream.string.eraseAt stream.index (min deleteSize (stream.size - stream.tell))
    else stream.string) = erased at herased ⊢
  cases writeCallback with
  | none =>
    simp only [insertedText, Option.elim_none, List.nil_append, ← herased]
    rw [FuriString.alloc_chars]
    rfl
  | some cb =>
    have hright : (erased.allocSet stream.index).chars =
        stream.string.chars.drop (stream.index + deleteSize) := by
      simp only [FuriString.allocSet, herased]
      rw [List.drop_left' (by simp [h]), takeWhile_ne_zero]
      exact fun hmem => hnul (List.mem_of_mem_drop hmem)
    have hleft : (erased.left stream.tell).chars = stream.string.chars.take stream.index := by
      simp only [FuriString.left, herased, tell]
      rw [List.take_left' (by simp [h])]
    have hlen : (stream.string.chars.take stream.index).length = stream.index := by simp [h]
    have hwritten : overwrite (stream.string.chars.take stream.index) stream.index cb.text =
        stream.string.chars.take stream.index ++ cb.text := by
      have := overwrite_length (stream.string.chars.take stream.index) cb.text
      rwa [hlen] at this
    simp only [Option.elim_some, insertedText, Option.pure_def, Option.bind_eq_bind]
    rw [runWriteCB_eq _ _ (by simp only [hleft, hlen, le_refl])]
    simp only [hleft, hwritten]
    by_cases hfits : (stream.string.chars.take stream.index ++ cb.text).length + 1 < 2 ^ 31
    · rw [FuriString.alloc_eq_some hfits]
      simp only [Option.map_some, Option.bind_some, FuriString.cat, hright, List.append_assoc]
      rcases FuriString.alloc _ with _ | string <;> rfl
    · rw [FuriString.alloc_eq_none hfits, FuriString.alloc_eq_none]
      · rfl
      · simp only [List.length_append] at hfits ⊢
        omega

/-- A string stream and a file with the same content and the same position. -/
structure Same (stream : StringStream) (file : File) : Prop where
  chars : stream.string.chars = file.data
  index : stream.index = file.pos

/-- A call that writes no zero byte and whose callback succeeds. -/
def OpOk : StreamOp StreamWriteCB → Prop
  | .write data => 0 ∉ data
  | .deleteAndInsert _ (some cb) => 0 ∉ cb.text ∧ cb.success = true
  | _ => True

/-- One call on the file stream, with the callbacks of the string stream. -/
def fileExec (file : File) (op : StreamOp StreamWriteCB) : StreamResult × File :=
  FileStream.exec file (op.map FileStream.runWriteCB)

theorem inserted_eq (file : File) (cb : Option StreamWriteCB)
    (hcb : cb.elim true StreamWriteCB.success = true) :
    FileStream.inserted file (cb.map FileStream.runWriteCB) =
      (true, file.truncate.write (insertedText cb)) := by
  cases cb with
  | none => simp [FileStream.inserted, insertedText]
  | some cb =>
    simp only [Option.elim_some] at hcb
    simp [FileStream.inserted, insertedText, FileStream.runWriteCB_eq, hcb]

/-- One call: if the heap lasts, both streams return the same and are the same after it. -/
theorem exec_sim (stream : StringStream) (file : File) (op : StreamOp StreamWriteCB)
    (o : StreamResult) (stream' : StringStream) (h : Same stream file ∧ 0 ∉ file.data)
    (hop : OpOk op) (he : stream.exec op = some (o, stream')) :
    o = (fileExec file op).1 ∧ Same stream' (fileExec file op).2 ∧
      0 ∉ (fileExec file op).2.data := by
  obtain ⟨⟨hchars, hindex⟩, hnul⟩ := h
  have hle : stream.index ≤ stream.string.chars.length := by
    rw [hchars, hindex]
    exact file.pos_le
  have hsmall : file.data.length < 2 ^ 31 := by
    rw [← hchars]
    have := stream.string.fits
    omega
  cases op with
  | read n =>
    simp only [exec, read_eq hle, Option.some.injEq, Prod.mk.injEq] at he
    obtain ⟨rfl, rfl⟩ := he
    refine ⟨?_, ⟨hchars, ?_⟩, hnul⟩
    · rw [hchars, hindex]
      rfl
    · rw [hchars, hindex]
      rfl
  | write data =>
    simp only [exec, write_eq hle, Option.map_map, Option.map_eq_some_iff, Function.comp_apply,
      Prod.mk.injEq] at he
    obtain ⟨string, hstring, rfl, rfl⟩ := he
    have hstring := FuriString.chars_of_alloc hstring
    refine ⟨rfl, ⟨?_, ?_⟩, ?_⟩
    · rw [hstring, hchars, hindex]
      rfl
    · rw [hindex]
      rfl
    · intro hmem
      rcases mem_overwrite hmem with hmem | hmem
      · exact hnul hmem
      · exact hop hmem
  | seek offset type =>
    have hrange := int32_toInt offset
    simp only [exec, Option.some.injEq, Prod.mk.injEq] at he
    obtain ⟨rfl, rfl⟩ := he
    have hfile := FileStream.seek_eq hsmall type rfl (by omega) hrange.2
    rw [seek_eq hle type rfl (by omega) hrange.2, hchars, hindex]
    refine ⟨?_, ⟨?_, ?_⟩, ?_⟩
    · exact congrArg (fun r => StreamResult.bool r.1) hfile.symm
    · rw [hchars]
      exact congrArg (fun r => r.2.data) hfile.symm
    · refine Eq.trans ?_ (congrArg (fun r => r.2.pos) hfile.symm)
      exact (Cursor.seek_pos_of_le (seekTarget_le _ _)).symm
    · change 0 ∉ (FileStream.seek file offset.toInt type).2.data
      rwa [FileStream.seek_data]
  | tell =>
    simp only [exec, Option.some.injEq, Prod.mk.injEq] at he
    obtain ⟨rfl, rfl⟩ := he
    refine ⟨congrArg StreamResult.count ?_, ⟨hchars, hindex⟩, hnul⟩
    rw [FileStream.tell_eq hsmall, tell, hindex]
  | size =>
    simp only [exec, Option.some.injEq, Prod.mk.injEq] at he
    obtain ⟨rfl, rfl⟩ := he
    refine ⟨congrArg StreamResult.count ?_, ⟨hchars, hindex⟩, hnul⟩
    rw [FileStream.size_eq hsmall, ← hchars]
    rfl
  | eof =>
    simp only [exec, Option.some.injEq, Prod.mk.injEq] at he
    obtain ⟨rfl, rfl⟩ := he
    refine ⟨congrArg StreamResult.bool ?_, ⟨hchars, hindex⟩, hnul⟩
    have hpos := file.pos_le
    rw [eof_eq, hchars, hindex, FileStream.eof, storageFileEof]
    exact decide_eq_decide.2 ⟨fun h => le_antisymm hpos h, fun h => h.ge⟩
  | clean =>
    simp only [exec, Option.some.injEq, Prod.mk.injEq] at he
    obtain ⟨rfl, rfl⟩ := he
    refine ⟨rfl, ⟨?_, ?_⟩, ?_⟩ <;>
      simp [fileExec, FileStream.exec, StreamOp.map, FileStream.clean, storageFileTruncate,
        storageFileSeek, Cursor.seek_pos, clean, FuriString.empty]
  | deleteAndInsert n cb =>
    have hcb : cb.elim true StreamWriteCB.success = true := by
      cases cb with
      | none => rfl
      | some cb => exact hop.2
    have htext : 0 ∉ insertedText cb := by
      cases cb with
      | none => simp [insertedText]
      | some cb => exact hop.1
    simp only [exec, deleteAndInsert_eq hle (hchars ▸ hnul), Option.map_map,
      Option.map_eq_some_iff, Function.comp_apply, Prod.mk.injEq] at he
    obtain ⟨string, hstring, rfl, rfl⟩ := he
    have hfits := string.fits
    have hstring := FuriString.chars_of_alloc hstring
    have hins := inserted_eq file cb hcb
    have hreplaced : (FileStream.replaced file n (cb.map FileStream.runWriteCB)).data =
        string.chars := by
      rw [FileStream.replaced, hins, Cursor.write_write, Cursor.truncate_write, hstring, hchars,
        hindex, Cursor.rest, List.drop_drop]
    have hfile : FileStream.deleteAndInsert file n (cb.map FileStream.runWriteCB) = _ :=
      FileStream.deleteAndInsert_eq hsmall (by rw [hins]) (by rw [hreplaced]; omega)
    rw [hins] at hfile
    refine ⟨?_, ⟨?_, ?_⟩, ?_⟩
    · rw [hcb]
      exact congrArg (fun r => StreamResult.bool r.1) hfile.symm
    · rw [← hreplaced]
      exact congrArg (fun r => r.2.data) hfile.symm
    · refine Eq.trans ?_ (congrArg (fun r => r.2.pos) hfile.symm)
      rw [Cursor.seek_pos_of_le, hindex]
      · rfl
      · rw [hreplaced, hstring, hchars, hindex]
        have := file.pos_le
        simp only [Cursor.write_pos, Cursor.truncate_pos, List.length_append, List.length_take]
        omega
    · change 0 ∉ (FileStream.deleteAndInsert file n (cb.map FileStream.runWriteCB)).2.data
      rw [hfile]
      intro hmem
      rw [Cursor.seek_data, hreplaced, hstring, hchars, List.mem_append, List.mem_append] at hmem
      rcases hmem with hmem | hmem | hmem
      · exact hnul (List.mem_of_mem_take hmem)
      · exact htext hmem
      · exact hnul (List.mem_of_mem_drop hmem)

/-- The heap has room for the string a call leaves. -/
def OpFits (file : File) : StreamOp StreamWriteCB → Prop
  | .write data => (file.write data).data.length + 1 < 2 ^ 31
  | .deleteAndInsert n cb =>
    (FileStream.replaced file n (cb.map FileStream.runWriteCB)).data.length + 1 < 2 ^ 31
  | _ => True

theorem exec_isSome (stream : StringStream) (file : File) (op : StreamOp StreamWriteCB)
    (h : Same stream file ∧ 0 ∉ file.data) (hop : OpOk op) (hfits : OpFits file op) :
    ∃ o stream', stream.exec op = some (o, stream') ∧
      (Same stream' (fileExec file op).2 ∧ 0 ∉ (fileExec file op).2.data) := by
  suffices hsome : ∃ o stream', stream.exec op = some (o, stream') by
    obtain ⟨o, stream', he⟩ := hsome
    exact ⟨o, stream', he, (exec_sim stream file op o stream' h hop he).2⟩
  obtain ⟨⟨hchars, hindex⟩, hnul⟩ := h
  have hle : stream.index ≤ stream.string.chars.length := by
    rw [hchars, hindex]
    exact file.pos_le
  cases op with
  | write data =>
    have halloc : FuriString.alloc (overwrite file.data file.pos data) = some _ :=
      FuriString.alloc_eq_some hfits
    rw [exec, write_eq hle, hchars, hindex, halloc]
    exact ⟨_, _, rfl⟩
  | deleteAndInsert n cb =>
    have hcb : cb.elim true StreamWriteCB.success = true := by
      cases cb with
      | none => rfl
      | some cb => exact hop.2
    have hreplaced : (FileStream.replaced file n (cb.map FileStream.runWriteCB)).data =
        file.data.take file.pos ++ (insertedText cb ++ file.data.drop (file.pos + n)) := by
      rw [FileStream.replaced, inserted_eq file cb hcb, Cursor.write_write,
        Cursor.truncate_write, Cursor.rest, List.drop_drop]
    simp only [OpFits, hreplaced] at hfits
    rw [exec, deleteAndInsert_eq hle (hchars ▸ hnul), hchars, hindex,
      FuriString.alloc_eq_some hfits]
    exact ⟨_, _, rfl⟩
  | read n => exact ⟨_, _, rfl⟩
  | seek offset type => exact ⟨_, _, rfl⟩
  | tell => exact ⟨_, _, rfl⟩
  | size => exact ⟨_, _, rfl⟩
  | eof => exact ⟨_, _, rfl⟩
  | clean => exact ⟨_, _, rfl⟩

/-- On NUL-free content and on every sequence of calls the string stream returns what the file
stream returns and ends with the same content at the same position, for as long as the heap has
room for its string, which it has for every string a call leaves below the heap's limit. -/
theorem string_stream_equiv_file_stream (stream : StringStream) (file : File)
    (h : Same stream file) (hnul : 0 ∉ file.data) (ops : List (StreamOp StreamWriteCB))
    (hops : ∀ op ∈ ops, OpOk op) :
    (∀ os stream', runUntil StringStream.exec stream ops = some (os, stream') →
      os = (run fileExec file ops).1 ∧ stream'.string.chars = (run fileExec file ops).2.data ∧
        stream'.index = (run fileExec file ops).2.pos) ∧
    (Along OpFits fileExec file ops → (runUntil StringStream.exec stream ops).isSome) := by
  constructor
  · intro os stream' hrun
    obtain ⟨hos, hsame, -⟩ := runUntil_sim (fun s f => Same s f ∧ 0 ∉ f.data) OpOk
      (fun s f op o s' hR hop he => exec_sim s f op o s' hR hop he) ops ⟨h, hnul⟩ hops hrun
    exact ⟨hos, hsame.chars, hsame.index⟩
  · intro hfits
    exact runUntil_isSome (fun s f => Same s f ∧ 0 ∉ f.data) OpFits OpOk exec_isSome ops
      ⟨h, hnul⟩ hops hfits

/-- An insertion in the middle, then a read. -/
theorem string_stream_equiv_file_stream_insert :
    (runUntil StringStream.exec ⟨⟨[97, 98, 99], by decide⟩, 1⟩
      [.deleteAndInsert 1 (some (.write [120] fun _ => .done true)), .read 5]).map (·.1) =
    some (run fileExec ⟨[97, 98, 99], 1, by decide⟩
      [.deleteAndInsert 1 (some (.write [120] fun _ => .done true)), .read 5]).1 := by
  obtain ⟨hsame, hsome⟩ := string_stream_equiv_file_stream ⟨⟨[97, 98, 99], by decide⟩, 1⟩
    ⟨[97, 98, 99], 1, by decide⟩ ⟨rfl, rfl⟩ (by decide)
    [.deleteAndInsert 1 (some (.write [120] fun _ => .done true)), .read 5] (by
      intro op hop
      simp only [List.mem_cons, List.not_mem_nil, or_false] at hop
      rcases hop with rfl | rfl
      · exact ⟨by decide, rfl⟩
      · trivial)
  obtain ⟨⟨os, stream'⟩, hrun⟩ := Option.isSome_iff_exists.1 (hsome (by
    refine ⟨?_, trivial, trivial⟩
    change List.length _ + 1 < _
    decide))
  rw [hrun, Option.map_some, (hsame os stream' hrun).1]

end StringStream

end KiisuFirmware
