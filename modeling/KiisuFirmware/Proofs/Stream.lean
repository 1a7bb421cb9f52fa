import KiisuFirmware.Stream

/-!
# The stream over a file, in closed form

Below `2 ^ 31` bytes the stream over a file is the ideal file: `seek_eq` says where a seek ends,
`streamCopy_eq` what a copy moves and `deleteAndInsert_eq` what replacing a piece comes to.
-/

namespace KiisuFirmware

theorem int32_add_int32 (a b : ℤ) : int32 (a + int32 b) = int32 (a + b) := by
  rw [int32_eq_bmod, int32_eq_bmod, int32_eq_bmod, Int.add_bmod_bmod]

theorem sizeT_add_int32 (a b : ℤ) : sizeT (a + int32 b) = sizeT (a + b) := by
  unfold sizeT
  rw [int32_eq]
  split_ifs <;> omega

/-- Where a seek to `p` ends in a file of `size` bytes, and whether it succeeds. -/
def seekTarget (size : ℕ) (p : ℤ) : Bool × ℕ :=
  if p < 0 ∨ 2 ^ 31 ≤ p then (false, 0)
  else if (size : ℤ) < p then (false, size)
  else (true, p.toNat)

/-- The place an origin stands for. -/
def StreamOffset.origin (pos size : ℕ) : StreamOffset → ℕ
  | .fromCurrent => pos
  | .fromStart => 0
  | .fromEnd => size

theorem seekTarget_le (size : ℕ) (p : ℤ) : (seekTarget size p).2 ≤ size := by
  unfold seekTarget
  split_ifs <;> simp only <;> omega

theorem seekTarget_of_le {size p : ℕ} (hp : p ≤ size) (hsize : size < 2 ^ 31) :
    seekTarget size p = (true, p) := by
  unfold seekTarget
  rw [if_neg (by omega), if_neg (by omega), Int.toNat_natCast]

namespace FileStream

variable {stream : File}

theorem tell_eq (h : stream.data.length < 2 ^ 31) : tell stream = stream.pos := by
  have := stream.pos_le
  exact sizeT_natCast (by unfold storageFileTell; omega)

theorem size_eq (h : stream.data.length < 2 ^ 31) : size stream = stream.data.length :=
  sizeT_natCast (by unfold storageFileSize; omega)

theorem seek_int32 (offset : ℤ) :
    seek stream (int32 offset) .fromCurrent = seek stream offset .fromCurrent := by
  simp only [seek, seekPosition, int32_add_int32, sizeT_add_int32]

theorem seek_data (stream : File) (offset : ℤ) (type : StreamOffset) :
    (seek stream offset type).2.data = stream.data := by
  unfold seek
  dsimp only
  split
  · split_ifs <;> rfl
  · rfl

theorem int32_nonneg_iff {x : ℤ} (hlow : -2 ^ 31 ≤ x) (hhigh : x < 2 ^ 32) :
    0 ≤ int32 x ↔ ¬(x < 0 ∨ 2 ^ 31 ≤ x) := by
  rw [int32_eq]
  split_ifs <;> omega

theorem seekPosition_eq {pos size : ℕ} {offset p : ℤ} (type : StreamOffset)
    (hp : type.origin pos size + offset = p) (hlow : -2 ^ 31 ≤ p) (hhigh : p < 2 ^ 32)
    (hstart : type = .fromStart → offset < 2 ^ 31) :
    seekPosition pos size offset type = if p < 0 ∨ 2 ^ 31 ≤ p then none else some p.toNat := by
  cases type with
  | fromCurrent =>
    simp only [StreamOffset.origin] at hp
    simp only [seekPosition, hp, int32_nonneg_iff hlow hhigh]
    by_cases h : p < 0 ∨ 2 ^ 31 ≤ p
    · rw [if_neg (not_not.2 h), if_pos h]
    · rw [if_pos h, if_neg h, sizeT_of_range (by omega) hhigh]
  | fromStart =>
    have hoffset := hstart rfl
    simp only [StreamOffset.origin, Nat.cast_zero, zero_add] at hp
    subst hp
    simp only [seekPosition]
    by_cases h : 0 ≤ offset
    · rw [if_pos h, if_neg (by omega), sizeT_of_range h hhigh]
    · rw [if_neg h, if_pos (by omega)]
  | fromEnd =>
    simp only [StreamOffset.origin] at hp
    simp only [seekPosition, hp, int32_nonneg_iff hlow hhigh]
    by_cases h : p < 0 ∨ 2 ^ 31 ≤ p
    · rw [if_neg (not_not.2 h), if_pos h]
    · rw [if_pos h, if_neg h, sizeT_of_range (by omega) hhigh]

/-- A seek goes to the place it asks for, to the start if that is before it or out of an offset's
range, and to the end if it is past it. -/
theorem seek_eq (h : stream.data.length < 2 ^ 31) {offset p : ℤ} (type : StreamOffset)
    (hp : type.origin stream.pos stream.data.length + offset = p) (hlow : -2 ^ 31 ≤ p)
    (hhigh : offset < 2 ^ 31) :
    seek stream offset type =
      ((seekTarget stream.data.length p).1, stream.seek (seekTarget stream.data.length p).2) := by
  have hpos := stream.pos_le
  have horigin : type.origin stream.pos stream.data.length ≤ stream.data.length := by
    cases type <;> simp [StreamOffset.origin, hpos]
  simp only [seek, tell_eq h, size_eq h]
  rw [seekPosition_eq type hp hlow (by omega) (fun _ => hhigh)]
  unfold seekTarget
  split_ifs with hout hpast
  · rfl
  · have : 0 < int32 ((p.toNat : ℤ) - stream.data.length) := by
      rw [int32_of_range] <;> omega
    simp only [this, if_true]
    rfl
  · have : ¬0 < int32 ((p.toNat : ℤ) - stream.data.length) := by
      rw [int32_of_range] <;> omega
    simp only [this, if_false]
    rfl

theorem seek_eq_of_le (h : stream.data.length < 2 ^ 31) {offset : ℤ} (type : StreamOffset) {p : ℕ}
    (hp : type.origin stream.pos stream.data.length + offset = p) (hle : p ≤ stream.data.length)
    (hhigh : offset < 2 ^ 31) : seek stream offset type = (true, stream.seek p) := by
  rw [seek_eq h type hp (by omega) hhigh, seekTarget_of_le hle h]

theorem rewind_eq (h : stream.data.length < 2 ^ 31) : rewind stream = (true, stream.seek 0) :=
  seek_eq_of_le h .fromStart rfl (Nat.zero_le _) (by norm_num)

end FileStream

/-! ## Copies -/

theorem streamCopyLoop_eq (size : ℕ) (streamFrom streamTo : File) (copied : ℕ)
    (hle : copied ≤ size) (h : size - copied ≤ streamFrom.rest.length) :
    streamCopyLoop streamFrom streamTo size copied =
      (size, streamFrom.advance (size - copied),
        streamTo.write (streamFrom.peek (size - copied))) := by
  rw [streamCopyLoop]
  by_cases hzero : min STREAM_CACHE_SIZE (size - copied) = 0
  · have hdone : copied = size := by
      simp only [STREAM_CACHE_SIZE] at hzero
      omega
    simp [hdone]
  · obtain ⟨n, hn⟩ : ∃ n, n = min STREAM_CACHE_SIZE (size - copied) := ⟨_, rfl⟩
    have hread : (streamFrom.peek n).length = n := Cursor.length_peek_of_le (by omega)
    have hsplit : size - copied = n + (size - (copied + n)) := by omega
    have hrest : size - (copied + n) ≤ (streamFrom.advance n).rest.length := by
      rw [Cursor.rest_advance, List.length_drop]
      omega
    simp only [← hn] at hzero ⊢
    simp only [hzero, if_false, FileStream.read, storageFileRead, FileStream.write,
      storageFileWrite, hread, ne_eq, not_true_eq_false]
    rw [streamCopyLoop_eq size _ _ (copied + n) (by omega) hrest, hsplit, Cursor.peek_add,
      ← Cursor.advance_advance, Cursor.write_write]
  termination_by size - copied

theorem streamCopy_eq (streamFrom streamTo : File) {size : ℕ}
    (h : size ≤ streamFrom.rest.length) :
    streamCopy streamFrom streamTo size =
      (size, streamFrom.advance size, streamTo.write (streamFrom.peek size)) :=
  streamCopyLoop_eq size streamFrom streamTo 0 (Nat.zero_le _) h

/-! ## Replacing a piece -/

namespace FileStream

variable {stream : File} {deleteSize : ℕ} {writeCallback : Option WriteCallback}

/-- What the callback makes of everything up to the pointer. -/
def inserted (stream : File) (writeCallback : Option WriteCallback) : Bool × File :=
  writeCallback.elim (true, stream.truncate) (· stream.truncate)

/-- What is before the pointer, what the callback wrote and what is after the deleted piece. -/
def replaced (stream : File) (deleteSize : ℕ) (writeCallback : Option WriteCallback) : File :=
  (inserted stream writeCallback).2.write (stream.rest.drop deleteSize)

/-- The scratch file holds what is before the pointer, what the callback wrote and what is after
the deleted piece; the pointer is left behind what was inserted. -/
theorem deleteAndInsert_eq (h : stream.data.length < 2 ^ 31)
    (hcb : (inserted stream writeCallback).1 = true)
    (hsmall : (replaced stream deleteSize writeCallback).data.length < 2 ^ 31) :
    deleteAndInsert stream deleteSize writeCallback =
      (true, (replaced stream deleteSize writeCallback).seek
        (inserted stream writeCallback).2.pos) := by
  rw [replaced] at hsmall ⊢
  obtain ⟨scratch, hscratch⟩ : ∃ scratch, scratch = inserted stream writeCallback := ⟨_, rfl⟩
  rw [← hscratch] at hcb hsmall ⊢
  have hpos := stream.pos_le
  have hspos := scratch.2.pos_le
  have hbefore := streamCopy_eq (stream.seek 0) .empty
    (show stream.pos ≤ (stream.seek 0).rest.length by
      simp [Cursor.length_rest, Cursor.seek_pos, hpos])
  rw [Cursor.seek_zero_advance, Cursor.empty_write_peek] at hbefore
  obtain ⟨deleted, hdeleted⟩ :
      ∃ deleted, deleted = min deleteSize (stream.data.length - stream.pos) := ⟨_, rfl⟩
  have hskip : seek stream (int32 deleted) .fromCurrent =
      (true, stream.seek (stream.pos + deleted)) := by
    rw [seek_int32]
    exact seek_eq_of_le h .fromCurrent (by simp [StreamOffset.origin]) (by omega) (by omega)
  have hrest : (stream.seek (stream.pos + deleted)).rest = stream.rest.drop deleteSize := by
    rw [Cursor.rest, Cursor.rest, List.drop_drop, Cursor.seek_data, Cursor.seek_pos]
    rcases le_total deleteSize (stream.data.length - stream.pos) with hle | hle
    · rw [hdeleted, min_eq_left hle, min_eq_left (by omega)]
    · rw [List.drop_of_length_le (by omega), List.drop_of_length_le (by omega)]
  have hkeep : stream.data.length - stream.pos - deleted =
      (stream.seek (stream.pos + deleted)).rest.length := by
    rw [hrest, List.length_drop, Cursor.length_rest]
    omega
  have hafter := streamCopy_eq (stream.seek (stream.pos + deleted)) scratch.2 hkeep.le
  rw [Cursor.peek_eq, hkeep, List.take_length, hrest] at hafter
  obtain ⟨result, hresult⟩ :
      ∃ result, result = scratch.2.write (stream.rest.drop deleteSize) := ⟨_, rfl⟩
  rw [← hresult] at hafter hsmall ⊢
  have hback := fun streamTo : File => streamCopy_eq (result.seek 0) streamTo
    (show result.data.length ≤ (result.seek 0).rest.length by
      simp [Cursor.length_rest, Cursor.seek_pos])
  have hplace : scratch.2.pos ≤ result.data.length := by
    rw [hresult, Cursor.write_data, length_overwrite hspos]
    omega
  have hscratchTell : tell scratch.2 = scratch.2.pos := sizeT_natCast (by
    unfold storageFileTell
    omega)
  have hlow : -2 ^ 31 ≤ (scratch.2.pos : ℤ) := by omega
  have hhigh : (scratch.2.pos : ℤ) < 2 ^ 31 := by omega
  have hword : int32 scratch.2.pos = scratch.2.pos := int32_of_range hlow hhigh
  have hend : seek (result.seek result.data.length) scratch.2.pos .fromStart =
      (true, result.seek scratch.2.pos) :=
    seek_eq_of_le (show (result.seek _).data.length < _ from hsmall) .fromStart
      (by simp [StreamOffset.origin]) hplace hhigh
  have hrewind : ∀ n, rewind ((stream.seek (stream.pos + deleted)).advance n) =
      (true, stream.seek 0) := fun n => rewind_eq h
  rw [inserted] at hscratch
  simp only [deleteAndInsert, rewind_eq h, tell_eq h, size_eq h, orBreak_true, hbefore, ne_eq,
    not_true_eq_false, if_false, ← hscratch, hcb, Bool.not_true, Bool.false_eq_true, ← hdeleted,
    hskip, hkeep, hrest, hafter, rewind_eq hsmall, size_eq hsmall, hback, hrewind,
    storageFileTruncate, Cursor.truncate_write_all, hscratchTell, hword, hend]

theorem deleteAndInsert_false (h : stream.data.length < 2 ^ 31)
    (hcb : (inserted stream writeCallback).1 = false) :
    deleteAndInsert stream deleteSize writeCallback = (false, stream) := by
  have hpos := stream.pos_le
  have hcopy := streamCopy_eq (stream.seek 0) .empty
    (show stream.pos ≤ (stream.seek 0).rest.length by simp [Cursor.length_rest, Cursor.seek_pos, hpos])
  rw [Cursor.seek_zero_advance, Cursor.empty_write_peek] at hcopy
  rw [inserted] at hcb
  simp only [deleteAndInsert, rewind_eq h, tell_eq h, orBreak_true, hcopy, ne_eq,
    not_true_eq_false, if_false, hcb, Bool.not_false, if_true]

theorem deleteAndInsert_small (h : stream.data.length < 2 ^ 31)
    (hsmall : (inserted stream writeCallback).1 = true →
      (replaced stream deleteSize writeCallback).data.length < 2 ^ 31) :
    (deleteAndInsert stream deleteSize writeCallback).2.data.length < 2 ^ 31 := by
  cases hcb : (inserted stream writeCallback).1 with
  | false =>
    rw [deleteAndInsert_false h hcb]
    exact h
  | true =>
    rw [deleteAndInsert_eq h hcb (hsmall hcb)]
    exact hsmall hcb

end FileStream

end KiisuFirmware
