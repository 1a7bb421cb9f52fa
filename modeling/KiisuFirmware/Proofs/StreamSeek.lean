import KiisuFirmware.StreamClient
import KiisuFirmware.Proofs.BufferedClient

/-!
# A search stops at the nearest character

The loops go through the rest of the file, forwards, or through what is in front of the position,
backwards, a piece at a time; the index they stop at is the one the list function `findIdx?` finds
in the whole of it (`forwardLoop_ensures`, `backwardLoop_ensures`). Offsets are of 32 bits with a
sign, so a file of `2 ^ 31` bytes is too long: the seek back to where a search began can fail.
-/

namespace KiisuFirmware

variable {σ α : Type} {v : StreamVTable σ} {R : σ → File → Prop} {c : UInt8} {f : File}

/-! ## The statement -/

/-- The places of a character on one side of the position. -/
def occurrences (c : UInt8) (f : File) : StreamDirection → Set ℕ
  | .forward => {i | f.pos < i ∧ f.data[i]? = some c}
  | .backward => {i | i < f.pos ∧ f.data[i]? = some c}

/-- The nearest of them. -/
def IsNearest (c : UInt8) (f : File) (direction : StreamDirection) (i : ℕ) : Prop :=
  match direction with
  | .forward => IsLeast (occurrences c f .forward) i
  | .backward => IsGreatest (occurrences c f .backward) i

/-- A search succeeds if there is such a place, and goes to the nearest; otherwise nothing moves. -/
def FindsNearest (c : UInt8) (direction : StreamDirection) (f : File) (result : Bool) (f' : File) :
    Prop :=
  (result = true ↔ (occurrences c f direction).Nonempty) ∧
    (result = true → f'.data = f.data ∧ IsNearest c f direction f'.pos) ∧
    (result = false → f' = f)

/-! ## The stream below the search -/

/-- What a search needs of a stream: right after a read it can go back into what was read. -/
structure SeekOk (v : StreamVTable σ) (R : σ → File → Prop) : Prop where
  short : ∀ {s f}, R s f → f.data.length < 2 ^ 31
  tell : ∀ {s f}, R s f → v.tell s = f.pos
  size : ∀ {s f}, R s f → v.size s = f.data.length
  skip : ∀ {s f}, R s f →
    (v.seek s 1 .fromCurrent).1 = (seekTarget f.data.length (f.pos + 1)).1 ∧
      R (v.seek s 1 .fromCurrent).2 (f.seek (seekTarget f.data.length (f.pos + 1)).2)
  start : ∀ {s f}, R s f → ∀ p : ℕ, p ≤ f.data.length →
    (v.seek s p .fromStart).1 = true ∧ R (v.seek s p .fromStart).2 (f.seek p)
  read : ∀ {s f}, R s f → ∀ n, (v.read s n).1 = f.peek n ∧ R (v.read s n).2 (f.advance n)
  back : ∀ {s f}, R s f → ∀ n i, i ≤ (f.peek n).length →
    R (v.seek (v.read s n).2 ((i : ℤ) - (f.peek n).length) .fromCurrent).2 (f.advance i)

section Search

variable (hv : SeekOk v R)
include hv

theorem SeekOk.ensures_of_short {m : StreamM σ α} {Q : α → File → Prop}
    (h : f.data.length < 2 ^ 31 → Ensures R m f Q) : Ensures R m f Q :=
  fun s hs => h (hv.short hs) s hs

theorem SeekOk.tell_ensures : Ensures R v.streamTell f fun n f' => n = f.pos ∧ f' = f :=
  fun s hs => ⟨_, s, f, rfl, hs, hv.tell hs, rfl⟩

theorem SeekOk.size_ensures : Ensures R v.streamSize f fun n f' => n = f.data.length ∧ f' = f :=
  fun s hs => ⟨_, s, f, rfl, hs, hv.size hs, rfl⟩

theorem SeekOk.read_ensures (n : ℕ) :
    Ensures R (v.streamRead n) f fun data f' => data = f.peek n ∧ f' = f.advance n :=
  fun _ hs => ⟨_, _, _, rfl, (hv.read hs n).2, (hv.read hs n).1, rfl⟩

theorem SeekOk.skip_ensures : Ensures R (v.streamSeek 1 .fromCurrent) f fun b f' =>
    b = (seekTarget f.data.length (f.pos + 1)).1 ∧
      f' = f.seek (seekTarget f.data.length (f.pos + 1)).2 :=
  fun _ hs => ⟨_, _, _, rfl, (hv.skip hs).2, (hv.skip hs).1, rfl⟩

theorem SeekOk.start_ensures {p : ℕ} (hp : p ≤ f.data.length) :
    Ensures R (v.streamSeek (int32 p) .fromStart) f fun b f' => b = true ∧ f' = f.seek p := by
  intro s hs
  have hshort := hv.short hs
  rw [int32_of_range (x := (p : ℤ)) (by omega) (by omega)]
  exact ⟨_, _, _, rfl, (hv.start hs p hp).2, (hv.start hs p hp).1, rfl⟩

theorem SeekOk.check_ensures {p : ℕ} (hp : p ≤ f.data.length) :
    Ensures R (furiCheckStream (v.streamSeek (int32 p) .fromStart)) f fun _ f' => f' = f.seek p := by
  refine (hv.start_ensures hp).bind_eq ?_
  rw [if_pos rfl]
  exact Ensures.pure rfl

/-! ## Forwards -/

theorem forwardLoop_ensures : ∀ (rounds : ℕ) {f : File}, f.rest.length < rounds →
    Ensures R (v.seekToCharForwardLoop c rounds) f fun b f' =>
      match f.rest.findIdx? (· == c) with
      | some i => b = true ∧ f' = f.advance i
      | none => b = false ∧ f'.data = f.data
  | 0, f, hrounds => absurd hrounds (Nat.not_lt_zero _)
  | rounds + 1, f, hrounds => by
    intro s hs
    have hsplit : f.rest = f.peek STREAM_BUFFER_SIZE ++ (f.advance STREAM_BUFFER_SIZE).rest := by
      rw [Cursor.rest_advance, Cursor.peek_eq, List.take_append_drop]
    obtain ⟨hdata, hs'⟩ := hv.read hs STREAM_BUFFER_SIZE
    have hback := hv.back hs STREAM_BUFFER_SIZE
    obtain ⟨buffer, hbuffer⟩ : ∃ buffer, buffer = f.peek STREAM_BUFFER_SIZE := ⟨_, rfl⟩
    have hlength : buffer.length ≤ STREAM_BUFFER_SIZE := by
      rw [hbuffer, Cursor.peek_eq]
      exact List.length_take_le _ _
    have hrun : v.seekToCharForwardLoop c (rounds + 1) s =
        (match buffer.findIdx? (· == c) with
          | some i => (do
              let _ ← v.streamSeek (int32 (sizeT ((i : ℤ) - buffer.length))) .fromCurrent
              return true : StreamM σ Bool)
          | none => if buffer.length ≠ STREAM_BUFFER_SIZE then pure false
            else v.seekToCharForwardLoop c rounds) (v.read s STREAM_BUFFER_SIZE).2 := by
      rw [hbuffer, ← hdata]
      rfl
    rw [hrun]
    rw [← hbuffer] at hsplit hback
    rw [hsplit, List.findIdx?_append]
    cases hfind : buffer.findIdx? (· == c) with
    | some i =>
      have hi : i < buffer.length := (List.findIdx?_eq_some_iff_getElem.1 hfind).1
      simp only [STREAM_BUFFER_SIZE] at hlength
      refine ⟨true, _, f.advance i, ?_, hback i hi.le, ?_⟩
      · simp only
        rw [int32_back hi.le (by omega)]
        rfl
      · simp
    | none =>
      by_cases hshort : buffer.length ≠ STREAM_BUFFER_SIZE
      · have hrest : (f.advance STREAM_BUFFER_SIZE).rest = [] := by
          rw [hbuffer, Cursor.length_peek] at hshort
          refine List.length_eq_zero_iff.1 ?_
          rw [Cursor.rest_advance, List.length_drop, Cursor.length_rest]
          omega
        rw [hrest]
        refine ⟨false, _, _, ?_, hs', ?_⟩
        · simp only [if_pos hshort]
          rfl
        · simp
      · simp only [if_neg hshort]
        have hless : (f.advance STREAM_BUFFER_SIZE).rest.length < rounds := by
          rw [hsplit, List.length_append, not_not.1 hshort] at hrounds
          simp only [STREAM_BUFFER_SIZE] at hrounds ⊢
          omega
        obtain ⟨b, s'', f'', hrun', hs'', hres⟩ := forwardLoop_ensures rounds hless _ hs'
        refine ⟨b, s'', f'', hrun', hs'', ?_⟩
        cases hrest : (f.advance STREAM_BUFFER_SIZE).rest.findIdx? (· == c) with
        | none =>
          rw [hrest] at hres
          exact hres
        | some i =>
          rw [hrest] at hres
          obtain ⟨rfl, rfl⟩ := hres
          simp only [Option.map_some, Option.none_or, not_not.1 hshort]
          rw [Cursor.advance_advance, Nat.add_comm]
          exact ⟨trivial, rfl⟩

/-! ## Backwards -/

theorem backwardLoop_ensures : ∀ (rounds anchor : ℕ) {f : File}, anchor ≤ f.data.length →
    anchor < rounds →
    Ensures R (v.seekToCharBackwardLoop c rounds anchor) f fun b f' =>
      match (f.data.take anchor).reverse.findIdx? (· == c) with
      | some i => b = true ∧ f' = f.seek (anchor - i - 1)
      | none => b = false ∧ f'.data = f.data
  | 0, anchor, f, _, hrounds => absurd hrounds (Nat.not_lt_zero _)
  | rounds + 1, anchor, f, hle, hrounds => by
    refine hv.ensures_of_short fun hfits => ?_
    obtain ⟨toRead, htoRead⟩ : ∃ n, n = if anchor < STREAM_BUFFER_SIZE then anchor
        else STREAM_BUFFER_SIZE := ⟨_, rfl⟩
    have hmin : toRead = min anchor STREAM_BUFFER_SIZE := by
      rw [htoRead]
      split_ifs <;> omega
    rw [StreamVTable.seekToCharBackwardLoop]
    simp only [← htoRead]
    refine (hv.check_ensures (by omega : anchor - toRead ≤ f.data.length)).bind ?_
    rintro _ _ rfl
    refine (hv.read_ensures toRead).bind_eq ?_
    obtain ⟨buffer, hbuffer⟩ : ∃ buffer, buffer = (f.seek (anchor - toRead)).peek toRead := ⟨_, rfl⟩
    have hpos : (f.seek (anchor - toRead)).pos = anchor - toRead :=
      Cursor.seek_pos_of_le (by omega)
    have hlength : buffer.length = toRead := by
      rw [hbuffer, Cursor.length_peek, hpos, Cursor.seek_data]
      omega
    have hsplit : f.data.take anchor = f.data.take (anchor - toRead) ++ buffer := by
      rw [hbuffer, Cursor.peek, hpos, Cursor.seek_data, ← List.take_add]
      congr 1
      omega
    rw [← hbuffer, hsplit, List.reverse_append, List.findIdx?_append]
    cases hfind : buffer.reverse.findIdx? (· == c) with
    | some i =>
      have hi : i < toRead := by
        rw [← hlength, ← List.length_reverse]
        exact (List.findIdx?_eq_some_iff_getElem.1 hfind).1
      have hcursor : anchor - toRead + (buffer.length - i - 1) = anchor - i - 1 := by omega
      have hplace : anchor - i - 1 ≤ ((f.seek (anchor - toRead)).advance toRead).data.length := by
        rw [Cursor.advance_data, Cursor.seek_data]
        omega
      simp only [Option.some_or]
      rw [← Nat.cast_add, hcursor, sizeT_natCast (by omega)]
      refine (hv.check_ensures hplace).bind ?_
      rintro _ _ rfl
      exact Ensures.pure ⟨rfl, rfl⟩
    | none =>
      simp only [Option.none_or, List.length_reverse]
      by_cases hshort : buffer.length ≠ STREAM_BUFFER_SIZE
      · rw [if_pos hshort]
        have hzero : anchor - toRead = 0 := by omega
        refine Ensures.pure ?_
        rw [hzero]
        simp
      · rw [if_neg hshort]
        rw [not_not, hlength] at hshort
        simp only [STREAM_BUFFER_SIZE] at hshort hmin
        refine (backwardLoop_ensures rounds (anchor - toRead) (by
          rw [Cursor.advance_data, Cursor.seek_data]; omega) (by omega)).mono ?_
        intro b f' hres
        rw [Cursor.advance_data, Cursor.seek_data] at hres
        cases hrest : (f.data.take (anchor - toRead)).reverse.findIdx? (· == c) with
        | none =>
          rw [hrest] at hres
          exact hres
        | some i =>
          rw [hrest] at hres
          obtain ⟨rfl, rfl⟩ := hres
          refine ⟨rfl, ?_⟩
          have hcursor : anchor - toRead - i - 1 = anchor - (i + buffer.length) - 1 := by omega
          rw [hcursor]
          rfl

/-! ## The nearest place -/

omit hv in
theorem findIdx?_beq_some {bytes : List UInt8} {i : ℕ} (h : bytes.findIdx? (· == c) = some i) :
    bytes[i]? = some c ∧ ∀ j < i, bytes[j]? ≠ some c := by
  obtain ⟨hi, hc, hbefore⟩ := List.findIdx?_eq_some_iff_getElem.1 h
  refine ⟨by rw [List.getElem?_eq_getElem hi, eq_of_beq hc], fun j hj hother => ?_⟩
  rw [List.getElem?_eq_getElem (hj.trans hi), Option.some.injEq] at hother
  exact hbefore j hj (by rw [hother, beq_self_eq_true])

omit hv in
theorem findIdx?_beq_none {bytes : List UInt8} (h : bytes.findIdx? (· == c) = none) (j : ℕ) :
    bytes[j]? ≠ some c := by
  intro hother
  have hne := List.findIdx?_eq_none_iff.1 h c (List.mem_of_getElem? hother)
  rw [beq_self_eq_true] at hne
  cases hne

omit hv in
theorem isLeast_of_findIdx {i : ℕ} (h : (f.data.drop (f.pos + 1)).findIdx? (· == c) = some i) :
    IsLeast (occurrences c f .forward) (f.pos + 1 + i) := by
  obtain ⟨hi, hbefore⟩ := findIdx?_beq_some h
  rw [List.getElem?_drop] at hi
  refine ⟨⟨by omega, hi⟩, ?_⟩
  rintro j ⟨hj, hc⟩
  by_contra hlt
  refine hbefore (j - (f.pos + 1)) (by omega) ?_
  rw [List.getElem?_drop, Nat.add_sub_cancel' hj]
  exact hc

omit hv in
theorem isGreatest_of_findIdx {i : ℕ}
    (h : (f.data.take f.pos).reverse.findIdx? (· == c) = some i) :
    IsGreatest (occurrences c f .backward) (f.pos - i - 1) := by
  have hlength : (f.data.take f.pos).length = f.pos := List.length_take_of_le f.pos_le
  have hi : i < (f.data.take f.pos).length := by
    rw [← List.length_reverse]
    exact (List.findIdx?_eq_some_iff_getElem.1 h).1
  obtain ⟨hplace, hbefore⟩ := findIdx?_beq_some h
  rw [List.getElem?_reverse hi, hlength, List.getElem?_take_of_lt (by omega)] at hplace
  refine ⟨⟨by omega, by rw [Nat.sub_right_comm]; exact hplace⟩, ?_⟩
  rintro j ⟨hj, hc⟩
  by_contra hlt
  refine hbefore (f.pos - 1 - j) (by omega) ?_
  rw [List.getElem?_reverse (by omega), hlength, List.getElem?_take_of_lt (by omega)]
  rw [show f.pos - 1 - (f.pos - 1 - j) = j by omega]
  exact hc

omit hv in
theorem not_occurs_forward (h : (f.data.drop (f.pos + 1)).findIdx? (· == c) = none) :
    ¬(occurrences c f .forward).Nonempty := by
  rintro ⟨j, hj, hc⟩
  refine findIdx?_beq_none h (j - (f.pos + 1)) ?_
  rw [List.getElem?_drop, Nat.add_sub_cancel' hj]
  exact hc

omit hv in
theorem not_occurs_backward (h : (f.data.take f.pos).reverse.findIdx? (· == c) = none) :
    ¬(occurrences c f .backward).Nonempty := by
  rintro ⟨j, hj, hc⟩
  have hle := f.pos_le
  refine findIdx?_beq_none h (f.pos - 1 - j) ?_
  rw [List.getElem?_reverse (by rw [List.length_take]; omega), List.length_take_of_le hle,
    List.getElem?_take_of_lt (by omega)]
  rw [show f.pos - 1 - (f.pos - 1 - j) = j by omega]
  exact hc

/-- Before the rollback: it found the nearest place, or there is none. -/
def Searched (c : UInt8) (direction : StreamDirection) (f : File) (result : Bool) (f' : File) :
    Prop :=
  f'.data = f.data ∧ if result then IsNearest c f direction f'.pos
    else ¬(occurrences c f direction).Nonempty

theorem streamSeekToCharForward_ensures :
    Ensures R (v.streamSeekToCharForward c) f (Searched c .forward f) := by
  refine hv.ensures_of_short fun hfits => ?_
  have hle := f.pos_le
  refine hv.skip_ensures.bind_eq ?_
  rcases Nat.lt_or_ge f.pos f.data.length with hlt | hend
  · have htarget : seekTarget f.data.length (f.pos + 1) = (true, f.pos + 1) := by
      have h := seekTarget_of_le (p := f.pos + 1) hlt hfits
      rw [Nat.cast_succ] at h
      exact h
    have hpos : (f.seek (f.pos + 1)).pos = f.pos + 1 := Cursor.seek_pos_of_le hlt
    have hrest : (f.seek (f.pos + 1)).rest = f.data.drop (f.pos + 1) := by
      rw [Cursor.rest, hpos, Cursor.seek_data]
    rw [htarget]
    refine hv.size_ensures.bind_eq ((forwardLoop_ensures hv _ (by
      rw [Cursor.length_rest]; omega)).mono ?_)
    intro b f' hres
    rw [hrest] at hres
    cases hfind : (f.data.drop (f.pos + 1)).findIdx? (· == c) with
    | some i =>
      rw [hfind] at hres
      obtain ⟨rfl, rfl⟩ := hres
      have hleast := isLeast_of_findIdx hfind
      have hplace : ((f.seek (f.pos + 1)).advance i).pos = f.pos + 1 + i := by
        have hin := (List.getElem?_eq_some_iff.1 hleast.1.2).1
        rw [Cursor.advance_pos, hpos, Cursor.seek_data, min_eq_left hin.le]
      refine ⟨rfl, ?_⟩
      rw [if_pos rfl, hplace]
      exact hleast
    | none =>
      rw [hfind] at hres
      obtain ⟨rfl, hdata⟩ := hres
      exact ⟨hdata, not_occurs_forward hfind⟩
  · have htarget : (seekTarget f.data.length (f.pos + 1)).1 = false := by
      unfold seekTarget
      split_ifs
      · rfl
      · rfl
      · omega
    rw [htarget]
    refine Ensures.pure ⟨rfl, ?_⟩
    rintro ⟨j, hj, hc⟩
    have hin := (List.getElem?_eq_some_iff.1 hc).1
    omega

theorem streamSeekToCharBackward_ensures :
    Ensures R (v.streamSeekToCharBackward c) f (Searched c .backward f) := by
  refine hv.tell_ensures.bind_eq ?_
  by_cases hzero : f.pos = 0
  · rw [if_pos hzero]
    refine Ensures.pure ⟨rfl, ?_⟩
    rintro ⟨j, hj, -⟩
    omega
  · rw [if_neg hzero]
    refine (backwardLoop_ensures hv _ _ f.pos_le (Nat.lt_succ_self _)).mono ?_
    intro b f' hres
    cases hfind : (f.data.take f.pos).reverse.findIdx? (· == c) with
    | some i =>
      rw [hfind] at hres
      obtain ⟨rfl, rfl⟩ := hres
      have hle := f.pos_le
      refine ⟨rfl, ?_⟩
      rw [if_pos rfl, Cursor.seek_pos_of_le (by omega)]
      exact isGreatest_of_findIdx hfind
    | none =>
      rw [hfind] at hres
      obtain ⟨rfl, hdata⟩ := hres
      exact ⟨hdata, not_occurs_backward hfind⟩

omit hv in
theorem IsNearest.mem {direction : StreamDirection} {i : ℕ} (h : IsNearest c f direction i) :
    i ∈ occurrences c f direction := by
  cases direction with
  | forward => exact h.1
  | backward => exact h.1

theorem streamSeekToChar_ensures (direction : StreamDirection) :
    Ensures R (v.streamSeekToChar c direction) f (FindsNearest c direction f) := by
  refine hv.tell_ensures.bind_eq ?_
  have hsearch : Ensures R (v.searchIn c direction) f (Searched c direction f) := by
    cases direction with
    | forward => exact streamSeekToCharForward_ensures hv
    | backward => exact streamSeekToCharBackward_ensures hv
  refine hsearch.bind ?_
  rintro result f' ⟨hdata, hresult⟩
  cases result with
  | true =>
    rw [if_pos rfl] at hresult
    exact Ensures.pure ⟨⟨fun _ => ⟨_, hresult.mem⟩, fun _ => rfl⟩, fun _ => ⟨hdata, hresult⟩,
      fun h => absurd h.symm Bool.false_ne_true⟩
  | false =>
    have hle : f.pos ≤ f'.data.length := by
      rw [hdata]
      exact f.pos_le
    have hback : f'.seek f.pos = f := by
      refine Cursor.ext hdata ?_
      exact Cursor.seek_pos_of_le hle
    refine (hv.start_ensures hle).bind_eq ?_
    rw [hback]
    exact Ensures.pure ⟨⟨fun h => absurd h Bool.false_ne_true, fun h => absurd h hresult⟩,
      fun h => absurd h Bool.false_ne_true, fun _ => rfl⟩

end Search

/-! ## The implementations -/

theorem back_offset {n i : ℕ} (hi : i ≤ (f.peek n).length) :
    ((StreamOffset.origin (f.advance n).pos (f.advance n).data.length .fromCurrent : ℕ) : ℤ) +
        ((i : ℤ) - (f.peek n).length) = (f.pos + i : ℕ) ∧
      f.pos + i ≤ (f.advance n).data.length ∧ (i : ℤ) - (f.peek n).length ≤ 0 := by
  have hplace := f.advance_pos_peek n
  have hle := (f.advance n).pos_le
  refine ⟨?_, by omega, by omega⟩
  rw [StreamOffset.origin, hplace]
  push_cast
  ring

theorem FileStream.seekOk :
    SeekOk FileStream.vtable fun s f => s = f ∧ f.data.length < 2 ^ 31 where
  short h := h.2
  tell := by
    rintro s f ⟨rfl, hfits⟩
    exact FileStream.tell_eq hfits
  size := by
    rintro s f ⟨rfl, hfits⟩
    exact FileStream.size_eq hfits
  skip := by
    rintro s f ⟨rfl, hfits⟩
    have heq := @FileStream.seek_eq s hfits 1 _ .fromCurrent rfl (by omega) (by norm_num)
    simp only [FileStream.vtable, heq]
    exact ⟨rfl, rfl, hfits⟩
  start := by
    rintro s f ⟨rfl, hfits⟩ p hp
    have heq := @FileStream.seek_eq_of_le s hfits p .fromStart p (zero_add _) hp (by omega)
    simp only [FileStream.vtable, heq]
    exact ⟨trivial, trivial, hfits⟩
  read := by
    rintro s f ⟨rfl, hfits⟩ n
    exact ⟨rfl, rfl, hfits⟩
  back := by
    rintro s f ⟨rfl, hfits⟩ n i hi
    obtain ⟨horigin, hplace, hoffset⟩ := back_offset hi
    have heq := @FileStream.seek_eq_of_le (s.advance n) hfits _ .fromCurrent _ horigin hplace
      (by omega)
    simp only [FileStream.vtable, FileStream.read, storageFileRead, heq]
    exact ⟨rfl, hfits⟩

theorem StringStream.Same.short {s : StringStream} {f : File} (h : Same s f) :
    f.data.length < 2 ^ 31 := by
  have hfits := s.string.fits
  rw [h.chars] at hfits
  omega

theorem StringStream.seekOk : SeekOk StringStream.vtable Same where
  short h := h.short
  tell := by
    rintro s f ⟨-, hindex⟩
    exact hindex
  size := by
    rintro s f ⟨hchars, -⟩
    rw [← hchars]
    rfl
  skip := by
    intro s f hsame
    exact hsame.seek .fromCurrent rfl (by omega) (by norm_num)
  start := by
    intro s f hsame p hp
    have hfits := hsame.short
    have hseek := @Same.seek _ _ hsame p p .fromStart (zero_add _) (by omega) (by omega)
    rw [seekTarget_of_le hp hfits] at hseek
    exact hseek
  read hsame n := hsame.read n
  back := by
    intro s f hsame n i hi
    have hfits := hsame.short
    obtain ⟨horigin, hplace, hoffset⟩ := back_offset hi
    have hseek := (hsame.read n).2.seek .fromCurrent horigin (by omega) (by omega)
    rw [seekTarget_of_le hplace hfits] at hseek
    exact hseek.2

namespace BufferedFileStream

theorem readLoop_cached (stream : BufferedFileStream) (n : ℕ)
    (h : (stream.readLoop n).2.syncPending = true) :
    (stream.readLoop n).1.length ≤ (stream.readLoop n).2.cache.position := by
  by_cases hn : n = 0
  · rw [readLoop, if_pos hn]
    exact Nat.zero_le _
  rw [readLoop, if_neg hn] at h ⊢
  by_cases hfits : (stream.cache.read n).1.length = n
  · simp only [if_pos hfits]
    simp [StreamCache.read]
  · -- every other way out of the loop has been through a synchronisation
    simp only [if_neg hfits] at h
    have hsynced := @sync_syncPending
      ⟨stream.fileStream, (stream.cache.read n).2, stream.syncPending⟩
    split_ifs at h
    · rw [hsynced] at h
      cases h
    · dsimp only at h
      rw [readLoop_syncPending _ _ (by exact hsynced)] at h
      cases h
    · rw [hsynced] at h
      cases h

theorem seekOk : SeekOk vtable fun s f => Views s f ∧ f.data.length < 2 ^ 31 where
  short h := h.2
  tell h := tell_eq h.1 h.2
  size h := size_eq h.1 h.2
  skip := by
    rintro s f ⟨hviews, hfits⟩
    have hplain := @FileStream.seek_eq f hfits 1 _ .fromCurrent rfl (by omega) (by norm_num)
    have hseek : (s.seek 1 .fromCurrent).1 = (FileStream.seek f 1 .fromCurrent).1 ∧
        Views (s.seek 1 .fromCurrent).2 (FileStream.seek f 1 .fromCurrent).2 := by
      rcases le_or_gt 1 ((s.cache.data.length : ℤ) - s.cache.position) with hinside | hforth
      · exact seek_inside hviews hfits (by omega) hinside
      · exact seek_forwards hviews hfits (by norm_num) hforth
    rw [hplain] at hseek
    exact ⟨hseek.1, hseek.2, hfits⟩
  start := by
    rintro s f ⟨hviews, hfits⟩ p hp
    have hplain := @FileStream.seek_eq_of_le f hfits p .fromStart p (zero_add _) hp (by omega)
    have hseek := @seek_fromStart_fromEnd s f p .fromStart hviews hfits (by simp) (by omega)
      (by omega)
    rw [hplain] at hseek
    exact ⟨hseek.1, hseek.2, hfits⟩
  read := by
    rintro s f ⟨hviews, hfits⟩ n
    obtain ⟨hdata, hviews'⟩ := readLoop_eq s f n hviews hfits
    exact ⟨hdata, hviews', hfits⟩
  back := by
    rintro s f ⟨hviews, hfits⟩ n i hi
    obtain ⟨hdata, hviews'⟩ := readLoop_eq s f n hviews hfits
    have hcached := readLoop_cached s n
    rw [hdata] at hcached
    obtain ⟨horigin, hplace, hoffset⟩ := back_offset hi
    have hlength : (f.peek n).length ≤ f.data.length := by
      rw [Cursor.length_peek]
      omega
    have hplain := @FileStream.seek_eq_of_le (f.advance n) hfits _ .fromCurrent _ horigin hplace
      (by omega)
    have hseek : Views ((s.readLoop n).2.seek ((i : ℤ) - (f.peek n).length) .fromCurrent).2
        (FileStream.seek (f.advance n) ((i : ℤ) - (f.peek n).length) .fromCurrent).2 := by
      by_cases hinside : -((s.readLoop n).2.cache.position : ℤ) ≤ (i : ℤ) - (f.peek n).length
      · have hle := (s.readLoop n).2.cache.position_le
        exact (seek_inside hviews' hfits hinside (by omega)).2
      · refine (seek_backwards hviews' hfits (by omega) (by omega) fun hpending => ?_).2
        have hle := hcached hpending
        omega
    rw [hplain] at hseek
    exact ⟨hseek, hfits⟩

end BufferedFileStream

/-- Whatever the implementation, a search stops at the nearest character or moves nothing. -/
theorem seekToChar_nearest (c : UInt8) (direction : StreamDirection) (f : File)
    (hshort : f.data.length < 2 ^ 31) :
    (∃ result f', FileStream.vtable.streamSeekToChar c direction f = some (result, f') ∧
      FindsNearest c direction f result f') ∧
    (∀ s : BufferedFileStream, BufferedFileStream.Views s f → ∃ result s' f',
      BufferedFileStream.vtable.streamSeekToChar c direction s = some (result, s') ∧
        BufferedFileStream.Views s' f' ∧ FindsNearest c direction f result f') ∧
    (∀ s : StringStream, StringStream.Same s f → ∃ result s' f',
      StringStream.vtable.streamSeekToChar c direction s = some (result, s') ∧
        StringStream.Same s' f' ∧ FindsNearest c direction f result f') := by
  refine ⟨?_, fun s hs => ?_, fun s hs => ?_⟩
  · obtain ⟨result, _, f', hrun, ⟨rfl, -⟩, hfinds⟩ :=
      streamSeekToChar_ensures FileStream.seekOk direction f ⟨rfl, hshort⟩
    exact ⟨result, _, hrun, hfinds⟩
  · obtain ⟨result, s', f', hrun, ⟨hviews, -⟩, hfinds⟩ :=
      streamSeekToChar_ensures BufferedFileStream.seekOk direction s ⟨hs, hshort⟩
    exact ⟨result, s', f', hrun, hviews, hfinds⟩
  · exact streamSeekToChar_ensures StringStream.seekOk direction s hs

theorem seekToChar_nearest_comma : ∃ result f',
    FileStream.vtable.streamSeekToChar 44 .forward ⟨[1, 44, 3, 44], 0, Nat.zero_le _⟩ =
        some (result, f') ∧
      FindsNearest 44 .forward ⟨[1, 44, 3, 44], 0, Nat.zero_le _⟩ result f' :=
  (seekToChar_nearest 44 .forward ⟨[1, 44, 3, 44], 0, Nat.zero_le _⟩ (by simp)).1

theorem search_lost (c : UInt8) {f : File} (hpos : f.pos = 2 ^ 31) :
    FileStream.vtable.streamSeekToChar c .forward f = some (false, f.seek 0) := by
  have htell : FileStream.tell f = 2 ^ 31 := by
    rw [FileStream.tell, storageFileTell, hpos]
    exact sizeT_natCast (by norm_num)
  have hskip : FileStream.seek f 1 .fromCurrent = (false, f.seek 0) := by
    have hplace : FileStream.seekPosition (2 ^ 31) (FileStream.size f) 1 .fromCurrent = none := by
      rw [FileStream.seekPosition, if_neg (by decide)]
    rw [FileStream.seek, htell, hplace]
    rfl
  have hback : FileStream.seek (f.seek 0) (int32 (2 ^ 31 : ℕ)) .fromStart = (false, f.seek 0) := by
    have hplace : FileStream.seekPosition (FileStream.tell (f.seek 0)) (FileStream.size (f.seek 0))
        (int32 (2 ^ 31 : ℕ)) .fromStart = none := by
      rw [FileStream.seekPosition, if_neg (by decide)]
    rw [FileStream.seek, hplace]
    rfl
  have hsearch : FileStream.vtable.streamSeekToCharForward c f = some (false, f.seek 0) := by
    have hrun : FileStream.vtable.streamSeek 1 .fromCurrent f = some (false, f.seek 0) :=
      congrArg some hskip
    simp only [StreamVTable.streamSeekToCharForward, bind, StateT.bind, hrun, Option.bind_some]
    rfl
  have hstart : FileStream.vtable.streamTell f = some (2 ^ 31, f) :=
    congrArg (fun n => some (n, f)) htell
  have hrollback : FileStream.vtable.streamSeek (int32 (2 ^ 31 : ℕ)) .fromStart (f.seek 0) =
      some (false, f.seek 0) := congrArg some hback
  simp only [StreamVTable.streamSeekToChar, StreamVTable.searchIn, bind, StateT.bind, hstart,
    Option.bind_some, hsearch, Bool.false_eq_true, if_false, hrollback]
  rfl

theorem not_seekToChar_nearest :
    ¬∀ (c : UInt8) (direction : StreamDirection) (f : File), ∃ result f',
      FileStream.vtable.streamSeekToChar c direction f = some (result, f') ∧
        FindsNearest c direction f result f' := by
  intro h
  obtain ⟨f, hpos⟩ : ∃ f : File, f.pos = 2 ^ 31 :=
    ⟨⟨List.replicate (2 ^ 31) 0, 2 ^ 31, by rw [List.length_replicate]⟩, rfl⟩
  obtain ⟨result, f', hrun, hfinds⟩ := h 1 .forward f
  rw [search_lost 1 hpos] at hrun
  cases hrun
  have hback := congrArg Cursor.pos (hfinds.2.2 rfl)
  rw [Cursor.seek_pos, Nat.zero_min, hpos] at hback
  norm_num at hback

end KiisuFirmware
