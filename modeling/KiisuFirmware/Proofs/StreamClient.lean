import Mathlib.Data.List.GetD
import KiisuFirmware.StreamClient
import KiisuFirmware.Proofs.StringStream

/-!
# Reasoning about code on top of a stream

An implementation behaves if its states stand for files and its functions do what the stream over
a file does (`StreamOk`). What code does on such a stream is said in terms of the file it stands
for (`Ensures`): the code ends, with a result and a file as described.
-/

namespace KiisuFirmware

variable {σ τ α β : Type} {v : StreamVTable σ} {R : σ → File → Prop}

/-- Short enough for every offset and for a block of the heap. -/
def FileFits (f : File) : Prop := f.data.length + 1 < 2 ^ 31

theorem FileFits.lt {f : File} (h : FileFits f) : f.data.length < 2 ^ 31 := by
  unfold FileFits at h
  omega

/-- The states of an implementation stand for files. -/
structure StreamOk (v : StreamVTable σ) (R : σ → File → Prop) : Prop where
  fits : ∀ {s f}, R s f → FileFits f
  eof : ∀ {s f}, R s f → v.eof s = decide (f.pos = f.data.length)
  tell : ∀ {s f}, R s f → v.tell s = f.pos
  size : ∀ {s f}, R s f → v.size s = f.data.length
  seek : ∀ {s f} {offset p : ℤ}, R s f → ∀ type : StreamOffset,
    type.origin f.pos f.data.length + offset = p → -2 ^ 31 ≤ p → offset < 2 ^ 31 →
    (v.seek s offset type).1 = (seekTarget f.data.length p).1 ∧
      R (v.seek s offset type).2 (f.seek (seekTarget f.data.length p).2)
  read : ∀ {s f}, R s f → ∀ n, (v.read s n).1 = f.peek n ∧ R (v.read s n).2 (f.advance n)
  write : ∀ {s f}, R s f → ∀ data, 0 ∉ data → FileFits (f.write data) →
    ∃ s', v.write s data = some (data.length, s') ∧ R s' (f.write data)
  deleteAndInsert : ∀ {s f}, R s f → ∀ n cb, 0 ∉ cb.text → cb.success = true →
    FileFits (f.truncate.write (cb.text ++ f.rest.drop n)) →
    ∃ s', v.deleteAndInsert s n (some cb) = some (true, s') ∧
      R s' ((f.truncate.write (cb.text ++ f.rest.drop n)).seek (f.pos + cb.text.length))

/-- The part of this that only looks at the file. -/
structure ReadOk (v : StreamVTable σ) (R : σ → File → Prop) : Prop where
  fits : ∀ {s f}, R s f → FileFits f
  tell : ∀ {s f}, R s f → v.tell s = f.pos
  size : ∀ {s f}, R s f → v.size s = f.data.length
  seek : ∀ {s f} {offset p : ℤ}, R s f → ∀ type : StreamOffset,
    type.origin f.pos f.data.length + offset = p → -2 ^ 31 ≤ p → -2 ^ 31 ≤ offset →
    offset < 2 ^ 31 →
    (v.seek s offset type).1 = (seekTarget f.data.length p).1 ∧
      R (v.seek s offset type).2 (f.seek (seekTarget f.data.length p).2)
  read : ∀ {s f}, R s f → ∀ n, (v.read s n).1 = f.peek n ∧ R (v.read s n).2 (f.advance n)

theorem StreamOk.readOk (hv : StreamOk v R) : ReadOk v R where
  fits := hv.fits
  tell := hv.tell
  size := hv.size
  seek hs type hp hlow _ hhigh := hv.seek hs type hp hlow hhigh
  read := hv.read

/-- The code ends on every stream that stands for the file, and then this holds. -/
def Ensures (R : σ → File → Prop) (m : StreamM σ α) (f : File) (Q : α → File → Prop) : Prop :=
  ∀ s, R s f → ∃ a s' f', m s = some (a, s') ∧ R s' f' ∧ Q a f'

namespace Ensures

variable {m : StreamM σ α} {f : File} {Q : α → File → Prop}

theorem pure {a : α} (h : Q a f) : Ensures R (Pure.pure a) f Q :=
  fun s hs => ⟨a, s, f, rfl, hs, h⟩

theorem bind {k : α → StreamM σ β} {P : β → File → Prop} (hm : Ensures R m f Q)
    (hk : ∀ a f', Q a f' → Ensures R (k a) f' P) : Ensures R (m >>= k) f P := by
  intro s hs
  obtain ⟨a, s₁, f₁, hrun, hs₁, hQ⟩ := hm s hs
  obtain ⟨b, s₂, f₂, hrun', hs₂, hP⟩ := hk a f₁ hQ s₁ hs₁
  refine ⟨b, s₂, f₂, ?_, hs₂, hP⟩
  show (m s).bind (fun p => k p.1 p.2) = some (b, s₂)
  rw [hrun]
  exact hrun'

theorem bind_eq {k : α → StreamM σ β} {P : β → File → Prop} {a : α} {f₁ : File}
    (hm : Ensures R m f fun b f' => b = a ∧ f' = f₁) (hk : Ensures R (k a) f₁ P) :
    Ensures R (m >>= k) f P := by
  refine hm.bind ?_
  rintro b f' ⟨rfl, rfl⟩
  exact hk

theorem mono {Q' : α → File → Prop} (h : Ensures R m f Q) (hQ : ∀ a f', Q a f' → Q' a f') :
    Ensures R m f Q' := by
  intro s hs
  obtain ⟨a, s', f', hrun, hs', hres⟩ := h s hs
  exact ⟨a, s', f', hrun, hs', hQ a f' hres⟩

end Ensures

section Reading

variable (hv : ReadOk v R) {f : File}
include hv

theorem streamTell_ensures : Ensures R v.streamTell f fun n f' => n = f.pos ∧ f' = f :=
  fun s hs => ⟨_, s, f, rfl, hs, hv.tell hs, rfl⟩

theorem streamSize_ensures : Ensures R v.streamSize f fun n f' => n = f.data.length ∧ f' = f :=
  fun s hs => ⟨_, s, f, rfl, hs, hv.size hs, rfl⟩

theorem streamRead_ensures (n : ℕ) :
    Ensures R (v.streamRead n) f fun data f' => data = f.peek n ∧ f' = f.advance n :=
  fun _ hs => ⟨_, _, _, rfl, (hv.read hs n).2, (hv.read hs n).1, rfl⟩

theorem streamSeek_ensures (offset : ℤ) {p : ℤ} (type : StreamOffset)
    (hp : type.origin f.pos f.data.length + offset = p) (hlow : -2 ^ 31 ≤ p)
    (hback : -2 ^ 31 ≤ offset) (hhigh : offset < 2 ^ 31) :
    Ensures R (v.streamSeek offset type) f fun b f' =>
      b = (seekTarget f.data.length p).1 ∧ f' = f.seek (seekTarget f.data.length p).2 :=
  fun _ hs => ⟨_, _, _, rfl, (hv.seek hs type hp hlow hback hhigh).2,
    (hv.seek hs type hp hlow hback hhigh).1, rfl⟩

theorem streamSeek_ensures_of_le (offset : ℤ) (type : StreamOffset) {p : ℕ}
    (hp : type.origin f.pos f.data.length + offset = p) (hle : p ≤ f.data.length)
    (hback : -2 ^ 31 ≤ offset) (hhigh : offset < 2 ^ 31) :
    Ensures R (v.streamSeek offset type) f fun b f' => b = true ∧ f' = f.seek p := by
  intro s hs
  have hfits := hv.fits hs
  unfold FileFits at hfits
  have htarget := seekTarget_of_le hle (by omega)
  have hseek := streamSeek_ensures hv offset type hp (by omega) hback hhigh s hs
  rw [htarget] at hseek
  exact hseek

theorem streamRewind_ensures :
    Ensures R v.streamRewind f fun b f' => b = true ∧ f' = f.seek 0 :=
  streamSeek_ensures_of_le hv _ .fromStart rfl (Nat.zero_le _) (by norm_num) (by norm_num)

end Reading

section Writing

variable (hv : StreamOk v R) {f : File}
include hv

theorem streamEof_ensures :
    Ensures R v.streamEof f fun b f' => b = decide (f.pos = f.data.length) ∧ f' = f :=
  fun s hs => ⟨_, s, f, rfl, hs, hv.eof hs, rfl⟩

theorem runWriteCB_ensures : ∀ (cb : StreamWriteCB) {f : File}, 0 ∉ cb.text →
    FileFits (f.write cb.text) →
    Ensures R (v.runWriteCB cb) f fun b f' => b = cb.success ∧ f' = f.write cb.text
  | .done success, f, _, _ => by
    refine Ensures.pure ⟨rfl, ?_⟩
    rw [StreamWriteCB.text, Cursor.write_nil]
  | .write data next, f, hnul, hfits => by
    rw [StreamWriteCB.text, List.mem_append, not_or] at hnul
    rw [StreamWriteCB.text, ← Cursor.write_write] at hfits
    have hlen : (f.write data).data.length ≤
        ((f.write data).write (next data.length).text).data.length := by
      rw [Cursor.write_data _ (next data.length).text,
        length_overwrite (f.write data).pos_le]
      exact le_max_left _ _
    have hfits' : FileFits (f.write data) := by
      unfold FileFits at hfits ⊢
      omega
    have hwrite : Ensures R (v.streamWrite data) f fun n f' =>
        n = data.length ∧ f' = f.write data := by
      intro s hs
      obtain ⟨s', hrun, hs'⟩ := hv.write hs data hnul.1 hfits'
      exact ⟨_, s', _, hrun, hs', rfl, rfl⟩
    refine hwrite.bind_eq ?_
    rw [StreamWriteCB.text, ← Cursor.write_write, StreamWriteCB.success]
    exact runWriteCB_ensures (next data.length) hnul.2 hfits

end Writing

/-! ## Chunk by chunk -/

namespace Scanner

variable (scanner : Scanner τ)

theorem scan_append_none : ∀ {t t' : τ} {a : List UInt8}, scanner.scan t a = (t', none) →
    ∀ b, scanner.scan t (a ++ b) =
      ((scanner.scan t' b).1, (scanner.scan t' b).2.map (· + a.length))
  | t, t', [], h, b => by
    rw [scan, Prod.mk.injEq] at h
    rw [h.1]
    simp
  | t, t', data :: a, h, b => by
    rw [scan] at h
    rw [List.cons_append, scan]
    by_cases hstop : scanner.stops t data = true
    · rw [if_pos hstop] at h
      cases h
    · rw [if_neg hstop, Prod.mk.injEq, Option.map_eq_none_iff] at h
      rw [if_neg hstop, scan_append_none (Prod.ext h.1 h.2) b]
      simp [Function.comp_def, Nat.add_assoc]

theorem scan_append_some : ∀ {t t' : τ} {a : List UInt8} {i : ℕ},
    scanner.scan t a = (t', some i) → ∀ b, scanner.scan t (a ++ b) = (t', some i)
  | t, t', data :: a, i, h, b => by
    rw [scan] at h
    rw [List.cons_append, scan]
    by_cases hstop : scanner.stops t data = true
    · rw [if_pos hstop] at h ⊢
      exact h
    · rw [if_neg hstop, Prod.mk.injEq] at h
      obtain ⟨rfl, hi⟩ := h
      obtain ⟨j, hj, rfl⟩ := Option.map_eq_some_iff.1 hi
      rw [if_neg hstop, scan_append_some (Prod.ext rfl hj) b]
      rfl

theorem scan_lt : ∀ {t : τ} {a : List UInt8} {i : ℕ}, (scanner.scan t a).2 = some i → i < a.length
  | t, [], i, h => by cases h
  | t, data :: a, i, h => by
    rw [scan] at h
    by_cases hstop : scanner.stops t data = true
    · rw [if_pos hstop, Option.some.injEq] at h
      rw [← h]
      exact Nat.succ_pos _
    · rw [if_neg hstop] at h
      obtain ⟨j, hj, rfl⟩ := Option.map_eq_some_iff.1 h
      exact Nat.succ_lt_succ (scan_lt hj)

/-- How the loop over a stream with these bytes ends. -/
def ends (t : τ) (bytes : List UInt8) : ScanEnd :=
  match (scanner.scan t bytes).2 with
  | none => .noMore
  | some i => .stopped (bytes.getD i 0) true

/-- How far it moves the stream. -/
def used (t : τ) (bytes : List UInt8) : ℕ := (scanner.scan t bytes).2.getD bytes.length

section Append

variable {scanner} {t t' : τ} {a : List UInt8}

theorem ends_append_none (h : scanner.scan t a = (t', none)) (b : List UInt8) :
    scanner.ends t (a ++ b) = scanner.ends t' b := by
  simp only [ends, scanner.scan_append_none h]
  cases (scanner.scan t' b).2 with
  | none => rfl
  | some i =>
    simp only [Option.map_some]
    rw [List.getD_append_right _ _ _ _ (Nat.le_add_left _ _), Nat.add_sub_cancel]

theorem used_append_none (h : scanner.scan t a = (t', none)) (b : List UInt8) :
    scanner.used t (a ++ b) = a.length + scanner.used t' b := by
  simp only [used, scanner.scan_append_none h]
  cases (scanner.scan t' b).2 with
  | none => exact List.length_append
  | some i => exact Nat.add_comm i a.length

theorem ends_append_some {i : ℕ} (h : scanner.scan t a = (t', some i)) (b : List UInt8) :
    scanner.ends t (a ++ b) = .stopped (a.getD i 0) true := by
  have hi : i < a.length := scanner.scan_lt (congrArg Prod.snd h)
  simp only [ends, scanner.scan_append_some h]
  rw [List.getD_append _ _ _ _ hi]

theorem used_append_some {i : ℕ} (h : scanner.scan t a = (t', some i)) (b : List UInt8) :
    scanner.used t (a ++ b) = i := by
  simp only [used, scanner.scan_append_some h, Option.getD_some]

end Append

end Scanner

theorem int32_back {i n : ℕ} (hi : i ≤ n) (hn : n ≤ 2 ^ 31) :
    int32 (sizeT ((i : ℤ) - n)) = (i : ℤ) - n := by
  rcases Nat.eq_or_lt_of_le hi with rfl | hlt
  · rw [sub_self]
    rfl
  · have hword : (sizeT ((i : ℤ) - n) : ℤ) = (i : ℤ) - n + 2 ^ 32 := by
      unfold sizeT
      omega
    rw [hword, int32_eq]
    split_ifs <;> omega

section Scanning

variable (hv : StreamOk v R) (scanner : Scanner τ)
include hv

theorem scanLoop_ensures : ∀ (rounds : ℕ) (t : τ) {f : File}, f.rest.length < rounds →
    Ensures R (v.scanLoop scanner rounds t) f fun r f' =>
      r = ((scanner.scan t f.rest).1, scanner.ends t f.rest) ∧
        f' = f.advance (scanner.used t f.rest)
  | 0, t, f, hrounds => absurd hrounds (Nat.not_lt_zero _)
  | rounds + 1, t, f, hrounds => by
    have hsplit : f.rest = f.peek SCAN_BUFFER_SIZE ++ (f.advance SCAN_BUFFER_SIZE).rest := by
      rw [Cursor.rest_advance, Cursor.peek_eq, List.take_append_drop]
    refine (streamRead_ensures hv.readOk SCAN_BUFFER_SIZE).bind_eq ?_
    obtain ⟨buffer, hbuffer⟩ : ∃ buffer, buffer = f.peek SCAN_BUFFER_SIZE := ⟨_, rfl⟩
    have hadvance : f.advance SCAN_BUFFER_SIZE = f.advance buffer.length := by
      ext1
      · rfl
      · rw [Cursor.advance_pos, Cursor.advance_pos, hbuffer, Cursor.length_peek]
        omega
    rw [← hbuffer] at hsplit ⊢
    by_cases hempty : buffer.length = 0
    · rw [if_pos hempty]
      have hrest : f.rest = [] := by
        have hlen := hempty
        rw [hbuffer, Cursor.peek_eq, List.length_take] at hlen
        refine List.length_eq_zero_iff.1 ?_
        simp only [SCAN_BUFFER_SIZE] at hlen
        omega
      have hend : f.data.length ≤ f.pos := by
        rw [← Nat.sub_eq_zero_iff_le, ← Cursor.length_rest, hrest, List.length_nil]
      refine Ensures.pure ⟨?_, ?_⟩
      · rw [hrest]
        rfl
      · rw [Cursor.advance_of_end hend, Cursor.advance_of_end hend]
    · rw [if_neg hempty]
      obtain ⟨⟨t', stop⟩, hscan⟩ : ∃ r, scanner.scan t buffer = r := ⟨_, rfl⟩
      obtain ⟨rest, hrest⟩ : ∃ rest, rest = (f.advance SCAN_BUFFER_SIZE).rest := ⟨_, rfl⟩
      rw [hscan]
      rw [← hrest] at hsplit
      cases stop with
      | none =>
        have hlen : rest.length < rounds := by
          have hlen := congrArg List.length hsplit
          rw [List.length_append] at hlen
          omega
        refine (scanLoop_ensures rounds t' (by rw [← hrest]; exact hlen)).mono ?_
        rintro r f' ⟨rfl, rfl⟩
        have happend := scanner.scan_append_none hscan rest
        have hends := Scanner.ends_append_none hscan rest
        have hused := Scanner.used_append_none hscan rest
        rw [← hsplit] at happend hends hused
        rw [← hrest, happend, hends, hused, hadvance, Cursor.advance_advance]
        exact ⟨rfl, rfl⟩
      | some i =>
        have happend := scanner.scan_append_some hscan rest
        have hends := Scanner.ends_append_some hscan rest
        have hused := Scanner.used_append_some hscan rest
        rw [← hsplit] at happend hends hused
        have hi : i < buffer.length := by
          have hstop : (scanner.scan t buffer).2 = some i := by rw [hscan]
          exact scanner.scan_lt hstop
        have hbound : buffer.length ≤ SCAN_BUFFER_SIZE := by
          rw [hbuffer, Cursor.peek_eq]
          exact List.length_take_le _ _
        have hpos : (f.advance SCAN_BUFFER_SIZE).pos = f.pos + buffer.length := by
          rw [Cursor.advance_pos_peek, hbuffer]
        have hplace : f.pos + i ≤ f.data.length := by
          have hle := (f.advance SCAN_BUFFER_SIZE).pos_le
          rw [hpos, Cursor.advance_data] at hle
          omega
        have hoffset : int32 (sizeT ((i : ℤ) - buffer.length)) = (i : ℤ) - buffer.length :=
          int32_back hi.le (by simp only [SCAN_BUFFER_SIZE] at hbound; omega)
        simp only [hoffset]
        refine (streamSeek_ensures_of_le (f := f.advance SCAN_BUFFER_SIZE) hv.readOk _ .fromCurrent
          (p := f.pos + i) ?_ hplace ?_ ?_).bind_eq ?_
        · simp only [StreamOffset.origin, hpos]
          push_cast
          ring
        · simp only [SCAN_BUFFER_SIZE] at hbound
          omega
        · omega
        refine Ensures.pure ⟨?_, ?_⟩
        · rw [happend, hends]
        · rw [hused]
          rfl

theorem scan_ensures (t : τ) {f : File} :
    Ensures R (v.scan scanner t) f fun r f' =>
      r = ((scanner.scan t f.rest).1, scanner.ends t f.rest) ∧
        f' = f.advance (scanner.used t f.rest) := by
  refine (streamSize_ensures hv.readOk).bind_eq (scanLoop_ensures hv scanner _ t ?_)
  rw [Cursor.length_rest]
  omega

end Scanning

/-! ## The two implementations -/

/-- A file below the size every offset fits in. -/
def FileStream.Stands (s f : File) : Prop := s = f ∧ FileFits f

theorem FileStream.streamOk : StreamOk FileStream.vtable FileStream.Stands where
  fits h := h.2
  eof := by
    rintro s f ⟨rfl, hfits⟩
    rfl
  tell := by
    rintro s f ⟨rfl, hfits⟩
    exact tell_eq (by unfold FileFits at hfits; omega)
  size := by
    rintro s f ⟨rfl, hfits⟩
    exact size_eq (by unfold FileFits at hfits; omega)
  seek := by
    rintro s f offset p ⟨rfl, hfits⟩ type hp hlow hhigh
    have heq := seek_eq (by unfold FileFits at hfits; omega) type hp hlow hhigh
    simp only [FileStream.vtable, heq]
    exact ⟨trivial, rfl, hfits⟩
  read := by
    rintro s f ⟨rfl, hfits⟩ n
    exact ⟨rfl, rfl, hfits⟩
  write := by
    rintro s f ⟨rfl, -⟩ data - hfits
    exact ⟨_, rfl, rfl, hfits⟩
  deleteAndInsert := by
    rintro s f ⟨rfl, hfits⟩ n cb - hsuccess hfits'
    have hinserted : inserted s (some (runWriteCB cb)) = (true, s.truncate.write cb.text) := by
      rw [inserted, Option.elim_some, runWriteCB_eq, hsuccess]
    have hreplaced : replaced s n (some (runWriteCB cb)) =
        s.truncate.write (cb.text ++ s.rest.drop n) := by
      rw [replaced, hinserted, Cursor.write_write]
    unfold FileFits at hfits hfits'
    have heq := deleteAndInsert_eq (show s.data.length < 2 ^ 31 by omega)
      (show (inserted s (some (runWriteCB cb))).1 = true by rw [hinserted])
      (show (replaced s n (some (runWriteCB cb))).data.length < 2 ^ 31 by rw [hreplaced]; omega)
    rw [hreplaced, hinserted] at heq
    exact ⟨_, congrArg some heq, rfl, hfits'⟩

theorem StringStream.Same.seek {s : StringStream} {f : File} (h : Same s f) {offset p : ℤ}
    (type : StreamOffset) (hp : type.origin f.pos f.data.length + offset = p)
    (hlow : -2 ^ 31 ≤ p) (hhigh : offset < 2 ^ 31) :
    (s.seek offset type).1 = (seekTarget f.data.length p).1 ∧
      Same (s.seek offset type).2 (f.seek (seekTarget f.data.length p).2) := by
  obtain ⟨hchars, hindex⟩ := h
  have hle : s.index ≤ s.string.chars.length := by
    rw [hchars, hindex]
    exact f.pos_le
  rw [← hchars, ← hindex] at hp
  rw [seek_eq hle type hp hlow hhigh, hchars]
  exact ⟨rfl, hchars, (Cursor.seek_pos_of_le (seekTarget_le _ _)).symm⟩

theorem StringStream.Same.read {s : StringStream} {f : File} (h : Same s f) (n : ℕ) :
    (s.read n).1 = f.peek n ∧ Same (s.read n).2 (f.advance n) := by
  obtain ⟨hchars, hindex⟩ := h
  have hle : s.index ≤ s.string.chars.length := by
    rw [hchars, hindex]
    exact f.pos_le
  rw [read_eq hle n, hchars, hindex]
  exact ⟨rfl, hchars, rfl⟩

/-- A string, and the file of its characters. -/
def StringStream.Stands (s : StringStream) (f : File) : Prop := Same s f ∧ 0 ∉ f.data

theorem StringStream.streamOk : StreamOk StringStream.vtable StringStream.Stands where
  fits := by
    rintro s f ⟨⟨hchars, -⟩, -⟩
    unfold FileFits
    rw [← hchars]
    exact s.string.fits
  eof := by
    rintro s f ⟨⟨hchars, hindex⟩, -⟩
    have := f.pos_le
    simp only [StringStream.vtable, eof_eq, hchars, hindex, decide_eq_decide]
    omega
  tell := by
    rintro s f ⟨⟨-, hindex⟩, -⟩
    exact hindex
  size := by
    rintro s f ⟨⟨hchars, -⟩, -⟩
    rw [← hchars]
    rfl
  seek := by
    rintro s f offset p ⟨hsame, hnul⟩ type hp hlow hhigh
    obtain ⟨hresult, hsame'⟩ := hsame.seek type hp hlow hhigh
    exact ⟨hresult, hsame', hnul⟩
  read := by
    rintro s f ⟨hsame, hnul⟩ n
    obtain ⟨hdata, hsame'⟩ := hsame.read n
    exact ⟨hdata, hsame', hnul⟩
  write := by
    rintro s f ⟨⟨hchars, hindex⟩, hnul⟩ data hdata hfits
    have hle : s.index ≤ s.string.chars.length := by
      rw [hchars, hindex]
      exact f.pos_le
    have heq := write_eq hle data
    rw [hchars, hindex, ← Cursor.write_data, FuriString.alloc_eq_some hfits] at heq
    refine ⟨_, heq, ⟨rfl, rfl⟩, fun hmem => ?_⟩
    exact (mem_overwrite hmem).elim hnul hdata
  deleteAndInsert := by
    rintro s f ⟨⟨hchars, hindex⟩, hnul⟩ n cb hcb hsuccess hfits
    have hle : s.index ≤ s.string.chars.length := by
      rw [hchars, hindex]
      exact f.pos_le
    have hdata : (f.truncate.write (cb.text ++ f.rest.drop n)).data =
        f.data.take f.pos ++ (cb.text ++ f.data.drop (f.pos + n)) := by
      rw [Cursor.truncate_write, Cursor.rest, List.drop_drop]
    have heq := deleteAndInsert_eq hle (hchars ▸ hnul) n (some cb)
    unfold FileFits at hfits
    rw [hdata] at hfits
    simp only [insertedText, Option.elim_some] at heq
    rw [hchars, hindex, FuriString.alloc_eq_some hfits, hsuccess] at heq
    refine ⟨_, heq, ⟨hdata.symm, ?_⟩, ?_⟩
    · refine (Cursor.seek_pos_of_le ?_).symm
      rw [hdata]
      simp only [List.length_append, List.length_take, min_eq_left f.pos_le]
      omega
    · rw [Cursor.seek_data, hdata, List.mem_append, List.mem_append, not_or, not_or]
      exact ⟨fun hmem => hnul (List.mem_of_mem_take hmem), hcb,
        fun hmem => hnul (List.mem_of_mem_drop hmem)⟩

end KiisuFirmware

/-!
## Streams whose seeks may fail

Code that reads a stream asks little of it if what it reads is to be right whenever it ends
(`Leaves`): reads are exact, and a seek from where the stream is goes where it should or says that
it has failed, and then leaves the stream anywhere (`LineOk`). A scan has then seen what is there,
and if it could go back it is in front of what stopped it.
-/

namespace KiisuFirmware

variable {σ τ α β : Type} {v : StreamVTable σ} {R : σ → File → Prop}

/-! ## Reads and seeks -/

/-- The states of an implementation stand for files, and seeks that succeed go where they should. -/
structure LineOk (v : StreamVTable σ) (R : σ → File → Prop) : Prop where
  fits : ∀ {s f}, R s f → f.data.length < 2 ^ 32
  seek : ∀ {s f} {offset : ℤ}, R s f → -32 ≤ offset → offset ≤ 2 →
    ∃ f', R (v.seek s offset .fromCurrent).2 f' ∧ f'.data = f.data ∧
      ((v.seek s offset .fromCurrent).1 = true → (f'.pos : ℤ) = f.pos + offset)
  read : ∀ {s f}, R s f → ∀ n, (v.read s n).1 = f.peek n ∧ R (v.read s n).2 (f.advance n)

/-- A file as large as a `size_t` can say. -/
def FileStream.StandsLarge (s f : File) : Prop := s = f ∧ f.data.length < 2 ^ 32

theorem FileStream.lineOk : LineOk FileStream.vtable FileStream.StandsLarge where
  fits hs := hs.2
  seek := by
    rintro s f offset ⟨rfl, hfits⟩ hlow hhigh
    have hpos := s.pos_le
    refine ⟨_, ⟨rfl, ?_⟩, ?_, ?_⟩
    · simp only [FileStream.vtable, FileStream.seek]
      split
      · split_ifs <;> exact hfits
      · exact hfits
    · simp only [FileStream.vtable, FileStream.seek]
      split
      · split_ifs <;> rfl
      · rfl
    · have htell : FileStream.tell s = s.pos := sizeT_natCast (by
        unfold storageFileTell
        omega)
      have hsize : FileStream.size s = s.data.length := sizeT_natCast hfits
      simp only [FileStream.vtable, FileStream.seek, htell, hsize, FileStream.seekPosition]
      by_cases hback : 0 ≤ int32 (s.pos + offset)
      swap
      · rw [if_neg hback]
        simp
      rw [if_pos hback]
      simp only
      by_cases hpast : 0 < int32 ((sizeT (s.pos + offset) : ℤ) - s.data.length)
      · rw [if_pos hpast]
        simp
      rw [if_neg hpast]
      intro
      rw [int32_eq] at hback hpast
      have hplace : (sizeT (s.pos + offset) : ℤ) = (s.pos + offset) % 2 ^ 32 :=
        Int.toNat_of_nonneg (Int.emod_nonneg _ (by norm_num))
      have hle : sizeT (s.pos + offset) ≤ s.data.length := by
        split_ifs at hback hpast <;> omega
      show ((s.seek (sizeT (s.pos + offset))).pos : ℤ) = s.pos + offset
      rw [Cursor.seek_pos_of_le hle, hplace]
      split_ifs at hback hpast <;> omega
  read := by
    rintro s f ⟨rfl, hfits⟩ n
    exact ⟨rfl, rfl, hfits⟩

theorem StreamM.bind_eq_some {m : StreamM σ α} {k : α → StreamM σ β} {s s' : σ} {b : β}
    (h : (m >>= k) s = some (b, s')) : ∃ a s₁, m s = some (a, s₁) ∧ k a s₁ = some (b, s') := by
  obtain ⟨⟨a, s₁⟩, hfirst, hsecond⟩ := Option.bind_eq_some_iff.1 h
  exact ⟨a, s₁, hfirst, hsecond⟩

/-- If the code ends on a stream that stands for the file, then this holds. -/
def Leaves (R : σ → File → Prop) (m : StreamM σ α) (f : File) (Q : α → File → Prop) : Prop :=
  ∀ s, R s f → ∀ a s', m s = some (a, s') → ∃ f', R s' f' ∧ Q a f'

namespace Leaves

variable {m : StreamM σ α} {f : File} {Q : α → File → Prop}

theorem pure {a : α} (h : Q a f) : Leaves R (Pure.pure a) f Q := by
  intro s hs a' s' hrun
  cases hrun
  exact ⟨f, hs, h⟩

theorem nothing : Leaves R (fun _ => none) f Q := nofun

theorem bind {k : α → StreamM σ β} {P : β → File → Prop} (hm : Leaves R m f Q)
    (hk : ∀ a f', Q a f' → Leaves R (k a) f' P) : Leaves R (m >>= k) f P := by
  intro s hs b s' hrun
  obtain ⟨a, s₁, hfirst, hsecond⟩ := StreamM.bind_eq_some hrun
  obtain ⟨f₁, hs₁, hQ⟩ := hm s hs a s₁ hfirst
  exact hk a f₁ hQ s₁ hs₁ b s' hsecond

theorem mono {Q' : α → File → Prop} (h : Leaves R m f Q) (hQ : ∀ a f', Q a f' → Q' a f') :
    Leaves R m f Q' := by
  intro s hs a s' hrun
  obtain ⟨f', hs', hres⟩ := h s hs a s' hrun
  exact ⟨f', hs', hQ a f' hres⟩

end Leaves

theorem streamEof_leaves {f : File} : Leaves R v.streamEof f fun _ f' => f' = f := by
  intro s hs a s' hrun
  cases hrun
  exact ⟨f, hs, rfl⟩

theorem streamSize_leaves {f : File} : Leaves R v.streamSize f fun _ f' => f' = f := by
  intro s hs a s' hrun
  cases hrun
  exact ⟨f, hs, rfl⟩

section Reading

variable (hv : LineOk v R)
include hv

theorem streamRead_leaves {f : File} (n : ℕ) :
    Leaves R (v.streamRead n) f fun data f' => data = f.peek n ∧ f' = f.advance n := by
  intro s hs data s' hrun
  have hread : v.read s n = (data, s') := Option.some.inj hrun
  obtain ⟨hdata, hnext⟩ := hv.read hs n
  rw [hread] at hdata hnext
  exact ⟨_, hnext, hdata, rfl⟩

theorem streamSeek_leaves {f : File} {offset : ℤ} (hlow : -32 ≤ offset) (hhigh : offset ≤ 2) :
    Leaves R (v.streamSeek offset .fromCurrent) f fun seeked f' =>
      f'.data = f.data ∧ (seeked = true → (f'.pos : ℤ) = f.pos + offset) := by
  intro s hs seeked s' hrun
  have hseek : v.seek s offset .fromCurrent = (seeked, s') := Option.some.inj hrun
  have hplace := hv.seek hs hlow hhigh
  rw [hseek] at hplace
  exact hplace

/-- What a scan has seen is right, and so is where it leaves the stream if it could go back. -/
def Scanner.Leaves (scanner : Scanner τ) (t : τ) (f : File) (r : τ × ScanEnd) (f' : File) : Prop :=
  f'.data = f.data ∧ r.1 = (scanner.scan t f.rest).1 ∧
    (r.2 = .noMore → scanner.ends t f.rest = .noMore ∧ f'.rest = []) ∧
    ∀ data, r.2 = .stopped data true → scanner.ends t f.rest = .stopped data true ∧
      f'.pos = f.pos + scanner.used t f.rest

theorem scanLoop_leaves (scanner : Scanner τ) : ∀ (rounds : ℕ) (t : τ) {f : File},
    Leaves R (v.scanLoop scanner rounds t) f (scanner.Leaves t f)
  | 0, t, f => .nothing
  | rounds + 1, t, f => by
    refine (streamRead_leaves hv SCAN_BUFFER_SIZE).bind ?_
    rintro buffer f₁ ⟨hbuffer, rfl⟩
    have hsplit : f.rest = buffer ++ (f.advance SCAN_BUFFER_SIZE).rest := by
      rw [Cursor.rest_advance, hbuffer, Cursor.peek_eq, List.take_append_drop]
    have hpos : (f.advance SCAN_BUFFER_SIZE).pos = f.pos + buffer.length := by
      rw [Cursor.advance_pos_peek, hbuffer]
    by_cases hempty : buffer.length = 0
    · rw [if_pos hempty]
      have hrest : f.rest = [] := by
        rw [hbuffer, Cursor.peek_eq, List.length_take] at hempty
        refine List.length_eq_zero_iff.1 ?_
        simp only [SCAN_BUFFER_SIZE] at hempty
        omega
      refine Leaves.pure ⟨rfl, ?_, fun _ => ?_, fun _ h => by cases h⟩
      · rw [hrest]
        rfl
      · rw [Cursor.rest_advance, hrest]
        exact ⟨rfl, rfl⟩
    · rw [if_neg hempty]
      obtain ⟨⟨t', stop⟩, hscan⟩ : ∃ r, scanner.scan t buffer = r := ⟨_, rfl⟩
      rw [hscan]
      cases stop with
      | none =>
        refine (scanLoop_leaves scanner rounds t').mono ?_
        rintro r f' ⟨hdata, hseen, hmore, hstop⟩
        have happend := scanner.scan_append_none hscan (f.advance SCAN_BUFFER_SIZE).rest
        have hends := Scanner.ends_append_none hscan (f.advance SCAN_BUFFER_SIZE).rest
        have hused := Scanner.used_append_none hscan (f.advance SCAN_BUFFER_SIZE).rest
        rw [← hsplit] at happend hends hused
        refine ⟨hdata, by rw [hseen, happend], fun h => ?_, fun data h => ?_⟩
        · rw [hends]
          exact hmore h
        · rw [hends, hused, ← Nat.add_assoc, ← hpos]
          exact hstop data h
      | some i =>
        have happend := scanner.scan_append_some hscan (f.advance SCAN_BUFFER_SIZE).rest
        have hends := Scanner.ends_append_some hscan (f.advance SCAN_BUFFER_SIZE).rest
        have hused := Scanner.used_append_some hscan (f.advance SCAN_BUFFER_SIZE).rest
        rw [← hsplit] at happend hends hused
        have hi : i < buffer.length := scanner.scan_lt (congrArg Prod.snd hscan)
        have hbound : buffer.length ≤ SCAN_BUFFER_SIZE := by
          rw [hbuffer, Cursor.peek_eq]
          exact List.length_take_le _ _
        simp only [SCAN_BUFFER_SIZE] at hbound
        have hoffset : int32 (sizeT ((i : ℤ) - buffer.length)) = (i : ℤ) - buffer.length :=
          int32_back hi.le (by omega)
        simp only [hoffset]
        refine (streamSeek_leaves hv (by omega) (by omega)).bind ?_
        rintro seeked f' ⟨hdata, hplace⟩
        refine Leaves.pure ⟨hdata, by rw [happend], (fun h => by cases h), fun data h => ?_⟩
        cases h
        have hback := hplace rfl
        rw [hends, hused]
        exact ⟨rfl, by omega⟩

theorem scan_leaves (scanner : Scanner τ) (t : τ) {f : File} :
    Leaves R (v.scan scanner t) f (scanner.Leaves t f) := by
  refine streamSize_leaves.bind ?_
  rintro size f' rfl
  exact scanLoop_leaves hv scanner (size + 1) t

end Reading

/-! ## What a scanner has seen -/

namespace Scanner

variable {scanner : Scanner τ} {P : List UInt8 → τ → Prop}

/-- What holds before a scan and is kept by every byte that does not stop it holds of what it has
gone over. -/
theorem scan_inv (hstep : ∀ before t data, P before t → scanner.stops t data = false →
    P (before ++ [data]) (scanner.step t data)) :
    ∀ (bytes before : List UInt8) (t : τ), P before t →
      P (before ++ bytes.take (scanner.used t bytes)) (scanner.scan t bytes).1
  | [], before, t, h => by simpa [used, scan] using h
  | data :: bytes, before, t, h => by
    unfold used
    rw [scan]
    by_cases hstop : scanner.stops t data = true
    · rw [if_pos hstop]
      simpa using h
    · rw [if_neg hstop]
      have hrest := scan_inv hstep bytes (before ++ [data]) (scanner.step t data)
        (hstep before t data h (by simpa using hstop))
      have hused : ((scanner.scan (scanner.step t data) bytes).2.map (· + 1)).getD
          (data :: bytes).length = scanner.used (scanner.step t data) bytes + 1 := by
        unfold used
        cases (scanner.scan (scanner.step t data) bytes).2 <;> rfl
      simp only [hused, List.take_succ_cons]
      rwa [List.append_assoc, List.singleton_append] at hrest

theorem scan_stopped : ∀ {bytes : List UInt8} {t : τ} {i : ℕ}, (scanner.scan t bytes).2 = some i →
    ∃ rest, bytes.drop i = bytes.getD i 0 :: rest ∧
      scanner.stops (scanner.scan t bytes).1 (bytes.getD i 0) = true
  | [], t, i, h => by cases h
  | data :: bytes, t, i, h => by
    rw [scan] at h ⊢
    by_cases hstop : scanner.stops t data = true
    · rw [if_pos hstop] at h ⊢
      cases h
      exact ⟨bytes, rfl, hstop⟩
    · rw [if_neg hstop] at h ⊢
      obtain ⟨j, hj, rfl⟩ := Option.map_eq_some_iff.1 h
      exact scan_stopped hj

theorem of_ends_noMore {t : τ} {bytes : List UInt8} (h : scanner.ends t bytes = .noMore) :
    scanner.used t bytes = bytes.length := by
  unfold ends at h
  unfold used
  split at h
  case h_1 hnone =>
    rw [hnone]
    rfl
  case h_2 => cases h

theorem of_ends_stopped {t : τ} {bytes : List UInt8} {data : UInt8}
    (h : scanner.ends t bytes = .stopped data true) :
    ∃ rest, bytes.drop (scanner.used t bytes) = data :: rest ∧
      scanner.stops (scanner.scan t bytes).1 data = true := by
  unfold ends at h
  unfold used
  split at h
  case h_1 => cases h
  case h_2 i hsome =>
    cases h
    rw [hsome]
    exact scan_stopped hsome

end Scanner

end KiisuFirmware
