import KiisuFirmware.KeysDict
import KiisuFirmware.Proofs.BufferedFileStream
import KiisuFirmware.Proofs.StreamClient

/-!
# Code on top of a buffered stream

While nothing is pending a buffered stream can be looked at like a plain one, and pieces of it can
be replaced. After a write it is so again once it is rewound.
-/

namespace KiisuFirmware

namespace BufferedFileStream

/-- A stream with nothing pending, and the file it stands for. -/
def Stands (s : BufferedFileStream) (f : File) : Prop :=
  Views s f ∧ s.syncPending = false ∧ FileFits f

theorem stands_ofFile {f : File} (h : FileFits f) : Stands (ofFile f) f := ⟨views_drop f, rfl, h⟩

variable {stream : BufferedFileStream} {f : File}

theorem flush_syncPending : stream.flush.2.syncPending = false := by
  unfold flush
  dsimp only
  split_ifs <;> rfl

theorem sync_syncPending : stream.sync.2.syncPending = false := by
  unfold sync
  split_ifs with hpending
  · exact flush_syncPending
  · exact Bool.eq_false_iff.2 hpending

theorem orBreak_syncPending {r : Bool × BufferedFileStream}
    {next : BufferedFileStream → Bool × BufferedFileStream} (hr : r.2.syncPending = false)
    (hnext : ∀ s, s.syncPending = false → (next s).2.syncPending = false) :
    (orBreak r next).2.syncPending = false := by
  unfold orBreak
  split_ifs
  · exact hnext r.2 hr
  · exact hr

theorem seek_syncPending (offset : ℤ) (type : StreamOffset)
    (h : stream.syncPending = false ∨ type ≠ .fromCurrent) :
    (stream.seek offset type).2.syncPending = false := by
  unfold seek
  dsimp only
  by_cases hnew : stream.newOffset offset type ≠ 0 ∨ type ≠ .fromCurrent
  · rw [if_pos hnew]
    refine orBreak_syncPending ?_ fun s hs => hs
    by_cases hpending : stream.syncPending = true
    · rw [if_pos hpending]
      exact sync_syncPending
    · rw [if_neg hpending]
      exact Bool.eq_false_iff.2 hpending
  · rw [if_neg hnew]
    exact h.resolve_right fun htype => hnew (.inr htype)

theorem readLoop_syncPending (stream : BufferedFileStream) (size : ℕ)
    (h : stream.syncPending = false) : (stream.readLoop size).2.syncPending = false := by
  induction stream, size using readLoop.induct with
  | case1 stream => simpa [readLoop] using h
  | case2 stream size hsize r hr =>
    have hr' : (stream.cache.read size).1.length = size := hr
    rw [readLoop, if_neg hsize]
    simp only [hr', if_true]
    exact h
  | case3 stream size hsize r hr f hf c hc =>
    have hr' : ¬(stream.cache.read size).1.length = size := hr
    have hf' : (sync ⟨stream.fileStream, (stream.cache.read size).2, stream.syncPending⟩).1 = true :=
      hf
    have hc' : (StreamCache.fill (sync ⟨stream.fileStream, (stream.cache.read size).2,
      stream.syncPending⟩).2.fileStream).1 = 0 := hc
    rw [readLoop, if_neg hsize]
    simp only [hr', if_false, hf', if_true, hc']
    exact sync_syncPending
  | case4 stream size hsize r hr f hf c hc ih =>
    have hr' : ¬(stream.cache.read size).1.length = size := hr
    have hf' : (sync ⟨stream.fileStream, (stream.cache.read size).2, stream.syncPending⟩).1 = true :=
      hf
    have hc' : ¬(StreamCache.fill (sync ⟨stream.fileStream, (stream.cache.read size).2,
      stream.syncPending⟩).2.fileStream).1 = 0 := hc
    rw [readLoop, if_neg hsize]
    simp only [hr', if_false, hf', if_true, hc']
    exact ih sync_syncPending
  | case5 stream size hsize r hr f hf =>
    have hr' : ¬(stream.cache.read size).1.length = size := hr
    have hf' : ¬(sync ⟨stream.fileStream, (stream.cache.read size).2, stream.syncPending⟩).1 = true :=
      hf
    rw [readLoop, if_neg hsize]
    simp only [hr', if_false, hf']
    exact sync_syncPending

theorem readOk : ReadOk vtable Stands where
  fits h := h.2.2
  tell h := tell_eq h.1 h.2.2.lt
  size h := size_eq h.1 h.2.2.lt
  seek := by
    rintro s f offset p ⟨hv, hclean, hfits⟩ type hp hlow hback hhigh
    have hlt := hfits.lt
    have hplain := FileStream.seek_eq hlt type hp hlow hhigh
    have hseek : (s.seek offset type).1 = (FileStream.seek f offset type).1 ∧
        Views (s.seek offset type).2 (FileStream.seek f offset type).2 := by
      by_cases htype : type = .fromCurrent
      · subst htype
        by_cases hforth : (s.cache.data.length : ℤ) - s.cache.position < offset
        · exact seek_forwards hv hlt hhigh hforth
        · by_cases hinside : -(s.cache.position : ℤ) ≤ offset
          · exact seek_inside hv hlt hinside (not_lt.1 hforth)
          · exact seek_backwards hv hlt hback (not_le.1 hinside) fun hpending =>
              absurd hpending (by rw [hclean]; decide)
      · exact seek_fromStart_fromEnd hv hlt htype hback hhigh
    rw [hplain] at hseek
    exact ⟨hseek.1, hseek.2, seek_syncPending offset type (.inl hclean), hfits⟩
  read := by
    rintro s f ⟨hv, hclean, hfits⟩ n
    obtain ⟨hdata, hviews⟩ := readLoop_eq s f n hv hfits.lt
    exact ⟨hdata, hviews, readLoop_syncPending s n hclean, hfits⟩

theorem write_rewind_ensures (data : List UInt8) (hfits : FileFits (f.write data)) :
    Ensures Stands (vtable.streamWrite data >>= fun _ => vtable.streamRewind) f fun b f' =>
      b = true ∧ f' = (f.write data).seek 0 := by
  rintro s ⟨hv, -, hfits₀⟩
  obtain ⟨-, hwrite⟩ := write_eq hv data hfits₀.lt hfits.lt
  have hseek := seek_fromStart_fromEnd hwrite hfits.lt (nofun : StreamOffset.fromStart ≠ .fromCurrent)
    (by norm_num : -2 ^ 31 ≤ (0 : ℤ)) (by norm_num)
  rw [FileStream.seek_eq_of_le hfits.lt .fromStart rfl (Nat.zero_le _) (by norm_num)] at hseek
  refine ⟨_, _, _, rfl, ⟨hseek.2, seek_syncPending 0 .fromStart (.inr nofun), hfits⟩, hseek.1, rfl⟩

theorem deleteAndInsert_ensures (n : ℕ) (cb : Option StreamWriteCB)
    (hcb : (FileStream.inserted f (cb.map FileStream.runWriteCB)).1 = true)
    (hfits : FileFits (FileStream.replaced f n (cb.map FileStream.runWriteCB))) :
    Ensures Stands (vtable.streamDeleteAndInsert n cb) f fun b f' => b = true ∧
      f' = (FileStream.replaced f n (cb.map FileStream.runWriteCB)).seek
        (FileStream.inserted f (cb.map FileStream.runWriteCB)).2.pos := by
  rintro s ⟨hv, -, hfits₀⟩
  have hplain := FileStream.deleteAndInsert_eq hfits₀.lt hcb hfits.lt
  have hrun : s.deleteAndInsert n (cb.map FileStream.runWriteCB) = (true,
      ⟨(FileStream.replaced f n (cb.map FileStream.runWriteCB)).seek
        (FileStream.inserted f (cb.map FileStream.runWriteCB)).2.pos, .drop, false⟩) := by
    rw [deleteAndInsert, settle_eq hv hfits₀.lt, orBreak_true, hplain]
  exact ⟨_, _, _, congrArg some hrun, ⟨views_drop _, rfl, hfits⟩, rfl, rfl⟩

theorem insertString_ensures (string : List UInt8) (hend : f.pos = f.data.length)
    (hfits : FileFits (f.write string)) :
    Ensures Stands (vtable.streamInsertString string) f fun b f' =>
      b = true ∧ f' = f.write string := by
  have htruncate : f.truncate = f := by
    ext1
    · rw [Cursor.truncate_data, hend, List.take_length]
    · rfl
  have hrest : f.rest = [] := by rw [Cursor.rest, hend, List.drop_length]
  obtain ⟨cb, hcb⟩ : ∃ cb : StreamWriteCB,
    cb = .write string fun written => .done (written == string.length) := ⟨_, rfl⟩
  have hinserted : FileStream.inserted f ((some cb).map FileStream.runWriteCB) =
      (true, f.write string) := by
    rw [FileStream.inserted, Option.map_some, Option.elim_some, FileStream.runWriteCB_eq, hcb,
      htruncate]
    simp [StreamWriteCB.success, StreamWriteCB.text]
  have hreplaced : FileStream.replaced f 0 ((some cb).map FileStream.runWriteCB) =
      f.write string := by
    rw [FileStream.replaced, hinserted, hrest, List.drop_nil, Cursor.write_nil]
  have h := deleteAndInsert_ensures 0 (some cb) (by rw [hinserted]) (by rw [hreplaced]; exact hfits)
  rw [hinserted, hreplaced, Cursor.seek_self] at h
  unfold StreamVTable.streamInsertString
  rw [← hcb]
  exact h

theorem delete_ensures (n : ℕ) :
    Ensures Stands (vtable.streamDelete n) f fun b f' => b = true ∧
      f'.data = f.data.take f.pos ++ f.rest.drop n ∧ f'.pos = f.pos := by
  intro s hs
  have hreplaced : FileStream.replaced f n none = f.truncate.write (f.rest.drop n) := rfl
  have hdata : (FileStream.replaced f n none).data = f.data.take f.pos ++ f.rest.drop n := by
    rw [hreplaced, Cursor.truncate_write]
  have hlength : (FileStream.replaced f n none).data.length ≤ f.data.length := by
    rw [hdata, List.length_append, List.length_take, List.length_drop, Cursor.length_rest]
    have := f.pos_le
    omega
  have hfits : FileFits (FileStream.replaced f n none) := by
    have := hs.2.2
    unfold FileFits at this ⊢
    omega
  obtain ⟨b, s', f', hrun, hs', rfl, rfl⟩ := deleteAndInsert_ensures n none rfl hfits s hs
  refine ⟨_, s', _, hrun, hs', rfl, hdata, ?_⟩
  refine Cursor.seek_pos_of_le ?_
  change f.pos ≤ (FileStream.replaced f n none).data.length
  rw [hdata, List.length_append, List.length_take, min_eq_left f.pos_le]
  exact Nat.le_add_right _ _

end BufferedFileStream

end KiisuFirmware
