import KiisuFirmware.BufferedFileStream
import KiisuFirmware.Proofs.Stream
import KiisuFirmware.Run

/-!
# The buffered file stream against the plain one

A buffered stream stands for a file (`Views`): what was read ahead is a piece of it that ends at
the underlying pointer, what is pending is written over it from the underlying pointer on. Every
call gives what the plain stream gives on that file and leaves a stream that stands for the file
the plain stream leaves, as long as `StepOk` holds: while a synchronisation is pending, `eof` is
only asked at the end and no relative seek leaves the cache backwards.
-/

namespace KiisuFirmware

namespace BufferedFileStream

/-- The file a buffered stream stands for. -/
inductive Views : BufferedFileStream → File → Prop
  | ahead (start : ℕ) (cache : StreamCache) (file : File)
      (data : cache.data = (file.data.drop start).take cache.data.length)
      (fits : start + cache.data.length ≤ file.data.length)
      (place : file.pos = start + cache.position) :
      Views ⟨file.seek (start + cache.data.length), cache, false⟩ file
  | pending (base : File) (cache : StreamCache) (data : cache.data ≠ []) :
      Views ⟨base, cache, true⟩
        ((base.write cache.data).seek (base.pos + cache.position))

/-- `Views` as a function of the stream. -/
def file (stream : BufferedFileStream) : File :=
  if stream.syncPending then
    (stream.fileStream.write stream.cache.data).seek
      (stream.fileStream.pos + stream.cache.position)
  else
    stream.fileStream.seek
      (stream.fileStream.pos - stream.cache.data.length + stream.cache.position)

theorem Views.file_eq {stream : BufferedFileStream} {f : File} (h : Views stream f) :
    stream.file = f := by
  cases h with
  | ahead start cache f data fits place =>
    have hpos : (f.seek (start + cache.data.length)).pos = start + cache.data.length :=
      Cursor.seek_pos_of_le fits
    simp only [file, Bool.false_eq_true, if_false, hpos, Cursor.seek_seek]
    rw [Nat.add_sub_cancel, ← place, Cursor.seek_self]
  | pending base cache data => rfl

theorem views_drop (f : File) : Views ⟨f, .drop, false⟩ f := by
  have h := Views.ahead f.pos .drop f (by simp [StreamCache.drop])
    (by simp [StreamCache.drop, f.pos_le]) (by simp [StreamCache.drop])
  simpa [StreamCache.drop] using h

theorem length_base_le (base : File) (bs : List UInt8) (p : ℕ) :
    base.data.length ≤ ((base.write bs).seek p).data.length := by
  rw [Cursor.seek_data, Cursor.write_data, length_overwrite base.pos_le]
  exact le_max_left _ _

theorem pending_fits (base : File) (bs : List UInt8) (p : ℕ) :
    base.pos + bs.length ≤ ((base.write bs).seek p).data.length := by
  rw [Cursor.seek_data, Cursor.write_data, length_overwrite base.pos_le]
  exact le_max_right _ _

theorem cache_offset (cache : StreamCache) :
    int32 ((cache.size : ℤ) - cache.pos) = cache.data.length - cache.position := by
  have := cache.position_le
  have := cache.size_le
  simp only [StreamCache.size, StreamCache.pos, STREAM_CACHE_MAX_SIZE] at *
  rw [int32_of_range] <;> omega

theorem flush_eq (base : File) (cache : StreamCache) (pending : Bool)
    (h : (base.write cache.data).data.length < 2 ^ 31) :
    flush ⟨base, cache, pending⟩ =
      (true, ⟨(base.write cache.data).seek (base.pos + cache.position), .drop, false⟩) := by
  have hle := cache.position_le
  simp only [flush, StreamCache.flush, FileStream.write, storageFileWrite, decide_true,
    Bool.not_true, Bool.false_eq_true, if_false, cache_offset]
  split_ifs with hoffset
  · rw [FileStream.seek_eq_of_le h .fromCurrent (p := base.pos + cache.position)]
    · simp only [StreamOffset.origin, Cursor.write_pos]
      omega
    · rw [Cursor.write_data, length_overwrite base.pos_le]
      omega
    · omega
  · have hend : cache.position = cache.data.length := by omega
    rw [hend, ← Cursor.write_pos, Cursor.seek_self]

theorem unread_eq {stream : BufferedFileStream} {f : File} (hv : Views stream f)
    (hs : f.data.length < 2 ^ 31) (hclean : stream.syncPending = false) :
    stream.unread = (true, ⟨f, .drop, false⟩) := by
  cases hv with
  | pending => cases hclean
  | ahead start cache f data fits place =>
    have hle := cache.position_le
    have hpos : (f.seek (start + cache.data.length)).pos = start + cache.data.length :=
      Cursor.seek_pos_of_le fits
    have hclean : cache.data.length = cache.position → start + cache.data.length = f.pos := by
      intro hend
      omega
    simp only [unread, cache_offset]
    by_cases hsize : 0 < cache.size
    · rw [if_pos hsize]
      by_cases hback : cache.pos < cache.size
      · rw [if_pos hback, FileStream.seek_eq_of_le (show (f.seek _).data.length < _ from hs)
          .fromCurrent (p := f.pos) (by simp only [StreamOffset.origin, hpos]; omega) f.pos_le
          (by omega)]
        simp only [Cursor.seek_seek, Cursor.seek_self]
      · rw [if_neg hback, hclean (by simp only [StreamCache.pos, StreamCache.size] at hback; omega),
          Cursor.seek_self]
    · have hnil : cache.data = [] := by
        simpa [StreamCache.size] using hsize
      have hzero : cache.position = 0 := by
        rw [hnil] at hle
        simpa using hle
      have hcache : cache = .drop := StreamCache.ext hnil hzero
      rw [if_neg hsize, hclean (by rw [hnil, hzero]; rfl), Cursor.seek_self, hcache]

theorem settle_eq {stream : BufferedFileStream} {f : File} (hv : Views stream f)
    (hs : f.data.length < 2 ^ 31) :
    (if stream.syncPending then stream.flush else stream.unread) =
      (true, ⟨f, .drop, false⟩) := by
  cases hp : stream.syncPending with
  | false => simpa using unread_eq hv hs hp
  | true =>
    cases hv with
    | ahead => cases hp
    | pending base cache data => exact flush_eq base cache true hs

theorem sync_eq {stream : BufferedFileStream} {f : File} (hv : Views stream f)
    (hs : f.data.length < 2 ^ 31) :
    stream.sync.1 = true ∧ Views stream.sync.2 f ∧
      stream.sync.2.fileStream.data = f.data := by
  have hsettle := settle_eq hv hs
  cases hv with
  | ahead start cache f data fits place => exact ⟨rfl, .ahead start cache f data fits place, rfl⟩
  | pending base cache data =>
    have hsync : sync ⟨base, cache, true⟩ = (true, ⟨_, .drop, false⟩) := hsettle
    rw [hsync]
    exact ⟨rfl, views_drop _, rfl⟩

theorem tell_eq {stream : BufferedFileStream} {f : File} (hv : Views stream f)
    (hs : f.data.length < 2 ^ 31) : stream.tell = f.pos := by
  have hf := f.pos_le
  cases hv with
  | ahead start cache f data fits place =>
    have hpos : (f.seek (start + cache.data.length)).pos = start + cache.data.length :=
      Cursor.seek_pos_of_le fits
    have hle := cache.position_le
    have hfile : FileStream.tell (f.seek (start + cache.data.length)) =
        start + cache.data.length := by
      rw [FileStream.tell_eq (by exact hs), hpos]
    simp only [tell, hfile, Bool.not_false, if_true, StreamCache.pos, StreamCache.size]
    rw [sizeT_of_range (by omega) (by omega)]
    omega
  | pending base cache data =>
    have hbase := length_base_le base cache.data (base.pos + cache.position)
    have hfits := pending_fits base cache.data (base.pos + cache.position)
    have hle := cache.position_le
    have hfile : FileStream.tell base = base.pos := FileStream.tell_eq (by omega)
    have hplace : ((base.write cache.data).seek (base.pos + cache.position)).pos =
        base.pos + cache.position := Cursor.seek_pos_of_le (by
      rw [Cursor.write_data, length_overwrite base.pos_le]
      omega)
    rw [hplace] at hf ⊢
    simp only [tell, hfile, Bool.not_true, Bool.false_eq_true, if_false, StreamCache.pos]
    rw [sizeT_of_range (by omega) (by omega)]
    omega

theorem size_eq {stream : BufferedFileStream} {f : File} (hv : Views stream f)
    (hs : f.data.length < 2 ^ 31) : stream.size = f.data.length := by
  cases hv with
  | ahead start cache f data fits place => exact FileStream.size_eq hs
  | pending base cache data =>
    have hbase := length_base_le base cache.data (base.pos + cache.position)
    have hpos := base.pos_le
    have hlen : ((base.write cache.data).seek (base.pos + cache.position)).data.length =
        max base.data.length (base.pos + cache.data.length) := length_overwrite base.pos_le _
    have hsize : FileStream.size base = base.data.length := FileStream.size_eq (by omega)
    have htell : FileStream.tell base = base.pos := FileStream.tell_eq (by omega)
    simp only [size, hsize, htell, if_true]
    by_cases hover : base.data.length - base.pos < cache.size
    · rw [if_pos hover]
      simp only [StreamCache.size] at hover ⊢
      rw [sizeT_of_range (by omega) (by omega)]
      omega
    · rw [if_neg hover]
      simp only [StreamCache.size] at hover
      omega

theorem eof_eq {stream : BufferedFileStream} {f : File} (hv : Views stream f)
    (hok : stream.syncPending = true → f.pos = f.data.length) :
    stream.eof = FileStream.eof f := by
  cases hv with
  | ahead start cache f data fits place =>
    have hpos : (f.seek (start + cache.data.length)).pos = start + cache.data.length :=
      Cursor.seek_pos_of_le fits
    have hle := cache.position_le
    simp only [eof, Bool.not_false, if_true, FileStream.eof, storageFileEof, StreamCache.atEnd,
      hpos, Cursor.seek_data, ← Bool.decide_and]
    refine decide_eq_decide.2 ⟨?_, ?_⟩
    · rintro ⟨h₁, h₂⟩
      omega
    · intro h
      constructor <;> omega
  | pending base cache data =>
    have hsize : 0 < cache.data.length := List.length_pos_iff.2 data
    have hend := hok rfl
    have hle : ∀ b : Bool, b.toNat ≤ cache.size := by
      intro b
      have := b.toNat_le
      simp only [StreamCache.size]
      omega
    simp only [eof, FileStream.eof, storageFileEof, hend, hle, Bool.not_true, Bool.false_eq_true,
      if_false, decide_true]

theorem clean_eq {stream : BufferedFileStream} {f : File} (_hv : Views stream f) :
    Views stream.clean (FileStream.clean f) := by
  have hclean : ∀ g : File, FileStream.clean g = .empty := by
    intro g
    ext1 <;> simp [FileStream.clean, storageFileTruncate, storageFileSeek, Cursor.seek_pos]
  rw [clean, hclean, hclean]
  exact views_drop _

/-! ## Writing -/

theorem write_pending (base : File) (cache : StreamCache) (data : List UInt8) :
    ((base.write cache.data).seek (base.pos + cache.position)).write data =
      (base.write (overwrite cache.data cache.position data)).seek
        (base.pos + (cache.position + data.length)) := by
  have hle := cache.position_le
  have hplace : ((base.write cache.data).seek (base.pos + cache.position)).pos =
      base.pos + cache.position := Cursor.seek_pos_of_le (by
    rw [Cursor.write_data, length_overwrite base.pos_le]
    omega)
  ext1
  · rw [Cursor.write_data, hplace, Cursor.seek_data, Cursor.write_data,
      overwrite_overwrite base.pos_le hle]
    rfl
  · rw [Cursor.write_pos, hplace, Cursor.seek_pos_of_le]
    · omega
    · rw [Cursor.write_data, length_overwrite base.pos_le, length_overwrite hle]
      omega

/-- The invariant of the loop is that the cache is what is pending, be it empty. -/
theorem writeLoop_eq (base : File) (cache : StreamCache) (pending : Bool) (data : List UInt8)
    (hdata : data ≠ [])
    (hs : (((base.write cache.data).seek (base.pos + cache.position)).write data).data.length
      < 2 ^ 31) :
    (writeLoop ⟨base, cache, pending⟩ data).1 = 0 ∧
      Views (writeLoop ⟨base, cache, pending⟩ data).2
        (((base.write cache.data).seek (base.pos + cache.position)).write data) := by
  have hle := cache.position_le
  have hlen := cache.size_le
  have hmax : STREAM_CACHE_MAX_SIZE = 1024 := rfl
  have hpos : 0 < data.length := List.length_pos_iff.2 hdata
  obtain ⟨w, hw⟩ : ∃ w, w = cache.write data := ⟨_, rfl⟩
  have hcount : w.1 = min data.length (STREAM_CACHE_MAX_SIZE - cache.position) := by rw [hw]; rfl
  have hcached : w.2.data = overwrite cache.data cache.position (data.take w.1) := by rw [hw]; rfl
  have hplace : w.2.position = cache.position + w.1 := by rw [hw]; rfl
  rw [writeLoop, if_neg hdata]
  simp only [← hw]
  by_cases hfits : w.1 = data.length
  · rw [if_pos hfits]
    rw [hfits, List.take_length] at hcached
    refine ⟨rfl, ?_⟩
    rw [write_pending, ← hcached, ← hfits, ← hplace]
    refine Views.pending base w.2 ?_
    intro hnil
    have := w.2.position_le
    rw [hnil, hplace, List.length_nil] at this
    omega
  · rw [if_neg hfits]
    have htake : (data.take w.1).length = w.1 := by
      rw [List.length_take]
      omega
    have hfull : w.2.data.length = cache.position + w.1 := by
      rw [hcached, length_overwrite hle, htake]
      omega
    have hflushed : ((base.write cache.data).seek (base.pos + cache.position)).write
        (data.take w.1) = base.write w.2.data := by
      rw [write_pending, htake, ← hfull, ← hcached, ← Cursor.write_pos, Cursor.seek_self]
    have hsplit : ((base.write cache.data).seek (base.pos + cache.position)).write data =
        (base.write w.2.data).write (data.drop w.1) := by
      rw [← hflushed, Cursor.write_write, List.take_append_drop]
    have hnext : data.drop w.1 ≠ [] := by
      rw [Ne, List.drop_eq_nil_iff]
      omega
    have hdrop : ∀ g : File, (g.write StreamCache.drop.data).seek
        (g.pos + StreamCache.drop.position) = g := by
      intro g
      simp [StreamCache.drop]
    have ih := writeLoop_eq (base.write w.2.data) .drop false (data.drop w.1) hnext
    rw [hdrop, ← hsplit] at ih
    simp only [StreamCache.flush, FileStream.write, storageFileWrite, decide_true, if_true]
    exact ih hs
  termination_by data.length + cache.position
  decreasing_by
    simp only [List.length_drop, StreamCache.drop, STREAM_CACHE_MAX_SIZE] at *
    omega

theorem write_eq {stream : BufferedFileStream} {f : File} (hv : Views stream f)
    (data : List UInt8) (hs : f.data.length < 2 ^ 31)
    (hs' : (f.write data).data.length < 2 ^ 31) :
    (stream.write data).1 = data.length ∧ Views (stream.write data).2 (f.write data) := by
  have hstart : ∃ base cache pending, (if stream.syncPending then (true, stream)
      else stream.unread) = (true, ⟨base, cache, pending⟩) ∧
      (base.write cache.data).seek (base.pos + cache.position) = f ∧
      Views ⟨base, cache, pending⟩ f := by
    cases hp : stream.syncPending with
    | false =>
      refine ⟨f, .drop, false, ?_, by simp [StreamCache.drop], views_drop f⟩
      simpa using unread_eq hv hs hp
    | true =>
      cases hv with
      | ahead => cases hp
      | pending base cache data' => exact ⟨base, cache, true, rfl, rfl, .pending base cache data'⟩
  obtain ⟨base, cache, pending, hopen, hf, hview⟩ := hstart
  simp only [write, hopen, Bool.not_true, Bool.false_eq_true, if_false]
  by_cases hdata : data = []
  · rw [hdata, writeLoop, if_pos rfl, Cursor.write_nil]
    exact ⟨rfl, hview⟩
  · have hloop := writeLoop_eq base cache pending data hdata (by rw [hf]; exact hs')
    rw [hf] at hloop
    exact ⟨by rw [hloop.1, Nat.sub_zero], hloop.2⟩

/-! ## Reading -/

theorem Views.cached {stream : BufferedFileStream} {f : File} (hv : Views stream f) :
    stream.cache.data.drop stream.cache.position =
      f.peek (stream.cache.data.length - stream.cache.position) := by
  cases hv with
  | ahead start cache f data fits place =>
    simp only [Cursor.peek, place]
    rw [← List.drop_drop, List.take_drop, Nat.add_sub_cancel' cache.position_le, ← data]
  | pending base cache data =>
    have hle := cache.position_le
    have hplace : ((base.write cache.data).seek (base.pos + cache.position)).pos =
        base.pos + cache.position := Cursor.seek_pos_of_le (by
      rw [Cursor.write_data, length_overwrite base.pos_le]
      omega)
    rw [Cursor.peek, hplace, Cursor.seek_data, Cursor.write_data,
      take_drop_overwrite base.pos_le (Nat.add_sub_cancel' hle).le,
      List.take_of_length_le (by simp)]

theorem Views.move {stream : BufferedFileStream} {f : File} (hv : Views stream f)
    (cache : StreamCache) (hdata : cache.data = stream.cache.data) :
    Views ⟨stream.fileStream, cache, stream.syncPending⟩
      (f.seek (f.pos + cache.position - stream.cache.position)) := by
  have hle := cache.position_le
  cases hv with
  | ahead start cache₀ f data fits place =>
    simp only at hdata
    have hplace : f.pos + cache.position - cache₀.position = start + cache.position := by omega
    simp only [hplace, ← hdata]
    rw [← hdata] at data fits
    exact Views.ahead start cache (f.seek (start + cache.position)) data fits
      (Cursor.seek_pos_of_le (by omega))
  | pending base cache₀ data =>
    simp only at hdata
    have hle₀ := cache₀.position_le
    have hpos : ((base.write cache₀.data).seek (base.pos + cache₀.position)).pos =
        base.pos + cache₀.position := Cursor.seek_pos_of_le (by
      rw [Cursor.write_data, length_overwrite base.pos_le]
      omega)
    have hplace : base.pos + cache₀.position + cache.position - cache₀.position =
        base.pos + cache.position := by omega
    rw [hpos, hplace, Cursor.seek_seek, ← hdata]
    rw [← hdata] at data
    exact Views.pending base cache data

theorem sync_at_end {stream : BufferedFileStream} {f : File} (hv : Views stream f)
    (hs : f.data.length < 2 ^ 31) (hend : stream.cache.position = stream.cache.data.length) :
    stream.sync.1 = true ∧ stream.sync.2.fileStream = f ∧ stream.sync.2.syncPending = false := by
  cases hv with
  | ahead start cache f data fits place =>
    simp only at hend
    refine ⟨rfl, ?_, rfl⟩
    change f.seek (start + cache.data.length) = f
    rw [← hend, ← place, Cursor.seek_self]
  | pending base cache data =>
    have hflush := flush_eq base cache true hs
    simp only [sync, if_true, hflush]
    exact ⟨trivial, trivial, trivial⟩

theorem fill_eq (f : File) :
    (StreamCache.fill f).1 = (f.peek STREAM_CACHE_MAX_SIZE).length ∧
      Views ⟨(StreamCache.fill f).2.2, (StreamCache.fill f).2.1, false⟩ f := by
  refine ⟨rfl, ?_⟩
  have hdata : (StreamCache.fill f).2.1.data = f.peek STREAM_CACHE_MAX_SIZE :=
    List.take_of_length_le (List.length_take_le _ _)
  have hlen : (f.peek STREAM_CACHE_MAX_SIZE).length =
      min STREAM_CACHE_MAX_SIZE (f.data.length - f.pos) := Cursor.length_peek _
  have hpos := f.pos_le
  have hview := Views.ahead f.pos (StreamCache.fill f).2.1 f
    (by
      have hall : (f.data.drop f.pos).take (f.data.length - f.pos) = f.data.drop f.pos :=
        List.take_of_length_le (by simp)
      rw [hdata, hlen, Cursor.peek, ← List.take_take, hall])
    (by rw [hdata, hlen]; omega) rfl
  have hfile : f.seek (f.pos + (StreamCache.fill f).2.1.data.length) = (StreamCache.fill f).2.2 := by
    rw [hdata, ← Cursor.advance_pos_peek]
    exact Cursor.ext rfl (Cursor.seek_pos_of_le (f.advance STREAM_CACHE_MAX_SIZE).pos_le)
  rwa [hfile] at hview

theorem readLoop_eq (stream : BufferedFileStream) (f : File) (n : ℕ) (hv : Views stream f)
    (hs : f.data.length < 2 ^ 31) :
    (stream.readLoop n).1 = f.peek n ∧ Views (stream.readLoop n).2 (f.advance n) := by
  have hle := stream.cache.position_le
  rw [readLoop]
  by_cases hn : n = 0
  · rw [if_pos hn, hn, Cursor.peek_zero, Cursor.advance_zero]
    exact ⟨rfl, hv⟩
  rw [if_neg hn]
  obtain ⟨k, hk⟩ : ∃ k, k = stream.cache.data.length - stream.cache.position := ⟨_, rfl⟩
  obtain ⟨r, hr⟩ : ∃ r, r = stream.cache.read n := ⟨_, rfl⟩
  have hbytes : r.1 = f.peek (min n k) := by
    have htake : r.1 = (stream.cache.data.drop stream.cache.position).take (min n k) := by
      rw [hr, hk]
      rfl
    rw [htake, hv.cached, ← hk, Cursor.peek, List.take_take, min_eq_left (min_le_right _ _)]
    rfl
  have hcached : r.2.data = stream.cache.data := by rw [hr]; rfl
  have hposition : r.2.position = stream.cache.position + min n k := by rw [hr, hk]; rfl
  have hlen : r.1.length = min n k := by
    rw [hr, hk]
    simp [StreamCache.read]
  have hmove := hv.move r.2 hcached
  have hplace : f.pos + r.2.position - stream.cache.position = f.pos + min n k := by omega
  rw [hplace] at hmove
  simp only [← hr]
  by_cases hfits : r.1.length = n
  · rw [if_pos hfits]
    rw [hlen] at hfits
    rw [hfits] at hbytes hmove
    exact ⟨hbytes, hmove⟩
  rw [if_neg hfits]
  have hmin : min n k = k := by omega
  rw [hmin] at hbytes hmove hposition hlen
  have hadvance : f.seek (f.pos + k) = f.advance k := rfl
  rw [hadvance] at hmove
  have hsmall : (f.advance k).data.length < 2 ^ 31 := hs
  obtain ⟨hsync, hfile, hclean⟩ := sync_at_end hmove hsmall (by simp only [hcached]; omega)
  obtain ⟨hcount, hview⟩ := fill_eq (f.advance k)
  have hsplit : f.peek n = r.1 ++ (f.advance k).peek (n - k) := by
    rw [hbytes, ← Cursor.peek_add]
    congr 1
    omega
  have hfinal : f.advance n = (f.advance k).advance (n - k) := by
    rw [Cursor.advance_advance]
    congr 1
    omega
  simp only [hsync, if_true, hfile, hclean, hlen]
  rw [hsplit, hfinal]
  by_cases hzero : (StreamCache.fill (f.advance k)).1 = 0
  · rw [if_pos hzero]
    rw [hcount] at hzero
    have hnone : (f.advance k).data.length ≤ (f.advance k).pos := by
      rw [Cursor.length_peek, STREAM_CACHE_MAX_SIZE] at hzero
      omega
    rw [Cursor.peek_of_end hnone, Cursor.advance_of_end hnone, List.append_nil]
    exact ⟨rfl, hview⟩
  · rw [if_neg hzero]
    obtain ⟨ih, ihv⟩ := readLoop_eq _ _ (n - k) hview hsmall
    exact ⟨by rw [ih], ihv⟩
  termination_by 2 * n + (if stream.cache.position = stream.cache.data.length then 1 else 0)
  decreasing_by
    have hfilled : (StreamCache.fill (f.advance k)).2.1.position ≠
        (StreamCache.fill (f.advance k)).2.1.data.length := by
      have hlength : (StreamCache.fill (f.advance k)).2.1.data.length =
          (StreamCache.fill (f.advance k)).1 := by
        rw [hcount]
        exact congrArg List.length (List.take_of_length_le (List.length_take_le _ _))
      rw [hlength]
      exact fun h => hzero h.symm
    rw [if_neg hfilled]
    split_ifs <;> omega

/-! ## Seeking -/

theorem seekOffset_eq (cache : StreamCache) (offset : ℤ) :
    cache.seekOffset offset =
      max (-(cache.position : ℤ)) (min (cache.data.length - cache.position) offset) := by
  have := cache.position_le
  unfold StreamCache.seekOffset
  split_ifs <;> omega

theorem Views.fits {stream : BufferedFileStream} {f : File} (hv : Views stream f) :
    stream.cache.position ≤ f.pos ∧
      f.pos + (stream.cache.data.length - stream.cache.position) ≤ f.data.length := by
  cases hv with
  | ahead start cache f data fits place =>
    have hle := cache.position_le
    constructor <;> simp only <;> omega
  | pending base cache data =>
    have hle := cache.position_le
    have hfits := pending_fits base cache.data (base.pos + cache.position)
    have hplace : ((base.write cache.data).seek (base.pos + cache.position)).pos =
        base.pos + cache.position := Cursor.seek_pos_of_le (by
      rw [Cursor.write_data, length_overwrite base.pos_le]
      omega)
    rw [hplace]
    constructor <;> simp only <;> omega

theorem seek_inside {stream : BufferedFileStream} {f : File} {offset : ℤ} (hv : Views stream f)
    (hs : f.data.length < 2 ^ 31) (hback : -(stream.cache.position : ℤ) ≤ offset)
    (hforth : offset ≤ stream.cache.data.length - stream.cache.position) :
    (stream.seek offset .fromCurrent).1 = (FileStream.seek f offset .fromCurrent).1 ∧
      Views (stream.seek offset .fromCurrent).2 (FileStream.seek f offset .fromCurrent).2 := by
  have hle := stream.cache.position_le
  obtain ⟨hpos, hfits⟩ := hv.fits
  have hmoved : stream.cache.seekOffset offset = offset := by
    rw [seekOffset_eq]
    omega
  have hnew : stream.newOffset offset .fromCurrent = 0 := by
    simp only [newOffset, hmoved, sub_self]
    rfl
  have hmove := hv.move (stream.cache.seek offset).2 rfl
  have hplace : f.pos + (stream.cache.seek offset).2.position - stream.cache.position =
      (f.pos + offset).toNat := by
    simp only [StreamCache.seek, hmoved]
    omega
  rw [hplace] at hmove
  rw [FileStream.seek_eq_of_le hs .fromCurrent (p := (f.pos + offset).toNat)
    (by simp only [StreamOffset.origin]; omega) (by omega) (by omega)]
  simp only [seek, hnew, ne_eq, not_true_eq_false, or_self, if_false, if_true]
  exact ⟨trivial, hmove⟩

theorem seek_outside (stream : BufferedFileStream) (offset : ℤ) {type : StreamOffset} (g : File)
    (hnew : stream.newOffset offset type ≠ 0 ∨ type ≠ .fromCurrent)
    (hg : (if stream.syncPending then
        sync ⟨stream.fileStream, if type = .fromCurrent then (stream.cache.seek offset).2
          else stream.cache, stream.syncPending⟩
      else (true, ⟨stream.fileStream, .drop, stream.syncPending⟩)) = (true, ⟨g, .drop, false⟩)) :
    (stream.seek offset type).1 = (FileStream.seek g (stream.newOffset offset type) type).1 ∧
      Views (stream.seek offset type).2
        (FileStream.seek g (stream.newOffset offset type) type).2 := by
  simp only [seek, if_pos hnew, hg, orBreak_true]
  exact ⟨trivial, views_drop _⟩

theorem seek_fromStart_fromEnd {stream : BufferedFileStream} {f : File} {offset : ℤ}
    {type : StreamOffset} (hv : Views stream f) (hs : f.data.length < 2 ^ 31)
    (htype : type ≠ .fromCurrent) (hlow : -2 ^ 31 ≤ offset) (hhigh : offset < 2 ^ 31) :
    (stream.seek offset type).1 = (FileStream.seek f offset type).1 ∧
      Views (stream.seek offset type).2 (FileStream.seek f offset type).2 := by
  have hnew : stream.newOffset offset type = offset := by
    cases type with
    | fromCurrent => exact absurd rfl htype
    | fromStart => rfl
    | fromEnd => rfl
  cases hv with
  | ahead start cache f data fits place =>
    have hout := seek_outside ⟨f.seek (start + cache.data.length), cache, false⟩ offset
      (f.seek (start + cache.data.length)) (Or.inr htype) rfl
    have horigin : (type.origin (f.seek (start + cache.data.length)).pos f.data.length : ℤ)
        = type.origin f.pos f.data.length := by
      cases type with
      | fromCurrent => exact absurd rfl htype
      | fromStart => rfl
      | fromEnd => rfl
    have hsame : FileStream.seek (f.seek (start + cache.data.length)) offset type =
        FileStream.seek f offset type := by
      rw [FileStream.seek_eq hs type rfl (by omega) hhigh,
        FileStream.seek_eq (by exact hs) type (by rw [Cursor.seek_data, horigin]) (by omega) hhigh]
      rfl
    rw [hnew, hsame] at hout
    exact hout
  | pending base cache data =>
    have hflush : sync ⟨base, cache, true⟩ = (true, ⟨_, .drop, false⟩) :=
      flush_eq base cache true hs
    have hout := seek_outside ⟨base, cache, true⟩ offset _ (Or.inr htype)
      (by rw [if_neg htype]; exact hflush)
    rw [hnew] at hout
    exact hout

theorem seek_forwards {stream : BufferedFileStream} {f : File} {offset : ℤ} (hv : Views stream f)
    (hs : f.data.length < 2 ^ 31) (hhigh : offset < 2 ^ 31)
    (hforth : (stream.cache.data.length : ℤ) - stream.cache.position < offset) :
    (stream.seek offset .fromCurrent).1 = (FileStream.seek f offset .fromCurrent).1 ∧
      Views (stream.seek offset .fromCurrent).2 (FileStream.seek f offset .fromCurrent).2 := by
  have hle := stream.cache.position_le
  obtain ⟨hpos, hfits⟩ := hv.fits
  have hmoved : stream.cache.seekOffset offset =
      stream.cache.data.length - stream.cache.position := by
    rw [seekOffset_eq]
    omega
  have hnew : stream.newOffset offset .fromCurrent =
      offset - (stream.cache.data.length - stream.cache.position) := by
    simp only [newOffset, hmoved]
    rw [int32_of_range (by omega) (by omega), if_neg (by omega)]
  have hend : (stream.cache.seek offset).2.position = stream.cache.data.length := by
    simp only [StreamCache.seek, hmoved]
    omega
  have hmove := hv.move (stream.cache.seek offset).2 rfl
  have hplace : f.pos + (stream.cache.seek offset).2.position - stream.cache.position =
      f.pos + (stream.cache.data.length - stream.cache.position) := by omega
  rw [hplace] at hmove
  obtain ⟨g, hg⟩ : ∃ g, g = f.seek (f.pos + (stream.cache.data.length - stream.cache.position)) :=
    ⟨_, rfl⟩
  have hgpos : g.pos = f.pos + (stream.cache.data.length - stream.cache.position) := by
    rw [hg]
    exact Cursor.seek_pos_of_le hfits
  have hgdata : g.data = f.data := by rw [hg]; rfl
  have hgseek : ∀ p, g.seek p = f.seek p := by
    intro p
    rw [hg, Cursor.seek_seek]
  rw [← hg] at hmove
  have hsettled : (if stream.syncPending then
        sync ⟨stream.fileStream, if StreamOffset.fromCurrent = .fromCurrent
          then (stream.cache.seek offset).2 else stream.cache, stream.syncPending⟩
      else (true, ⟨stream.fileStream, .drop, stream.syncPending⟩)) =
        (true, ⟨g, .drop, false⟩) := by
    rw [if_pos rfl]
    have hsync := sync_at_end hmove (by rw [hgdata]; exact hs) hend
    have hsettle := settle_eq hmove (by rw [hgdata]; exact hs)
    cases hp : stream.syncPending with
    | false =>
      rw [hp] at hsync
      simp only [Bool.false_eq_true, if_false]
      rw [← hsync.2.1]
      rfl
    | true =>
      rw [hp] at hsettle
      simpa [sync] using hsettle
  have hout := seek_outside stream offset g (Or.inl (by rw [hnew]; omega)) hsettled
  have hsame : FileStream.seek g (stream.newOffset offset .fromCurrent) .fromCurrent =
      FileStream.seek f offset .fromCurrent := by
    rw [FileStream.seek_eq hs .fromCurrent rfl (by simp only [StreamOffset.origin]; omega) hhigh,
      FileStream.seek_eq (p := f.pos + offset) (by rw [hgdata]; exact hs) .fromCurrent
        (by simp only [StreamOffset.origin, hnew, hgpos]; omega) (by omega) (by omega), hgdata,
      hgseek]
    rfl
  rw [hsame] at hout
  exact hout

/-- A seek backwards out of the cache. While a synchronisation is pending it ends a cache's length
too early, which makes no difference if it is to end before the start anyway. -/
theorem seek_backwards {stream : BufferedFileStream} {f : File} {offset : ℤ} (hv : Views stream f)
    (hs : f.data.length < 2 ^ 31) (hlow : -2 ^ 31 ≤ offset)
    (hback : offset < -(stream.cache.position : ℤ))
    (hok : stream.syncPending = true → f.pos + offset < 0 ∧
      -2 ^ 31 ≤ f.pos + offset - stream.cache.data.length) :
    (stream.seek offset .fromCurrent).1 = (FileStream.seek f offset .fromCurrent).1 ∧
      Views (stream.seek offset .fromCurrent).2 (FileStream.seek f offset .fromCurrent).2 := by
  have hle := stream.cache.position_le
  have hmax := stream.cache.size_le
  simp only [STREAM_CACHE_MAX_SIZE] at hmax
  have hmoved : stream.cache.seekOffset offset = -(stream.cache.position : ℤ) := by
    rw [seekOffset_eq]
    omega
  have hnew : stream.newOffset offset .fromCurrent =
      int32 (offset + stream.cache.position - stream.cache.data.length) := by
    simp only [newOffset, hmoved]
    rw [int32_of_range (by omega) (by omega), if_pos (by omega), sub_neg_eq_add]
    rfl
  have hnonzero : stream.newOffset offset .fromCurrent ≠ 0 := by
    rw [hnew, int32_eq]
    split_ifs <;> omega
  have hplain := FileStream.seek_eq hs .fromCurrent rfl
    (by simp only [StreamOffset.origin]; omega) (show offset < 2 ^ 31 by omega)
  simp only [StreamOffset.origin] at hplain
  cases hv with
  | ahead start cache f data fits place =>
    simp only at hnew hnonzero hle hback hmax
    have hout := seek_outside ⟨f.seek (start + cache.data.length), cache, false⟩ offset
      (f.seek (start + cache.data.length)) (Or.inl hnonzero) rfl
    have hpos : (f.seek (start + cache.data.length)).pos = start + cache.data.length :=
      Cursor.seek_pos_of_le fits
    rw [hnew, FileStream.seek_int32, FileStream.seek_eq (p := f.pos + offset) (by exact hs)
      .fromCurrent (by simp only [StreamOffset.origin, hpos]; omega) (by omega) (by omega)] at hout
    rw [hplain]
    exact hout
  | pending base cache data =>
    simp only at hnew hnonzero hle hback hmax hok
    obtain ⟨hbefore, hrange⟩ := hok trivial
    obtain ⟨w, hw⟩ : ∃ w, w = base.write cache.data := ⟨_, rfl⟩
    have hwlen : w.data.length = max base.data.length (base.pos + cache.data.length) := by
      rw [hw]
      exact length_overwrite base.pos_le _
    have hbase := base.pos_le
    have hplace : (w.seek (base.pos + cache.position)).pos = base.pos + cache.position :=
      Cursor.seek_pos_of_le (by omega)
    have hzero : (cache.seek offset).2.position = 0 := by
      simp only [StreamCache.seek, hmoved]
      omega
    have hflush := flush_eq base (cache.seek offset).2 true (by exact hs)
    have hout := seek_outside ⟨base, cache, true⟩ offset _ (Or.inl hnonzero)
      (by rw [if_pos rfl]; exact hflush)
    have hcached : (cache.seek offset).2.data = cache.data := rfl
    rw [hzero, Nat.add_zero, hcached, ← hw] at hout
    rw [← hw] at hs hplain hbefore hrange ⊢
    rw [hplace] at hplain hbefore hrange
    have hbpos : (w.seek base.pos).pos = base.pos := Cursor.seek_pos_of_le (by omega)
    have htarget : ∀ p : ℤ, p < 0 → seekTarget w.data.length p = (false, 0) := by
      intro p hp
      rw [seekTarget, if_pos (Or.inl hp)]
    rw [hnew, FileStream.seek_int32, FileStream.seek_eq
      (p := base.pos + cache.position + offset - cache.data.length) (by exact hs) .fromCurrent
      (by simp only [StreamOffset.origin, hbpos]; omega) (by omega) (by omega)] at hout
    rw [hplain]
    simp only [Cursor.seek_data, Cursor.seek_seek] at hout ⊢
    rw [htarget _ hbefore]
    rw [htarget _ (by omega)] at hout
    exact hout

/-! ## Runs -/

/-- Where a call on the buffered stream does what it does on the plain one: the file stays under
`2 ^ 31` bytes, and while a synchronisation is pending `eof` is asked at the end only and no
relative seek leaves the cache backwards, unless it is to end before the start. -/
def StepOk (stream : BufferedFileStream) : BufferedOp → Prop
  | .stream .eof => stream.syncPending = true → stream.file.pos = stream.file.data.length
  | .stream (.seek offset .fromCurrent) =>
    stream.syncPending = true → -(stream.cache.position : ℤ) ≤ offset.toInt ∨
      (stream.file.pos + offset.toInt < 0 ∧
        -2 ^ 31 ≤ stream.file.pos + offset.toInt - stream.cache.data.length)
  | .stream (.write data) => (stream.file.write data).data.length < 2 ^ 31
  | .stream (.deleteAndInsert deleteSize writeCallback) =>
    (FileStream.inserted stream.file writeCallback).1 = true →
      (FileStream.replaced stream.file deleteSize writeCallback).data.length < 2 ^ 31
  | _ => True

theorem exec_sim (stream : BufferedFileStream) (f : File) (op : BufferedOp)
    (h : Views stream f ∧ f.data.length < 2 ^ 31) (hok : StepOk stream op) :
    (exec stream op).1 = (FileStream.execBuffered f op).1 ∧
      Views (exec stream op).2 (FileStream.execBuffered f op).2 ∧
        (FileStream.execBuffered f op).2.data.length < 2 ^ 31 := by
  obtain ⟨hv, hs⟩ := h
  have hf := hv.file_eq
  match op with
  | .sync =>
    obtain ⟨hsync, hview, -⟩ := sync_eq hv hs
    exact ⟨congrArg StreamResult.bool hsync, hview, hs⟩
  | .stream (.read n) =>
    obtain ⟨hdata, hview⟩ := readLoop_eq stream f n hv hs
    exact ⟨congrArg StreamResult.data hdata, hview, hs⟩
  | .stream (.write data) =>
    simp only [StepOk, hf] at hok
    obtain ⟨hcount, hview⟩ := write_eq hv data hs hok
    exact ⟨congrArg StreamResult.count hcount, hview, hok⟩
  | .stream (.seek offset type) =>
    have hrange := int32_toInt offset
    have hseek : (stream.seek offset.toInt type).1 = (FileStream.seek f offset.toInt type).1 ∧
        Views (stream.seek offset.toInt type).2 (FileStream.seek f offset.toInt type).2 := by
      by_cases htype : type = .fromCurrent
      · subst htype
        simp only [StepOk, hf] at hok
        by_cases hback : -(stream.cache.position : ℤ) ≤ offset.toInt
        · by_cases hforth :
              offset.toInt ≤ (stream.cache.data.length : ℤ) - stream.cache.position
          · exact seek_inside hv hs hback hforth
          · exact seek_forwards hv hs hrange.2 (by omega)
        · exact seek_backwards hv hs hrange.1 (by omega)
            (fun hp => (hok hp).resolve_left hback)
      · exact seek_fromStart_fromEnd hv hs htype hrange.1 hrange.2
    refine ⟨congrArg StreamResult.bool hseek.1, hseek.2, ?_⟩
    change (FileStream.seek f offset.toInt type).2.data.length < _
    rw [FileStream.seek_data]
    exact hs
  | .stream .tell =>
    refine ⟨congrArg StreamResult.count ?_, hv, hs⟩
    rw [tell_eq hv hs, FileStream.tell_eq hs]
  | .stream .size =>
    refine ⟨congrArg StreamResult.count ?_, hv, hs⟩
    rw [size_eq hv hs, FileStream.size_eq hs]
  | .stream .eof =>
    simp only [StepOk, hf] at hok
    exact ⟨congrArg StreamResult.bool (eof_eq hv hok), hv, hs⟩
  | .stream .clean =>
    refine ⟨rfl, clean_eq hv, ?_⟩
    simp [FileStream.execBuffered, FileStream.exec, FileStream.clean, storageFileTruncate,
      storageFileSeek, Cursor.seek_pos]
  | .stream (.deleteAndInsert n cb) =>
    simp only [StepOk, hf] at hok
    have hsettle : stream.deleteAndInsert n cb =
        ((FileStream.deleteAndInsert f n cb).1,
          ⟨(FileStream.deleteAndInsert f n cb).2, .drop, false⟩) := by
      rw [deleteAndInsert, settle_eq hv hs, orBreak_true]
    refine ⟨congrArg StreamResult.bool ?_, ?_, FileStream.deleteAndInsert_small hs hok⟩
    · rw [hsettle]
    · change Views (stream.deleteAndInsert n cb).2 _
      rw [hsettle]
      exact views_drop _

/-- On every sequence of calls that meets the condition call by call the buffered stream returns
what the plain stream returns, and a synchronisation or a close then leaves the plain stream's
file. -/
theorem buffered_refines_plain (file : File) (hs : file.data.length < 2 ^ 31)
    (ops : List BufferedOp) (hok : Along StepOk exec (ofFile file) ops) :
    (run exec (ofFile file) ops).1 = (run FileStream.execBuffered file ops).1 ∧
      (run exec (ofFile file) ops).2.sync.2.fileStream.data =
        (run FileStream.execBuffered file ops).2.data ∧
      (run exec (ofFile file) ops).2.close.2.fileStream.data =
        (run FileStream.execBuffered file ops).2.data := by
  have hstart : Views (ofFile file) file := views_drop file
  obtain ⟨hout, hv, hsmall⟩ := run_sim (fun stream f => Views stream f ∧ f.data.length < 2 ^ 31)
    exec_sim ops ⟨hstart, hs⟩ hok
  refine ⟨hout, (sync_eq hv hsmall).2.2, ?_⟩
  rw [close, settle_eq hv hsmall]

/-- A write, a seek back and a read. -/
theorem buffered_refines_plain_write :
    (run exec (ofFile ⟨[97, 98, 99], 0, by decide⟩)
      [.stream (.write [120]), .stream (.seek 0 .fromStart), .stream (.read 2)]).1 =
    (run FileStream.execBuffered ⟨[97, 98, 99], 0, by decide⟩
      [.stream (.write [120]), .stream (.seek 0 .fromStart), .stream (.read 2)]).1 :=
  (buffered_refines_plain ⟨[97, 98, 99], 0, by decide⟩ (by decide)
    [.stream (.write [120]), .stream (.seek 0 .fromStart), .stream (.read 2)] (by
      refine ⟨?_, trivial, trivial, trivial⟩
      change List.length _ < _
      decide)).1

/-- With a byte pending over the first of three the buffered stream says it is at the end. -/
theorem eof_while_pending :
    (run exec (ofFile ⟨[97, 98, 99], 0, by decide⟩) [.stream (.write [120]), .stream .eof]).1 =
      [.count 1, .bool true] ∧
    (run FileStream.execBuffered ⟨[97, 98, 99], 0, by decide⟩
      [.stream (.write [120]), .stream .eof]).1 = [.count 1, .bool false] := by
  refine ⟨?_, by decide⟩
  have hwrite : (ofFile ⟨[97, 98, 99], 0, by decide⟩).write [120] =
      (1, ⟨⟨[97, 98, 99], 0, by decide⟩, ⟨[120], 1, by decide, by decide⟩, true⟩) := by
    rw [write, show (if (ofFile ⟨[97, 98, 99], 0, by decide⟩).syncPending then
      (true, ofFile ⟨[97, 98, 99], 0, by decide⟩)
      else (ofFile ⟨[97, 98, 99], 0, by decide⟩).unread) =
      (true, ofFile ⟨[97, 98, 99], 0, by decide⟩) from rfl]
    simp only [Bool.not_true, Bool.false_eq_true, if_false]
    rw [writeLoop]
    rfl
  simp only [run, exec, hwrite]
  decide

end BufferedFileStream

end KiisuFirmware
