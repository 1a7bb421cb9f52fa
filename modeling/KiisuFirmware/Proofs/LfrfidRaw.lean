import KiisuFirmware.Proofs.LfrfidRawCapture
import KiisuFirmware.Proofs.Stream

/-!
# What a replay replays

The pairs of a recording come out of the file one after the other, and where it ends the first one
follows the last. The entries of the first half are scaled when it is refilled; those of the second
half stay as they are in the file, since what is scaled then is the first half once more.
-/

namespace KiisuFirmware

theorem toNat_pushByte (byte : UInt8) (value : UInt32) (h : value.toNat < 2 ^ 24) :
    (byte.toUInt32 ||| value <<< 8).toNat = byte.toNat + 2 ^ 8 * value.toNat := by
  have hbyte := byte.toNat_lt
  have hshift : (value <<< 8).toNat = 2 ^ 8 * value.toNat := by
    rw [UInt32.toNat_shiftLeft, show (8 : UInt32).toNat % 32 = 8 from rfl, Nat.shiftLeft_eq]
    omega
  rw [UInt32.toNat_or, UInt8.toNat_toUInt32, hshift, Nat.or_comm, ← Nat.two_pow_add_eq_or_of_lt hbyte]
  exact Nat.add_comm _ _

theorem uint32OfBytes_uint32Bytes (value : UInt32) : uint32OfBytes (uint32Bytes value) = value := by
  have hvalue := value.toNat_lt
  have hshift : ∀ k : UInt32, k.toNat < 32 →
      ((value >>> k).toUInt8).toNat = value.toNat / 2 ^ k.toNat % 2 ^ 8 := fun k hk => by
    rw [UInt32.toNat_toUInt8, UInt32.toNat_shiftRight, Nat.shiftRight_eq_div_pow,
      Nat.mod_eq_of_lt hk]
  have h1 := hshift 8 (by decide)
  have h2 := hshift 16 (by decide)
  have h3 := hshift 24 (by decide)
  simp only [show (8 : UInt32).toNat = 8 from rfl] at h1
  simp only [show (16 : UInt32).toNat = 16 from rfl] at h2
  simp only [show (24 : UInt32).toNat = 24 from rfl] at h3
  have e3 := toNat_pushByte (value >>> 24).toUInt8 0 (by decide)
  have e2 := toNat_pushByte (value >>> 16).toUInt8 _ (by rw [e3, h3]; simp; omega)
  have e1 := toNat_pushByte (value >>> 8).toUInt8 _ (by rw [e2, e3, h3, h2]; simp; omega)
  have e0 := toNat_pushByte value.toUInt8 _ (by rw [e1, e2, e3, h3, h2, h1]; simp; omega)
  rw [e1, e2, e3, h1, h2, h3, UInt32.toNat_toUInt8] at e0
  rw [← UInt32.toNat_inj]
  refine e0.trans ?_
  rw [show (0 : UInt32).toNat = 0 from rfl]
  omega

theorem ofBytes_bytes (header : LfrfidRawFileHeader) :
    LfrfidRawFileHeader.ofBytes header.bytes = header := by
  obtain ⟨magic, version, frequency, dutyCycle, maxBufferSize⟩ := header
  have h (value : UInt32) : uint32OfBytes [value.toUInt8, (value >>> 8).toUInt8,
    (value >>> 16).toUInt8, (value >>> 24).toUInt8] = value := uint32OfBytes_uint32Bytes value
  simp [LfrfidRawFileHeader.ofBytes, LfrfidRawFileHeader.bytes, uint32Bytes, h]

/-! ## Reading pairs -/

/-- The `k`-th pair of a file that begins again where it ends. -/
def cyclicPair (pairs : List (UInt32 × UInt32)) (k : ℕ) : UInt32 × UInt32 :=
  pairs.getD (k % pairs.length) (0, 0)

namespace LfrfidRawFile

/-- What is left of the buffer. -/
def unread (file : LfrfidRawFile) : List UInt8 :=
  (file.buffer.drop file.bufferCounter).take (file.bufferSize - file.bufferCounter)

/-- The buffer has some pairs left and the file some buffers, and the `k`-th pair comes next. -/
structure Stands (header : LfrfidRawFileHeader) (groups : List (List (UInt32 × UInt32)))
    (file : LfrfidRawFile) (k : ℕ) (left : List (UInt32 × UInt32)) : Prop where
  recorded : LfrfidRawReadWorker.Recorded header file.stream groups
  maxBufferSize : file.maxBufferSize = rfidDataBufferSize
  buffer : file.buffer.length = rfidDataBufferSize
  size_le : file.bufferSize ≤ rfidDataBufferSize
  unread : file.unread = left.flatMap packedPair
  place : ∃ before after m, groups = before ++ after ∧
    file.stream.rest = (after.flatMap fun group => lfrfidRawRecord (group.flatMap packedPair)) ∧
    m ≤ groups.flatten.length ∧ m % groups.flatten.length = k % groups.flatten.length ∧
    groups.flatten.drop m = left ++ after.flatten

variable {header : LfrfidRawFileHeader} {groups : List (List (UInt32 × UInt32))}
  {file : LfrfidRawFile} {k : ℕ} {left : List (UInt32 × UInt32)}

theorem flatMap_packedPair_eq_nil (h : left.flatMap packedPair = []) : left = [] := by
  rcases left with _ | ⟨pair, left⟩
  · rfl
  · have hpos := (length_packedPair pair).1
    rw [List.flatMap_cons, List.append_eq_nil_iff] at h
    rw [h.1] at hpos
    exact absurd hpos (by simp)

theorem readBuffer_record {stream : File} {bytes rest : List UInt8}
    (hstream : (if FileStream.eof file.stream then
      (FileStream.seek file.stream LfrfidRawFileHeader.size .fromStart).2 else file.stream) = stream)
    (hrest : stream.rest = lfrfidRawRecord bytes ++ rest)
    (hmax : bytes.length ≤ file.maxBufferSize) (hlength : bytes.length < 2 ^ 32) :
    file.readBuffer = .ok (FileStream.eof file.stream,
      ⟨(stream.advance 4).advance bytes.length, file.maxBufferSize, overwrite file.buffer 0 bytes,
        bytes.length, 0⟩) := by
  have hsize : stream.peek 4 = uint32Bytes (UInt32.ofNat bytes.length) := by
    rw [Cursor.peek_eq, hrest]
    rfl
  have hvalue : (uint32OfBytes (uint32Bytes (UInt32.ofNat bytes.length))).toNat = bytes.length := by
    rw [uint32OfBytes_uint32Bytes, UInt32.toNat_ofNat', Nat.mod_eq_of_lt hlength]
  have hdata : (stream.advance 4).peek bytes.length = bytes := by
    rw [Cursor.peek_eq, Cursor.rest_advance, hrest]
    exact List.take_left
  have hfour : (uint32Bytes (UInt32.ofNat bytes.length)).length = 4 := rfl
  unfold readBuffer
  simp only [hstream, FileStream.read, storageFileRead, hsize, hvalue, hfour, ne_eq, not_true_eq_false,
    if_false, Nat.not_lt.2 hmax, hdata]
  rfl

/-- Where there is nothing left the next buffer is read, the first one at the end of the file. -/
theorem readBuffer_stands (h : Stands header groups file k []) (hpairs : groups.flatten ≠ [])
    (hlength : file.stream.data.length < 2 ^ 31) : ∃ passEnd next left,
    file.readBuffer = .ok (passEnd, next) ∧ left ≠ [] ∧ next.bufferCounter < next.bufferSize ∧
      next.stream.data = file.stream.data ∧ Stands header groups next k left := by
  obtain ⟨hrecorded, hmax, hbuffer, hsize, hunread, before, after, m, hgroups, hrest, hm, hmod, hdrop⟩
    := h
  -- The buffers from here on, which are all of them where the file ends.
  obtain ⟨stream, before', group, after', m', hstream, hdata, hgroups', hrest', hm', hmod', hdrop'⟩ :
      ∃ stream before' group after' m', (if FileStream.eof file.stream then
        (FileStream.seek file.stream LfrfidRawFileHeader.size .fromStart).2 else file.stream) =
          stream ∧ stream.data = file.stream.data ∧ groups = before' ++ group :: after' ∧
        stream.rest = ((group :: after').flatMap fun group =>
          lfrfidRawRecord (group.flatMap packedPair)) ∧
        m' ≤ groups.flatten.length ∧ m' % groups.flatten.length = k % groups.flatten.length ∧
        groups.flatten.drop m' = (group :: after').flatten := by
    rcases after with _ | ⟨group, after⟩
    · have hend : FileStream.eof file.stream = true := by
        have hnil : file.stream.rest.length = 0 := by rw [hrest]; rfl
        rw [Cursor.length_rest] at hnil
        have hle := file.stream.pos_le
        simp only [FileStream.eof, storageFileEof, decide_eq_true_eq]
        omega
      have hheader : LfrfidRawFileHeader.size ≤ file.stream.data.length := by
        rw [hrecorded.data, List.length_append]
        exact Nat.le_add_right _ _
      have horigin : StreamOffset.fromStart.origin file.stream.pos file.stream.data.length +
          (LfrfidRawFileHeader.size : ℤ) = LfrfidRawFileHeader.size := by
        simp [StreamOffset.origin]
      have hseek := FileStream.seek_eq_of_le hlength .fromStart horigin hheader (by decide)
      rcases hgroups₀ : groups with _ | ⟨group, after⟩
      · rw [hgroups₀] at hpairs
        exact absurd rfl hpairs
      · have hzero : m = groups.flatten.length := by
          have hnil := congrArg List.length hdrop
          rw [List.length_drop] at hnil
          simp only [List.flatten_nil, List.append_nil, List.length_nil] at hnil
          omega
        refine ⟨file.stream.seek LfrfidRawFileHeader.size, [], group, after, 0, ?_, rfl, rfl, ?_,
          Nat.zero_le _, ?_, rfl⟩
        · rw [hend, if_pos rfl, hseek]
        · rw [Cursor.rest, Cursor.seek_pos_of_le hheader, Cursor.seek_data, hrecorded.data, hgroups₀]
          exact List.drop_left' rfl
        · rw [← hgroups₀, ← hmod, hzero, Nat.mod_self, Nat.zero_mod]
    · have hend : FileStream.eof file.stream = false := by
        have hpos : 0 < file.stream.rest.length := by
          rw [hrest]
          simp [lfrfidRawRecord, uint32Bytes]
        rw [Cursor.length_rest] at hpos
        simp only [FileStream.eof, storageFileEof, decide_eq_false_iff_not]
        omega
      refine ⟨file.stream, before, group, after, m, ?_, rfl, hgroups, hrest, hm, hmod, hdrop⟩
      rw [hend]
      rfl
  have hmem : group ∈ groups := by
    rw [hgroups']
    simp
  have hfits := hrecorded.fits group hmem
  have hnonempty := hrecorded.nonempty group hmem
  have hread := readBuffer_record hstream (by rw [hrest', List.flatMap_cons])
    (hfits.trans_eq hmax.symm) (lt_of_le_of_lt hfits (by decide))
  have hwritten : (overwrite file.buffer 0 (group.flatMap packedPair)).length =
      rfidDataBufferSize := by
    rw [length_overwrite (Nat.zero_le _), hbuffer, Nat.zero_add]
    exact Nat.max_eq_left hfits
  have hdata' : ((stream.advance 4).advance (group.flatMap packedPair).length).data =
      file.stream.data := hdata
  refine ⟨_, _, group, hread, hnonempty, ?_, hdata', ⟨?_, ?_, ?_⟩, hmax, hwritten, hfits, ?_,
    before' ++ [group], after', m', ?_, ?_, hm', hmod', hdrop'⟩
  · refine Nat.pos_of_ne_zero fun hzero => hnonempty ?_
    exact flatMap_packedPair_eq_nil (List.length_eq_zero_iff.1 hzero)
  · exact hdata'.trans hrecorded.data
  · exact hrecorded.nonempty
  · exact hrecorded.fits
  · change ((overwrite file.buffer 0 (group.flatMap packedPair)).drop 0).take
      ((group.flatMap packedPair).length - 0) = _
    have htake := take_overwrite_length (c := file.buffer) (Nat.zero_le _) (group.flatMap packedPair)
    rw [List.drop_zero, Nat.sub_zero]
    rwa [Nat.zero_add, List.take_zero, List.nil_append] at htake
  · rw [hgroups']
    simp
  · change ((stream.advance 4).advance (group.flatMap packedPair).length).rest = _
    rw [Cursor.rest_advance, Cursor.rest_advance, hrest', List.flatMap_cons]
    exact List.drop_left

theorem readPair_stands (h : Stands header groups file k left) (hpairs : groups.flatten ≠ [])
    (hlength : file.stream.data.length < 2 ^ 31) : ∃ passEnd next left',
    file.readPair = .ok (((cyclicPair groups.flatten k).2, (cyclicPair groups.flatten k).1, passEnd),
        next) ∧ next.stream.data = file.stream.data ∧ Stands header groups next (k + 1) left' := by
  -- A file whose buffer has something left.
  obtain ⟨passEnd, ready, pair, left', hload, hdata, hready⟩ : ∃ passEnd ready pair left',
      file.loadBuffer = .ok (passEnd, ready) ∧ ready.stream.data = file.stream.data ∧
      Stands header groups ready k (pair :: left') := by
    by_cases hempty : file.bufferSize ≤ file.bufferCounter
    · have hunread := h.unread
      rw [LfrfidRawFile.unread, Nat.sub_eq_zero_of_le hempty, List.take_zero] at hunread
      rcases flatMap_packedPair_eq_nil hunread.symm with rfl
      obtain ⟨passEnd, next, left, hread, hne, -, hdata, hnext⟩ := readBuffer_stands h hpairs hlength
      obtain ⟨pair, left', rfl⟩ := List.exists_cons_of_ne_nil hne
      exact ⟨passEnd, next, pair, left', by rw [loadBuffer, if_pos hempty, hread], hdata, hnext⟩
    · rcases left with _ | ⟨pair, left'⟩
      · have hunread := congrArg List.length h.unread
        rw [LfrfidRawFile.unread, List.length_take, List.length_drop, h.buffer] at hunread
        have hle := h.size_le
        simp only [List.flatMap_nil, List.length_nil] at hunread
        omega
      · exact ⟨false, file, pair, left', by rw [loadBuffer, if_neg hempty], rfl, h⟩
  obtain ⟨hrecorded, hmax, hbuffer, hsize, hunread, before, after, m, hgroups, hrest, hm, hmod, hdrop⟩
    := hready
  rw [List.flatMap_cons] at hunread
  have hpair : cyclicPair groups.flatten k = pair := by
    have hget : groups.flatten[m]? = some pair := by
      rw [← List.head?_drop, hdrop]
      rfl
    have hlt : m < groups.flatten.length := (List.getElem?_eq_some_iff.1 hget).1
    rw [cyclicPair, ← hmod, Nat.mod_eq_of_lt hlt, List.getD_eq_getElem?_getD, hget]
    rfl
  have hlt : m < groups.flatten.length := by
    have hlen := congrArg List.length hdrop
    rw [List.length_drop, List.length_append, List.length_cons] at hlen
    omega
  refine ⟨passEnd, { ready with bufferCounter := ready.bufferCounter + (packedPair pair).length },
    left', ?_, hdata, hrecorded, hmax, hbuffer, hsize, ?_, before, after, m + 1, hgroups, hrest, hlt,
    ?_, ?_⟩
  · have hunpack := varintPairUnpack_packed pair (left'.flatMap packedPair)
    rw [← hunread, LfrfidRawFile.unread] at hunpack
    rw [readPair, hload, hpair]
    simp only [bind, Except.bind, hunpack]
    rfl
  · have hrest' := congrArg (List.drop (packedPair pair).length) hunread
    rw [List.drop_left, LfrfidRawFile.unread, List.drop_take, List.drop_drop, Nat.sub_sub] at hrest'
    exact hrest'
  · rw [Nat.add_mod, hmod, ← Nat.add_mod]
  · rw [← List.drop_drop, hdrop]
    rfl

theorem readHeader_stands {stream : File} {frequency dutyCycle : UInt32}
    (h : LfrfidRawReadWorker.Recorded (lfrfidRawHeader frequency dutyCycle) stream groups) :
    ∃ file, readHeader (stream.seek 0) = .ok (lfrfidRawHeader frequency dutyCycle, file) ∧
      file.stream.data = stream.data ∧
      Stands (lfrfidRawHeader frequency dutyCycle) groups file 0 [] := by
  have hlength : (lfrfidRawHeader frequency dutyCycle).bytes.length = LfrfidRawFileHeader.size := rfl
  have hrest : (stream.seek 0).rest = (lfrfidRawHeader frequency dutyCycle).bytes ++
      groups.flatMap fun group => lfrfidRawRecord (group.flatMap packedPair) := by
    rw [Cursor.rest, Cursor.seek_pos_of_le (Nat.zero_le _), Cursor.seek_data, List.drop_zero, h.data]
  have hpeek : (stream.seek 0).peek LfrfidRawFileHeader.size =
      (lfrfidRawHeader frequency dutyCycle).bytes := by
    rw [Cursor.peek_eq, hrest]
    exact List.take_left' hlength
  have hmax : (UInt32.ofNat rfidDataBufferSize).toNat = rfidDataBufferSize := by decide
  refine ⟨⟨(stream.seek 0).advance LfrfidRawFileHeader.size, rfidDataBufferSize,
    List.replicate rfidDataBufferSize 0, 0, 0⟩, ?_, rfl, ⟨h.data, h.nonempty, h.fits⟩, rfl,
    List.length_replicate, Nat.zero_le _, ?_, [], groups, 0, rfl, ?_, Nat.zero_le _, rfl, rfl⟩
  · rw [readHeader]
    simp only [FileStream.read, storageFileRead, hpeek, hlength, ofBytes_bytes, if_true]
    rw [if_pos ⟨rfl, rfl⟩]
    simp only [lfrfidRawHeader, hmax]
  · rw [LfrfidRawFile.unread, Nat.sub_self, List.take_zero]
    rfl
  · rw [Cursor.rest_advance, hrest]
    exact List.drop_left' hlength

end LfrfidRawFile

namespace LfrfidRawWorkerEmulate

/-! ## Refilling -/

/-- What the timer takes for a pair. -/
def scaledPair (pair : UInt32 × UInt32) : UInt32 × UInt32 := (pair.2 / 8 - 1, pair.1 / 8)

def entry (data : LfrfidRawWorkerEmulate) (i : ℕ) : UInt32 × UInt32 :=
  (data.emulateBufferArr i, data.emulateBufferCcr i)

/-- The entries are those of the pairs of the file, which begins again where it ends. -/
def Replays (pairs : List (UInt32 × UInt32)) (data : LfrfidRawWorkerEmulate) (start k n : ℕ) : Prop :=
  ∀ i < n, data.entry (start + i) = scaledPair (cyclicPair pairs (k + i))

/-- The loop of `fill` and of `refill`. -/
def loop (data : LfrfidRawWorkerEmulate) (start n : ℕ) :
    Except LfrfidRawFileError LfrfidRawWorkerEmulate :=
  (List.range n).foldlM (fun data i => do
    let data ← data.readPair (start + i)
    return data.scale i) data

theorem fill_eq_loop (data : LfrfidRawWorkerEmulate) : data.fill = data.loop 0 emulateBufferSize := by
  unfold fill loop
  simp only [Nat.zero_add]

theorem refill_eq_loop (data : LfrfidRawWorkerEmulate) (event : LfrfidRawEmulateDMAEvent) :
    data.refill event = data.loop (refillStart event) (emulateBufferSize / 2) := rfl

theorem loop_succ (data : LfrfidRawWorkerEmulate) (start n : ℕ) : data.loop start (n + 1) = do
    let data ← data.loop start n
    let data ← data.readPair (start + n)
    return data.scale n := by
  unfold loop
  rw [List.range_succ, List.foldlM_append]
  simp only [List.foldlM_cons, List.foldlM_nil, bind_pure]

/-- The `k`-th pair comes next in a file that is a recording. -/
def Next (header : LfrfidRawFileHeader) (groups : List (List (UInt32 × UInt32)))
    (data : LfrfidRawWorkerEmulate) (k : ℕ) : Prop :=
  data.file.stream.data.length < 2 ^ 31 ∧
    ∃ left, LfrfidRawFile.Stands header groups data.file k left

variable {header : LfrfidRawFileHeader} {groups : List (List (UInt32 × UInt32))}
  {data : LfrfidRawWorkerEmulate} {k : ℕ}

theorem readPair_next (h : Next header groups data k) (hpairs : groups.flatten ≠ []) (i : ℕ) :
    ∃ next, data.readPair i = .ok next ∧ Next header groups next (k + 1) ∧
      next.entry i = ((cyclicPair groups.flatten k).2, (cyclicPair groups.flatten k).1) ∧
      ∀ j, j ≠ i → next.entry j = data.entry j := by
  obtain ⟨hlength, left, hstands⟩ := h
  obtain ⟨passEnd, file, left', hread, hdata, hnext⟩ :=
    LfrfidRawFile.readPair_stands hstands hpairs hlength
  refine ⟨⟨file, Function.update data.emulateBufferArr i (cyclicPair groups.flatten k).2,
    Function.update data.emulateBufferCcr i (cyclicPair groups.flatten k).1⟩, ?_,
    ⟨by rw [hdata]; exact hlength, left', hnext⟩, ?_, fun j hj => ?_⟩
  · rw [readPair, hread]
    rfl
  · simp [entry]
  · simp [entry, Function.update_of_ne hj]

theorem scale_entry (data : LfrfidRawWorkerEmulate) (i : ℕ) :
    (data.scale i).entry i = ((data.entry i).1 / 8 - 1, (data.entry i).2 / 8) ∧
      ∀ j, j ≠ i → (data.scale i).entry j = data.entry j := by
  refine ⟨?_, fun j hj => ?_⟩
  · simp [scale, entry]
  · simp [scale, entry, Function.update_of_ne hj]

theorem loop_zero (h : Next header groups data k) (hpairs : groups.flatten ≠ []) : ∀ n : ℕ,
    ∃ next, data.loop 0 n = .ok next ∧ Next header groups next (k + n) ∧
      Replays groups.flatten next 0 k n
  | 0 => ⟨data, rfl, h, fun _ hi => absurd hi (Nat.not_lt_zero _)⟩
  | n + 1 => by
    obtain ⟨reached, hloop, hnext, hreplays⟩ := loop_zero h hpairs n
    obtain ⟨read, hread, hnext', hentry, hother⟩ := readPair_next hnext hpairs (0 + n)
    obtain ⟨hscaled, hsame⟩ := scale_entry read n
    refine ⟨read.scale n, ?_, hnext', fun i hi => ?_⟩
    · rw [loop_succ, hloop]
      simp only [bind, Except.bind, hread]
      rfl
    · rw [Nat.zero_add] at hentry hother ⊢
      rcases Nat.lt_succ_iff_lt_or_eq.1 hi with hi | rfl
      · rw [hsame i (by omega), hother i (by omega)]
        have hreplay := hreplays i hi
        rwa [Nat.zero_add] at hreplay
      · rw [hscaled, hentry]
        rfl

theorem loop_raw (h : Next header groups data k) (hpairs : groups.flatten ≠ []) (start : ℕ) :
    ∀ n : ℕ, n ≤ start → ∃ next, data.loop start n = .ok next ∧ Next header groups next (k + n) ∧
      ∀ i < n, next.entry (start + i) =
        ((cyclicPair groups.flatten (k + i)).2, (cyclicPair groups.flatten (k + i)).1)
  | 0, _ => ⟨data, rfl, h, fun _ hi => absurd hi (Nat.not_lt_zero _)⟩
  | n + 1, hn => by
    obtain ⟨reached, hloop, hnext, hraw⟩ := loop_raw h hpairs start n (Nat.le_of_succ_le hn)
    obtain ⟨read, hread, hnext', hentry, hother⟩ := readPair_next hnext hpairs (start + n)
    obtain ⟨-, hsame⟩ := scale_entry read n
    refine ⟨read.scale n, ?_, hnext', fun i hi => ?_⟩
    · rw [loop_succ, hloop]
      simp only [bind, Except.bind, hread]
      rfl
    · rw [hsame (start + i) (by omega)]
      rcases Nat.lt_succ_iff_lt_or_eq.1 hi with hi | rfl
      · rw [hother (start + i) (by omega)]
        exact hraw i hi
      · exact hentry

theorem refill_half (h : Next header groups data k) (hpairs : groups.flatten ≠ []) :
    ∃ next, data.refill .halfTransfer = .ok next ∧
      Next header groups next (k + emulateBufferSize / 2) ∧
      Replays groups.flatten next (refillStart .halfTransfer) k (emulateBufferSize / 2) := by
  rw [refill_eq_loop]
  exact loop_zero h hpairs _

theorem raw_ne_scaled (pair : UInt32 × UInt32) : (pair.2, pair.1) ≠ scaledPair pair := by
  intro heq
  have hduration : pair.2 = pair.2 / 8 - 1 := congrArg Prod.fst heq
  have hnat := congrArg UInt32.toNat hduration
  have hlt := pair.2.toNat_lt
  rw [UInt32.toNat_sub, UInt32.toNat_div, show (8 : UInt32).toNat = 8 from rfl,
    show (1 : UInt32).toNat = 1 from rfl] at hnat
  omega

theorem refill_complete (h : Next header groups data k) (hpairs : groups.flatten ≠ []) :
    ∃ next, data.refill .transferComplete = .ok next ∧
      Next header groups next (k + emulateBufferSize / 2) ∧
      ¬Replays groups.flatten next (refillStart .transferComplete) k (emulateBufferSize / 2) := by
  rw [refill_eq_loop]
  obtain ⟨next, hloop, hnext, hraw⟩ := loop_raw h hpairs (refillStart .transferComplete)
    (emulateBufferSize / 2) le_rfl
  refine ⟨next, hloop, hnext, fun hreplays => ?_⟩
  have hfirst := hreplays 0 (by decide)
  rw [hraw 0 (by decide)] at hfirst
  exact raw_ne_scaled _ hfirst

/-- Every entry that an event has refilled is the one of its pair. -/
def EachReplays (pairs : List (UInt32 × UInt32)) (data : LfrfidRawWorkerEmulate)
    (events : List LfrfidRawEmulateDMAEvent) : Prop :=
  ∀ before event after reached next, events = before ++ event :: after →
    exec refill data before = .ok reached → reached.refill event = .ok next →
      Replays pairs next (refillStart event)
        (emulateBufferSize + emulateBufferSize / 2 * before.length) (emulateBufferSize / 2)

theorem exec_refill (hpairs : groups.flatten ≠ []) : ∀ (events : List LfrfidRawEmulateDMAEvent)
    {data : LfrfidRawWorkerEmulate} {k : ℕ}, Next header groups data k →
    ∃ next, exec refill data events = .ok next ∧
      Next header groups next (k + emulateBufferSize / 2 * events.length)
  | [], data, k, h => ⟨data, rfl, h⟩
  | event :: events, data, k, h => by
    obtain ⟨next, hrefill, hnext⟩ : ∃ next, data.refill event = .ok next ∧
        Next header groups next (k + emulateBufferSize / 2) := by
      rcases event with _ | _
      · obtain ⟨next, hrefill, hnext, -⟩ := refill_half h hpairs
        exact ⟨next, hrefill, hnext⟩
      · obtain ⟨next, hrefill, hnext, -⟩ := refill_complete h hpairs
        exact ⟨next, hrefill, hnext⟩
    obtain ⟨last, hexec, hlast⟩ := exec_refill hpairs events hnext
    refine ⟨last, ?_, ?_⟩
    · rw [exec, List.foldlM_cons, hrefill]
      exact hexec
    · rw [List.length_cons, Nat.mul_succ, Nat.add_comm (emulateBufferSize / 2 * _), ← Nat.add_assoc]
      exact hlast

theorem eachReplays_iff (hpairs : groups.flatten ≠ [])
    (h : Next header groups data emulateBufferSize) (events : List LfrfidRawEmulateDMAEvent) :
    EachReplays groups.flatten data events ↔ .transferComplete ∉ events := by
  refine ⟨fun hreplays hmem => ?_, fun hno before event after reached next hevents hexec hrefill => ?_⟩
  · obtain ⟨before, after, hevents⟩ := List.append_of_mem hmem
    obtain ⟨reached, hexec, hreached⟩ := exec_refill hpairs before h
    obtain ⟨next, hrefill, -, hnot⟩ := refill_complete hreached hpairs
    exact hnot (hreplays before _ after reached next hevents hexec hrefill)
  · obtain ⟨reached', hexec', hreached⟩ := exec_refill hpairs before h
    rcases Except.ok.inj (hexec'.symm.trans hexec) with rfl
    rcases event with _ | _
    · obtain ⟨next', hrefill', -, hreplays⟩ := refill_half hreached hpairs
      rcases Except.ok.inj (hrefill'.symm.trans hrefill) with rfl
      exact hreplays
    · exact absurd (hevents ▸ by simp) hno

theorem start_next {file : File} {frequency dutyCycle : UInt32}
    (h : LfrfidRawReadWorker.Recorded (lfrfidRawHeader frequency dutyCycle) file groups)
    (hpairs : groups.flatten ≠ []) (hlength : file.data.length < 2 ^ 31) :
    ∃ data, start file = .ok data ∧
      Next (lfrfidRawHeader frequency dutyCycle) groups data emulateBufferSize ∧
      Replays groups.flatten data 0 0 emulateBufferSize := by
  obtain ⟨opened, hheader, hdata, hstands⟩ := LfrfidRawFile.readHeader_stands h
  have hnext : Next (lfrfidRawHeader frequency dutyCycle) groups ⟨opened, fun _ => 0, fun _ => 0⟩ 0 :=
    ⟨by rw [hdata]; exact hlength, [], hstands⟩
  obtain ⟨data, hloop, hnext', hreplays⟩ := loop_zero hnext hpairs emulateBufferSize
  rw [Nat.zero_add] at hnext'
  refine ⟨data, ?_, hnext', hreplays⟩
  rw [← fill_eq_loop] at hloop
  simp only [start, hheader, bind, Except.bind, hloop]

end LfrfidRawWorkerEmulate

/-! ## Recordings and their replays -/

namespace LfrfidRawReadWorker

open LfrfidRawWorkerEmulate

/-- The pairs of the file are those that were captured. -/
def FileExact (header : LfrfidRawFileHeader) (file : File) (pairs : List (UInt32 × UInt32)) : Prop :=
  ∃ groups, Recorded header file groups ∧ groups.flatten = pairs

/-- A file that has pairs is replayed: the buffer is filled from the first pair on, and each event
refills its half with the pairs that follow. -/
def FileReplays (header : LfrfidRawFileHeader) (file : File)
    (events : List LfrfidRawEmulateDMAEvent) : Prop :=
  ∀ groups, Recorded header file groups → groups.flatten ≠ [] →
    ∃ data, LfrfidRawWorkerEmulate.start file = .ok data ∧
      Replays groups.flatten data 0 0 emulateBufferSize ∧
      (∃ last, exec refill data events = .ok last) ∧ EachReplays groups.flatten data events

theorem packed_injective : ∀ {pairs pairs' : List (UInt32 × UInt32)},
    pairs.flatMap packedPair = pairs'.flatMap packedPair → pairs = pairs'
  | [], pairs', h => (LfrfidRawFile.flatMap_packedPair_eq_nil h.symm).symm
  | pair :: pairs, [], h => LfrfidRawFile.flatMap_packedPair_eq_nil h
  | pair :: pairs, pair' :: pairs', h => by
    rw [List.flatMap_cons, List.flatMap_cons] at h
    have hunpack := varintPairUnpack_packed pair (pairs.flatMap packedPair)
    rw [h, varintPairUnpack_packed] at hunpack
    simp only [Option.some.injEq, Prod.mk.injEq] at hunpack
    rcases Prod.ext hunpack.1 hunpack.2.1 with rfl
    rw [packed_injective (List.append_cancel_left h)]

theorem record_injective {bytes bytes' rest rest' : List UInt8} (hlength : bytes.length < 2 ^ 32)
    (hlength' : bytes'.length < 2 ^ 32)
    (h : lfrfidRawRecord bytes ++ rest = lfrfidRawRecord bytes' ++ rest') :
    bytes = bytes' ∧ rest = rest' := by
  rw [lfrfidRawRecord, lfrfidRawRecord, List.append_assoc, List.append_assoc] at h
  obtain ⟨hsize, h⟩ := List.append_inj h rfl
  have hvalue := congrArg (fun bytes => (uint32OfBytes bytes).toNat) hsize
  simp only [uint32OfBytes_uint32Bytes, UInt32.toNat_ofNat'] at hvalue
  rw [Nat.mod_eq_of_lt hlength, Nat.mod_eq_of_lt hlength'] at hvalue
  exact List.append_inj h hvalue

theorem records_injective : ∀ {groups groups' : List (List (UInt32 × UInt32))},
    (∀ group ∈ groups, (group.flatMap packedPair).length ≤ rfidDataBufferSize) →
    (∀ group ∈ groups', (group.flatMap packedPair).length ≤ rfidDataBufferSize) →
    (groups.flatMap fun group => lfrfidRawRecord (group.flatMap packedPair)) =
      (groups'.flatMap fun group => lfrfidRawRecord (group.flatMap packedPair)) → groups = groups'
  | [], [], _, _, _ => rfl
  | [], group' :: groups', _, _, h => by
    have hlength := congrArg List.length h
    simp [lfrfidRawRecord, uint32Bytes] at hlength
  | group :: groups, [], _, _, h => by
    have hlength := congrArg List.length h
    simp [lfrfidRawRecord, uint32Bytes] at hlength
  | group :: groups, group' :: groups', hfits, hfits', h => by
    have hlt : rfidDataBufferSize < 2 ^ 32 := by decide
    rw [List.flatMap_cons, List.flatMap_cons] at h
    obtain ⟨hgroup, hrest⟩ := record_injective
      ((hfits group List.mem_cons_self).trans_lt hlt)
      ((hfits' group' List.mem_cons_self).trans_lt hlt) h
    rw [packed_injective hgroup, records_injective (fun g hg => hfits g (List.mem_cons_of_mem _ hg))
      (fun g hg => hfits' g (List.mem_cons_of_mem _ hg)) hrest]

theorem Recorded.unique {header : LfrfidRawFileHeader} {file : File}
    {groups groups' : List (List (UInt32 × UInt32))} (h : Recorded header file groups)
    (h' : Recorded header file groups') : groups = groups' :=
  records_injective h.fits h'.fits (List.append_cancel_left (h.data.symm.trans h'.data))

theorem Recorded.flatten_ne_nil {header : LfrfidRawFileHeader} {file : File}
    {groups : List (List (UInt32 × UInt32))} (h : Recorded header file groups)
    (hlength : file.data.length ≠ LfrfidRawFileHeader.size) : groups.flatten ≠ [] := by
  rcases groups with _ | ⟨group, groups⟩
  · refine absurd ?_ hlength
    rw [h.data]
    rfl
  · have hne := h.nonempty group List.mem_cons_self
    simp [hne]

/-- Without an overrun a recording is what was captured up to some pair, which is not the last one,
and its replay is right just for the first half of the buffer. -/
theorem recording_replays_iff (frequency dutyCycle : UInt32) (actions : List LfrfidRawAction)
    (worker : LfrfidRawReadWorker)
    (hcalm : ExecAlong Calm step (start frequency dutyCycle) actions)
    (hexec : exec step (start frequency dutyCycle) actions = .ok worker)
    (hoverrun : worker.overrunCount = 0) (hlength : worker.file.data.length < 2 ^ 31) :
    (∃ pairs, FileExact (lfrfidRawHeader frequency dutyCycle) worker.file pairs ∧
      pairs <+: capturedPairs none actions) ∧
    (FileExact (lfrfidRawHeader frequency dutyCycle) worker.file (capturedPairs none actions) ↔
      capturedPairs none actions = []) ∧
    ∀ events, FileReplays (lfrfidRawHeader frequency dutyCycle) worker.file events ↔
      (worker.file.data.length ≠ LfrfidRawFileHeader.size → .transferComplete ∉ events) := by
  obtain ⟨groups, rest, hrecorded, hpairs, hrest⟩ := recorded_of_calm hcalm hexec hoverrun
  refine ⟨⟨groups.flatten, ⟨groups, hrecorded, rfl⟩, rest, hpairs.symm⟩, ⟨fun hexact => ?_, fun hnone => ?_⟩,
    fun events => ⟨fun hreplays hfile hmem => ?_, fun hno groups' hrecorded' hne => ?_⟩⟩
  · obtain ⟨groups', hrecorded', hflatten⟩ := hexact
    rw [← hrecorded.unique hrecorded'] at hflatten
    by_contra hne
    rw [← hflatten] at hpairs
    exact hrest hne (List.self_eq_append_right.1 hpairs)
  · rw [hnone] at hpairs ⊢
    exact ⟨groups, hrecorded, (List.append_eq_nil_iff.1 hpairs.symm).1⟩
  · have hne := hrecorded.flatten_ne_nil hfile
    obtain ⟨data, hstart, -, -, heach⟩ := hreplays groups hrecorded hne
    obtain ⟨data', hstart', hnext, -⟩ := start_next hrecorded hne hlength
    rcases Except.ok.inj (hstart'.symm.trans hstart) with rfl
    exact (eachReplays_iff hne hnext events).1 heach hmem
  · obtain ⟨data, hstart, hnext, hfill⟩ := start_next hrecorded' hne hlength
    obtain ⟨last, hlast, -⟩ := exec_refill hne events hnext
    refine ⟨data, hstart, hfill, ⟨last, hlast⟩, (eachReplays_iff hne hnext events).2 (hno fun hsize => ?_)⟩
    rcases groups' with _ | ⟨group, groups'⟩
    · exact hne rfl
    · rw [hrecorded'.data, List.length_append, List.flatMap_cons] at hsize
      have hheader : (lfrfidRawHeader frequency dutyCycle).bytes.length = LfrfidRawFileHeader.size :=
        rfl
      simp only [lfrfidRawRecord, uint32Bytes, List.length_append, List.length_cons] at hsize
      omega

/-! ## A recording that has a buffer -/

/-- The first buffer has some pairs of two bytes, and nothing else has happened. -/
structure Filling (worker : LfrfidRawReadWorker) (pairs : ℕ) (file : File) : Prop where
  pending : worker.pair.Pending none
  overrun : worker.overrunCount = 0
  stream : worker.stream.bufferStream.stream = []
  index : worker.stream.bufferStream.index = 0
  count : worker.stream.bufferStream.maxBuffersCount = readDataBufferCount
  buffers : ∃ data : List UInt8, data.length = rfidDataBufferSize ∧
    worker.stream.bufferStream.buffers =
      Function.update (fun _ => .alloc rfidDataBufferSize) 0 ⟨false, 2 * pairs, data⟩
  releasing : worker.stream.releasing = none
  phase : worker.phase = .receiving
  file : worker.file = file

/-- A pulse and a period, some times, and two steps of the thread. -/
def oneBuffer : ℕ → List LfrfidRawAction
  | 0 => [.work, .work]
  | n + 1 => .capture true 64 :: .capture false 120 :: oneBuffer n

theorem packedPair_twoBytes : packedPair (64, 120) = [64, 120] := by
  rw [packedPair, varintUint32Pack, if_neg (by decide), varintUint32Pack, if_neg (by decide)]
  rfl

theorem calm_of_idle {worker : LfrfidRawReadWorker} (h : worker.stream.releasing = none)
    (action : LfrfidRawAction) : worker.Calm action := by
  rcases action with ⟨level, duration⟩ | _
  · intro _ i _
    rw [h]
    exact (Option.some_ne_none i).symm
  · trivial

theorem capture_twoBytes {worker : LfrfidRawReadWorker} (h : worker.pair.Pending none)
    {stream : BufferStreamRun} (hstep : worker.stream.step (.send [64, 120]) = .ok stream) :
    ∃ first pair, worker.step (.capture true 64) = .ok { worker with pair := first } ∧
      step { worker with pair := first } (.capture false 120) =
        .ok { worker with pair := pair, stream := stream } ∧ pair.Pending none := by
  obtain ⟨-, hwaits⟩ := h.pack true 64
  obtain ⟨hfirst, hpending⟩ := hwaits rfl
  obtain ⟨hcomplete, -⟩ := hpending.pack false 120
  obtain ⟨hsend, hdata, hpending'⟩ := hcomplete (64, 120) rfl
  rw [packedPair_twoBytes] at hdata
  refine ⟨(worker.pair.pack true 64).2, (((worker.pair.pack true 64).2).pack false 120).2.reset,
    ?_, ?_, hpending'⟩
  · simp [step, capture, hfirst]
  · simp [step, capture, hsend, streamStep, hdata, hstep, bind, Except.bind, pure, Except.pure]

theorem Filling.send {worker : LfrfidRawReadWorker} {n : ℕ} {file : File}
    (h : worker.Filling n file) (hn : n < 1024) :
    ∃ stream, worker.stream.step (.send [64, 120]) = .ok stream ∧
      ∀ pair : VarintPair, pair.Pending none →
        Filling { worker with pair := pair, stream := stream } (n + 1) file := by
  obtain ⟨data, hlength, hbuffers⟩ := h.buffers
  have hbuffer : worker.stream.bufferStream.buffers 0 = ⟨false, 2 * n, data⟩ := by
    rw [hbuffers, Function.update_self]
  have hfits : 2 * n + [64, 120].length ≤ data.length := by
    rw [hlength, rfidDataBufferSize, List.length_cons, List.length_singleton]
    omega
  have hwrite := @BufferStreamRun.write_fits ⟨false, 2 * n, data⟩ [64, 120] rfl hfits
  refine ⟨{ worker.stream with
    bufferStream := worker.stream.bufferStream.setBuffer 0
      ⟨false, 2 * (n + 1), overwrite data (2 * n) [64, 120]⟩
    accepted := worker.stream.accepted ++ [[64, 120]] }, ?_, fun pair hpair => ⟨hpair, h.overrun,
      h.stream, h.index, h.count, ⟨overwrite data (2 * n) [64, 120], ?_, ?_⟩, h.releasing, h.phase,
      h.file⟩⟩
  · simp only [BufferStreamRun.step, BufferStream.sendFromIsr, h.index, hbuffer, hwrite, if_true,
      bind, Except.bind, pure, Except.pure]
    rfl
  · rw [length_overwrite (by omega)]
    simp only [List.length_cons, List.length_nil] at hfits ⊢
    omega
  · change Function.update worker.stream.bufferStream.buffers 0 _ = _
    rw [hbuffers, Function.update_idem]

/-- The pair that does not fit goes to the next buffer, and the first one to the file. -/
theorem Filling.switch {worker : LfrfidRawReadWorker} {file : File}
    (h : worker.Filling 1024 file) : ∃ stream, worker.stream.step (.send [64, 120]) = .ok stream ∧
      stream.releasing = none ∧ ∀ pair : VarintPair, ∃ middle last,
        work { worker with pair := pair, stream := stream } = .ok middle ∧
          middle.stream.releasing = none ∧ middle.work = .ok last ∧ last.overrunCount = 0 ∧
          ∃ bytes : List UInt8, bytes.length = rfidDataBufferSize ∧
            last.file = (LfrfidRawFile.writeBuffer file bytes).2 := by
  obtain ⟨data, hlength, hbuffers⟩ := h.buffers
  have hbuffer : worker.stream.bufferStream.buffers 0 = ⟨false, 2 * 1024, data⟩ := by
    rw [hbuffers, Function.update_self]
  have hwrite := @BufferStreamRun.write_fails ⟨false, 2 * 1024, data⟩ [64, 120]
    (.inr (by rw [hlength, rfidDataBufferSize]; simp))
  obtain ⟨closed, hclosed⟩ : ∃ closed, closed = Function.update worker.stream.bufferStream.buffers 0
    ⟨true, 2 * 1024, data⟩ := ⟨_, rfl⟩
  have hpush : (worker.stream.bufferStream.occupy 0).push 0 =
      ⟨worker.stream.bufferStream.streamOverrunCount, [0], 0,
        worker.stream.bufferStream.maxBuffersCount, closed⟩ := by
    have hoccupy : worker.stream.bufferStream.occupy 0 =
        { worker.stream.bufferStream with buffers := closed } := by
      rw [hclosed, BufferStream.occupy, hbuffer]
      rfl
    rw [hoccupy, BufferStream.push]
    simp [h.stream, h.count, h.index, readDataBufferCount]
  have hfree : (BufferStream.mk worker.stream.bufferStream.streamOverrunCount [0] 0
      worker.stream.bufferStream.maxBuffersCount closed).firstFree = some 1 := by
    simp [BufferStream.firstFree, h.count, readDataBufferCount, List.range_succ, hclosed, hbuffers,
      Buffer.alloc]
  have hget := BufferStreamRun.getFreeBuffer_some hfree (by decide)
  have hone : ((1 : ℕ) : ℤ) ≠ -1 ∧ ¬((1 : ℕ) : ℤ) < 0 := by decide
  refine ⟨{ worker.stream with
    bufferStream := { worker.stream.bufferStream with
      stream := [0], index := 1,
      buffers := Function.update closed 1 ((closed 1).write [64, 120]).2 }
    accepted := worker.stream.accepted ++ [[64, 120]] }, ?_, h.releasing, fun pair =>
      ⟨⟨pair, ⟨{ worker.stream.bufferStream with
        stream := [], index := 1,
        buffers := Function.update closed 1 ((closed 1).write [64, 120]).2 },
        worker.stream.held ++ [0], worker.stream.releasing, worker.stream.delivered ++ [data.take 2048],
        worker.stream.accepted ++ [[64, 120]]⟩, worker.file, .writing 0⟩,
      ⟨pair, ⟨{ worker.stream.bufferStream with
        stream := [], index := 1,
        buffers := Function.update closed 1 ((closed 1).write [64, 120]).2 },
        worker.stream.held ++ [0], worker.stream.releasing, worker.stream.delivered ++ [data.take 2048],
        worker.stream.accepted ++ [[64, 120]]⟩, (LfrfidRawFile.writeBuffer worker.file
          (data.take 2048)).2, .releasing 0⟩, ?_, h.releasing, ?_, h.overrun, data.take 2048, ?_, ?_⟩⟩
  · simp only [BufferStreamRun.step, BufferStream.sendFromIsr, h.index, hbuffer, hwrite, hpush, hget,
      bind, Except.bind, pure, Except.pure, Bool.false_eq_true, if_false, hone, Int.toNat_natCast]
    rfl
  · simp [work, h.phase, streamStep, BufferStreamRun.step, BufferStream.receive, bind, Except.bind,
      pure, Except.pure, hclosed, Buffer.contents]
  · simp [work, hclosed, Buffer.contents, LfrfidRawFile.writeBuffer, FileStream.write,
      storageFileWrite, uint32Bytes]
  · simp [hlength, rfidDataBufferSize]
  · rw [h.file]

theorem exec_oneBuffer : ∀ (k : ℕ) {n : ℕ} {worker : LfrfidRawReadWorker} {file : File},
    n + k = 1024 → worker.Filling n file → ∃ last, exec step worker (oneBuffer (k + 1)) = .ok last ∧
      ExecAlong Calm step worker (oneBuffer (k + 1)) ∧ last.overrunCount = 0 ∧
      ∃ bytes : List UInt8, bytes.length = rfidDataBufferSize ∧
        last.file = (LfrfidRawFile.writeBuffer file bytes).2
  | 0, n, worker, file, hn, h => by
    rcases (show n = 1024 by omega) with rfl
    obtain ⟨stream, hsend, hreleasing, hrest⟩ := h.switch
    obtain ⟨first, pair, hpulse, hperiod, -⟩ := capture_twoBytes h.pending hsend
    obtain ⟨middle, last, hreceive, hmiddle, hwrite, hoverrun, hfile⟩ := hrest pair
    have hreceive' : step { worker with pair := pair, stream := stream } .work = .ok middle := hreceive
    have hwrite' : step middle .work = .ok last := hwrite
    refine ⟨last, ?_, ?_, hoverrun, hfile⟩
    · simp [exec, oneBuffer, hpulse, hperiod, hreceive', hwrite', bind, Except.bind, pure, Except.pure]
    · refine ⟨calm_of_idle h.releasing _, fun next hnext => ?_⟩
      rcases Except.ok.inj (hpulse.symm.trans hnext) with rfl
      have hidle : ({ worker with pair := first } : LfrfidRawReadWorker).stream.releasing = none :=
        h.releasing
      refine ⟨calm_of_idle hidle _, fun next hnext => ?_⟩
      rcases Except.ok.inj (hperiod.symm.trans hnext) with rfl
      have hidle : ({ worker with pair := pair, stream := stream } :
          LfrfidRawReadWorker).stream.releasing = none := hreleasing
      refine ⟨calm_of_idle hidle _, fun next hnext => ?_⟩
      rcases Except.ok.inj (hreceive'.symm.trans hnext) with rfl
      exact ⟨calm_of_idle hmiddle _, fun _ _ => trivial⟩
  | k + 1, n, worker, file, hn, h => by
    obtain ⟨stream, hsend, hfilling⟩ := h.send (by omega)
    obtain ⟨first, pair, hpulse, hperiod, hpending⟩ := capture_twoBytes h.pending hsend
    obtain ⟨last, hlast, hcalm, hoverrun, hfile⟩ := exec_oneBuffer k (by omega)
      (hfilling pair hpending)
    refine ⟨last, ?_, ?_, hoverrun, hfile⟩
    · rw [oneBuffer, exec, List.foldlM_cons, hpulse]
      change exec step _ (_ :: oneBuffer (k + 1)) = _
      rw [exec, List.foldlM_cons, hperiod]
      exact hlast
    · refine ⟨calm_of_idle h.releasing _, fun next hnext => ?_⟩
      rcases Except.ok.inj (hpulse.symm.trans hnext) with rfl
      have hidle : ({ worker with pair := first } : LfrfidRawReadWorker).stream.releasing = none :=
        h.releasing
      refine ⟨calm_of_idle hidle _, fun next hnext => ?_⟩
      rcases Except.ok.inj (hperiod.symm.trans hnext) with rfl
      exact hcalm

theorem filling_start (frequency dutyCycle : UInt32) :
    (start frequency dutyCycle).Filling 0 (start frequency dutyCycle).file where
  pending := (kept_start frequency dutyCycle).pending
  overrun := by
    rw [overrunCount, start_stream]
    rfl
  stream := by
    rw [start_stream]
    rfl
  index := by
    rw [start_stream]
    rfl
  count := (kept_start frequency dutyCycle).count
  buffers := by
    refine ⟨List.replicate rfidDataBufferSize 0, List.length_replicate, ?_⟩
    rw [start_stream]
    exact (Function.update_eq_self (0 : ℕ) fun _ => Buffer.alloc rfidDataBufferSize).symm
  releasing := by
    rw [start_stream]
    rfl
  phase := rfl
  file := rfl

theorem oneBuffer_written (frequency dutyCycle : UInt32) : ∃ worker,
    exec step (start frequency dutyCycle) (oneBuffer 1025) = .ok worker ∧
      ExecAlong Calm step (start frequency dutyCycle) (oneBuffer 1025) ∧ worker.overrunCount = 0 ∧
      worker.file.data.length = LfrfidRawFileHeader.size + (4 + rfidDataBufferSize) := by
  obtain ⟨worker, hexec, hcalm, hoverrun, bytes, hbytes, hfile⟩ := exec_oneBuffer 1024 (by decide)
    (filling_start frequency dutyCycle)
  refine ⟨worker, hexec, hcalm, hoverrun, ?_⟩
  obtain ⟨next, hwrite, hdata, -⟩ := written_write (start_file frequency dutyCycle) bytes
  have hheader : (lfrfidRawHeader frequency dutyCycle).bytes.length = LfrfidRawFileHeader.size := rfl
  rw [hfile, hwrite, hdata, List.length_append, hheader]
  simp [lfrfidRawRecord, uint32Bytes, hbytes]
  omega

/-- The recording of a little more than one buffer. -/
theorem recording_replays_oneBuffer : ∃ worker,
    exec step (start 0 0) (oneBuffer 1025) = .ok worker ∧
    (∃ pairs, FileExact (lfrfidRawHeader 0 0) worker.file pairs ∧
      pairs <+: capturedPairs none (oneBuffer 1025)) ∧
    (FileExact (lfrfidRawHeader 0 0) worker.file (capturedPairs none (oneBuffer 1025)) ↔
      capturedPairs none (oneBuffer 1025) = []) ∧
    ∀ events, FileReplays (lfrfidRawHeader 0 0) worker.file events ↔
      (worker.file.data.length ≠ LfrfidRawFileHeader.size → .transferComplete ∉ events) := by
  obtain ⟨worker, hexec, hcalm, hoverrun, hlength⟩ := oneBuffer_written 0 0
  exact ⟨worker, hexec, recording_replays_iff 0 0 (oneBuffer 1025) worker hcalm hexec hoverrun
    (by rw [hlength]; decide)⟩

/-- The second half of the buffer is refilled and not scaled. -/
theorem not_recording_replays_complete : ¬∀ (frequency dutyCycle : UInt32)
    (actions : List LfrfidRawAction) (worker : LfrfidRawReadWorker)
    (events : List LfrfidRawEmulateDMAEvent),
    exec step (start frequency dutyCycle) actions = .ok worker → worker.overrunCount = 0 →
      FileReplays (lfrfidRawHeader frequency dutyCycle) worker.file events ∧
      FileExact (lfrfidRawHeader frequency dutyCycle) worker.file (capturedPairs none actions) := by
  intro h
  obtain ⟨worker, hexec, hcalm, hoverrun, hlength⟩ := oneBuffer_written 0 0
  obtain ⟨groups, rest, hrecorded, -⟩ := recorded_of_calm hcalm hexec hoverrun
  have hne := hrecorded.flatten_ne_nil (by rw [hlength]; decide)
  obtain ⟨hreplays, -⟩ := h 0 0 _ worker [.halfTransfer, .transferComplete] hexec hoverrun
  obtain ⟨data, hstart, -, -, heach⟩ := hreplays groups hrecorded hne
  obtain ⟨data', hstart', hnext, -⟩ := start_next hrecorded hne (by rw [hlength]; decide)
  rcases Except.ok.inj (hstart'.symm.trans hstart) with rfl
  exact (eachReplays_iff hne hnext _).1 heach (by simp)

end LfrfidRawReadWorker

end KiisuFirmware
