import KiisuFirmware.LfrfidRaw
import KiisuFirmware.Proofs.BufferStream
import KiisuFirmware.Proofs.Varint

/-!
# What a recording keeps

As long as there is no overrun the current buffer takes every pair, and the buffers that were
written to the file hold the pairs that were captured first. The last pair is always in a buffer
that is not full, and the thread does not write that one when it stops.
-/

namespace KiisuFirmware

namespace BufferStreamRun

/-! ## A stream of buffers without an overrun -/

/-- The current buffer takes chunks, and the last one went there. -/
structure Ready (run : BufferStreamRun) : Prop where
  free : (run.bufferStream.buffers run.bufferStream.index).occupied = false
  releasing : run.releasing ≠ some run.bufferStream.index
  filled : run.accepted ≠ [] → (run.bufferStream.buffers run.bufferStream.index).size ≠ 0

/-- A chunk changes nothing the consumer has. -/
structure Sent (run : BufferStreamRun) (data : List UInt8) (next : BufferStreamRun) : Prop where
  held : next.held = run.held
  releasing : next.releasing = run.releasing
  delivered : next.delivered = run.delivered
  count : next.bufferStream.maxBuffersCount = run.bufferStream.maxBuffersCount
  outcome : run.bufferStream.streamOverrunCount < next.bufferStream.streamOverrunCount ∨
    next.bufferStream.streamOverrunCount = run.bufferStream.streamOverrunCount ∧ next.Ready ∧
      next.accepted = run.accepted ++ [data]

variable {bufferSize : ℕ} {run : BufferStreamRun}

theorem push_fields (bufferStream : BufferStream) (i : ℕ) :
    (bufferStream.push i).streamOverrunCount = bufferStream.streamOverrunCount ∧
    (bufferStream.push i).maxBuffersCount = bufferStream.maxBuffersCount ∧
    (bufferStream.push i).buffers = bufferStream.buffers := by
  unfold BufferStream.push
  split_ifs <;> exact ⟨rfl, rfl, rfl⟩

/-- The chunk is in the current buffer, or in one that was free, or there is an overrun. -/
theorem sent_of_ready (h : Inv bufferSize run) (hready : run.Ready)
    (hcount : run.bufferStream.maxBuffersCount ≤ 128) {data : List UInt8}
    (hdata : data.length ≤ bufferSize) (hnonempty : data ≠ [])
    (hcalm : (run.bufferStream.buffers run.bufferStream.index).data.length <
        (run.bufferStream.buffers run.bufferStream.index).size + data.length →
      ∀ i, (run.bufferStream.occupy run.bufferStream.index).firstFree = some i →
        run.releasing ≠ some i) :
    ∃ next, run.step (.send data) = .ok next ∧ Inv bufferSize next ∧ Untouched run next ∧
      Sent run data next := by
  have hsound : Sound run (.send data) := by
    refine ⟨fun h => absurd h (by simp [hready.free]), hready.releasing, fun hfull i hi => ?_⟩
    have hlt := (firstFree_spec hi).1
    refine ⟨lt_of_lt_of_le hlt hcount, ?_⟩
    rcases hfull with hfull | hfull
    · exact absurd hfull (by simp [hready.free])
    · exact hcalm hfull i hi
  obtain ⟨next, hstep, hinv, huntouched⟩ := step_send h hdata hsound
  refine ⟨next, hstep, hinv, huntouched, ?_⟩
  have hlength := h.length_data run.bufferStream.index
  have hpos : data.length ≠ 0 := fun hzero => hnonempty (List.length_eq_zero_iff.1 hzero)
  by_cases hfits : (run.bufferStream.buffers run.bufferStream.index).size + data.length ≤ bufferSize
  · have hwrite := write_fits data hready.free (hfits.trans hlength.ge)
    simp only [step, BufferStream.sendFromIsr, hwrite, if_true, bind, Except.bind, pure,
      Except.pure, Except.ok.injEq] at hstep
    subst hstep
    refine ⟨rfl, rfl, rfl, rfl, .inr ⟨rfl, ⟨?_, hready.releasing, fun _ => ?_⟩, rfl⟩⟩
    · simp [BufferStream.setBuffer, hready.free]
    · simp [BufferStream.setBuffer, hpos]
  · have hfull : (run.bufferStream.buffers run.bufferStream.index).data.length <
        (run.bufferStream.buffers run.bufferStream.index).size + data.length := by omega
    have hwrite := write_fails data (.inr hfull)
    obtain ⟨hoverrun, hmax, hbuffers⟩ := push_fields
      (run.bufferStream.occupy run.bufferStream.index) run.bufferStream.index
    have hfirst : ((run.bufferStream.occupy run.bufferStream.index).push
        run.bufferStream.index).firstFree =
        (run.bufferStream.occupy run.bufferStream.index).firstFree := by
      rw [BufferStream.firstFree, hmax, hbuffers, BufferStream.firstFree]
    rcases hfree : (run.bufferStream.occupy run.bufferStream.index).firstFree with _ | i
    · have hnone : ((run.bufferStream.occupy run.bufferStream.index).push
          run.bufferStream.index).getFreeBuffer = -1 := by
        rw [BufferStream.getFreeBuffer, hfirst, hfree]
      simp only [step, BufferStream.sendFromIsr, hwrite, Bool.false_eq_true, if_false, hnone, if_true,
        bind, Except.bind, pure, Except.pure, Except.ok.injEq] at hstep
      subst hstep
      refine ⟨rfl, rfl, rfl, hmax, .inl ?_⟩
      dsimp only
      rw [hoverrun]
      exact Nat.lt_succ_self _
    · obtain ⟨hi, hidle⟩ := firstFree_spec hfree
      have hreleasing := hcalm hfull i hfree
      have hne : i ≠ run.bufferStream.index := by
        rintro rfl
        simp [BufferStream.occupy, BufferStream.setBuffer] at hidle
      have hsame : (run.bufferStream.occupy run.bufferStream.index).buffers i =
          run.bufferStream.buffers i := Function.update_of_ne hne _ _
      rw [hsame] at hidle
      have hfresh := h.fresh i hi hidle hne hreleasing
      have hget : ((run.bufferStream.occupy run.bufferStream.index).push
          run.bufferStream.index).getFreeBuffer = i :=
        getFreeBuffer_some (hfirst.trans hfree) (lt_of_lt_of_le hi hcount)
      have hwrite' := write_fits data hidle
        (by rw [hfresh, h.length_data i, Nat.zero_add]; exact hdata)
      have hnot : ¬((i : ℤ) = -1) := by omega
      have hnonneg : ¬((i : ℤ) < 0) := by omega
      simp only [step, BufferStream.sendFromIsr, hwrite, Bool.false_eq_true, if_false, hget, hnot,
        hnonneg, Int.toNat_natCast, bind, Except.bind, pure, Except.pure, Except.ok.injEq, if_true,
        hbuffers, hsame, hwrite'] at hstep
      subst hstep
      refine ⟨rfl, rfl, rfl, hmax, .inr ⟨hoverrun, ⟨?_, hreleasing, fun _ => ?_⟩, rfl⟩⟩
      · simp [BufferStream.setBuffer, hidle]
      · simp [BufferStream.setBuffer, hpos]

theorem receive_ready (hready : run.Ready) : ∃ next, run.step .receive = .ok next ∧ next.Ready ∧
    next.bufferStream.streamOverrunCount = run.bufferStream.streamOverrunCount ∧
    next.bufferStream.maxBuffersCount = run.bufferStream.maxBuffersCount ∧
    next.accepted = run.accepted ∧ next.releasing = run.releasing ∧
    ((run.bufferStream.receive.1 = none ∧ next.held = run.held ∧
        next.delivered = run.delivered) ∨
      ∃ i, run.bufferStream.receive.1 = some i ∧ i ∈ run.bufferStream.stream ∧
        next.held = run.held ++ [i] ∧ next.delivered = run.delivered ++ [run.contents i] ∧
        next.contents i = run.contents i) := by
  rcases hstream : run.bufferStream.stream with _ | ⟨i, stream⟩
  · refine ⟨run, ?_, hready, rfl, rfl, rfl, rfl, .inl ⟨?_, rfl, rfl⟩⟩
    · simp [step, BufferStream.receive, hstream]
    · simp [BufferStream.receive, hstream]
  · refine ⟨{ run with
      bufferStream := { run.bufferStream with stream := stream }
      held := run.held ++ [i]
      delivered := run.delivered ++ [run.contents i] }, ?_, ?_, rfl, rfl, rfl, rfl,
      .inr ⟨i, ?_, List.mem_cons_self, rfl, rfl, rfl⟩⟩
    · simp [step, BufferStream.receive, hstream, contents]
    · exact ⟨hready.free, hready.releasing, hready.filled⟩
    · simp [BufferStream.receive, hstream]

theorem release_ready (h : Inv bufferSize run) (hready : run.Ready) {i : ℕ} (hi : i ∈ run.held) :
    ∃ next, run.step (.release i) = .ok next ∧ next.Ready ∧
      next.bufferStream.streamOverrunCount = run.bufferStream.streamOverrunCount ∧
      next.bufferStream.maxBuffersCount = run.bufferStream.maxBuffersCount ∧
      next.accepted = run.accepted ∧ next.releasing = some i ∧ next.held = run.held.erase i ∧
      next.delivered = run.delivered := by
  have hne : run.bufferStream.index ≠ i := by
    rintro rfl
    exact index_not_mem h hready.free (List.mem_append_right _ hi)
  refine ⟨_, rfl, ⟨?_, fun heq => hne (Option.some.inj heq).symm, ?_⟩, rfl, rfl, rfl, rfl, rfl, rfl⟩
  · simpa [BufferStream.setBuffer, Function.update_of_ne hne] using hready.free
  · simpa [BufferStream.setBuffer, Function.update_of_ne hne] using hready.filled

theorem clear_ready (hready : run.Ready) (hreleasing : run.releasing ≠ none) :
    ∃ next, run.step .clear = .ok next ∧ next.Ready ∧
      next.bufferStream.streamOverrunCount = run.bufferStream.streamOverrunCount ∧
      next.bufferStream.maxBuffersCount = run.bufferStream.maxBuffersCount ∧
      next.accepted = run.accepted ∧ next.releasing = none ∧ next.held = run.held ∧
      next.delivered = run.delivered := by
  obtain ⟨i, hi⟩ := Option.ne_none_iff_exists'.1 hreleasing
  have hne : run.bufferStream.index ≠ i := fun heq => hready.releasing (by rw [hi, heq])
  refine ⟨{ run with
    bufferStream := run.bufferStream.setBuffer i { run.bufferStream.buffers i with size := 0 }
    releasing := none }, by rw [step, hi], ⟨?_, nofun, ?_⟩, rfl, rfl, rfl, rfl, rfl, rfl⟩
  · simpa [BufferStream.setBuffer, Function.update_of_ne hne] using hready.free
  · simpa [BufferStream.setBuffer, Function.update_of_ne hne] using hready.filled

theorem overrun_mono {next : BufferStreamRun} {action : BufferStreamAction}
    (h : run.step action = .ok next) :
    run.bufferStream.streamOverrunCount ≤ next.bufferStream.streamOverrunCount := by
  rcases action with data | - | i | -
  · obtain ⟨hoverrun, -, -⟩ := push_fields
      (run.bufferStream.occupy run.bufferStream.index) run.bufferStream.index
    obtain ⟨⟨result, bufferStream⟩, hsend, hnext⟩ := bind_eq_ok h
    rcases hnext
    simp only [BufferStream.sendFromIsr] at hsend
    split_ifs at hsend
    · rcases hsend
      exact le_rfl
    · rcases hsend
      exact (Nat.le_succ _).trans_eq (congrArg Nat.succ hoverrun.symm)
    · rcases hsend
      exact hoverrun.ge
  · rcases hstream : run.bufferStream.stream with _ | ⟨i, stream⟩
    · simp only [step, BufferStream.receive, hstream, Except.ok.injEq] at h
      rw [h]
    · simp only [step, BufferStream.receive, hstream, Except.ok.injEq] at h
      rw [← h]
  · rcases h
    exact le_rfl
  · simp only [step] at h
    rcases hreleasing : run.releasing with _ | i
    · rw [hreleasing] at h
      rcases h
      exact le_rfl
    · rw [hreleasing] at h
      rcases h
      exact le_rfl

end BufferStreamRun

/-! ## Pairs -/

/-- A pulse waits for its period, and a second pulse drops both. -/
def capturedStep (pending : Option UInt32) (level : Bool) (duration : UInt32) :
    Option (UInt32 × UInt32) × Option UInt32 :=
  match pending, level with
  | none, true => (none, some duration)
  | none, false => (none, none)
  | some _, true => (none, none)
  | some pulse, false => (some (pulse, duration), none)

/-- The pairs of a pulse and a period that are captured, after a pulse that waits. -/
def capturedPairs : Option UInt32 → List LfrfidRawAction → List (UInt32 × UInt32)
  | _, [] => []
  | pending, .capture level duration :: actions =>
    (capturedStep pending level duration).1.toList ++
      capturedPairs (capturedStep pending level duration).2 actions
  | pending, .work :: actions => capturedPairs pending actions

namespace VarintPair

/-- The pulse that waits is packed. -/
structure Pending (pair : VarintPair) (pending : Option UInt32) : Prop where
  length : pair.data.length = varintPairSize
  none : pending = none → pair.dataLength = 0
  some : ∀ pulse, pending = some pulse → pair.dataLength = (varintUint32Pack pulse).length ∧
    pair.getData = varintUint32Pack pulse

theorem Pending.pack {pair : VarintPair} {pending : Option UInt32} (h : pair.Pending pending)
    (level : Bool) (duration : UInt32) :
    (∀ captured, (capturedStep pending level duration).1 = Option.some captured →
      (pair.pack level duration).1 = true ∧
        (pair.pack level duration).2.getData = packedPair captured ∧
        (pair.pack level duration).2.reset.Pending (capturedStep pending level duration).2) ∧
    ((capturedStep pending level duration).1 = Option.none →
      (pair.pack level duration).1 = false ∧
        (pair.pack level duration).2.Pending (capturedStep pending level duration).2) := by
  have hduration := length_varintUint32Pack duration
  have hpos := varintUint32Pack_pos duration
  rcases pending with _ | pulse
  · have hlength := h.none rfl
    rcases level with _ | _
    · refine ⟨fun _ hsome => absurd hsome (by simp [capturedStep]), fun _ => ?_⟩
      simpa [VarintPair.pack, hlength, capturedStep] using h
    · refine ⟨fun _ hsome => absurd hsome (by simp [capturedStep]), fun _ => ?_⟩
      have hpack : pair.pack true duration = (false, ⟨(varintUint32Pack duration).length,
          overwrite pair.data 0 (varintUint32Pack duration)⟩) := by
        simp [VarintPair.pack, hlength]
      rw [hpack]
      refine ⟨rfl, ?_, by simp [capturedStep], fun pulse hpulse => ?_⟩
      · rw [length_overwrite (Nat.zero_le _), h.length, Nat.zero_add]
        exact Nat.max_eq_left (hduration.trans (by decide))
      · rcases Option.some.inj hpulse with rfl
        refine ⟨rfl, ?_⟩
        have htake := take_overwrite_length (c := pair.data) (Nat.zero_le _)
          (varintUint32Pack duration)
        rwa [Nat.zero_add, List.take_zero, List.nil_append] at htake
  · obtain ⟨hlength, hdata⟩ := h.some pulse rfl
    have hpulse := length_varintUint32Pack pulse
    have hpulsePos := varintUint32Pack_pos pulse
    have hne : pair.dataLength ≠ 0 := by omega
    rcases level with _ | _
    · refine ⟨fun captured hsome => ?_, fun hnone => absurd hnone (by simp [capturedStep])⟩
      have hpack : pair.pack false duration =
          (true, ⟨pair.dataLength + (varintUint32Pack duration).length,
            overwrite pair.data pair.dataLength (varintUint32Pack duration)⟩) := by
        simp [VarintPair.pack, hne]
      have hle : pair.dataLength ≤ pair.data.length := by
        rw [h.length, hlength]
        exact hpulse.trans (by decide)
      rcases Option.some.inj hsome with rfl
      rw [hpack]
      refine ⟨rfl, ?_, ?_, fun _ => rfl, by simp [capturedStep]⟩
      · have htake := take_overwrite_length hle (varintUint32Pack duration)
        rw [getData, htake, packedPair]
        congr 1
      · change (overwrite _ _ _).length = _
        rw [length_overwrite hle, h.length, hlength]
        exact Nat.max_eq_left (by rw [varintPairSize]; omega)
    · refine ⟨fun _ hsome => absurd hsome (by simp [capturedStep]), fun _ => ?_⟩
      have hpack : pair.pack true duration = (false, { pair with dataLength := 0 }) := by
        simp [VarintPair.pack, hne]
      rw [hpack]
      exact ⟨rfl, h.length, fun _ => rfl, by simp [capturedStep]⟩

/-- The bytes of the pairs that become complete, after each of which there is a reset. -/
def packAll : VarintPair → List (Bool × UInt32) → List UInt8
  | _, [] => []
  | pair, (first, value) :: calls =>
    let (complete, pair) := pair.pack first value
    if complete then pair.getData ++ pair.reset.packAll calls else pair.packAll calls

/-- Pairs are unpacked until there is none, at most so many. -/
def unpackAll : ℕ → List UInt8 → List (UInt32 × UInt32)
  | 0, _ => []
  | turns + 1, data =>
    match varintPairUnpack data with
    | none => []
    | some (value1, value2, size) => (value1, value2) :: unpackAll turns (data.drop size)

/-- The pairs of some calls: a first value, and the second one right behind it. -/
def packedPairs (pending : Option UInt32) (calls : List (Bool × UInt32)) : List (UInt32 × UInt32) :=
  capturedPairs pending (calls.map fun call => .capture call.1 call.2)

theorem Pending.packAll : ∀ (calls : List (Bool × UInt32)) {pair : VarintPair}
    {pending : Option UInt32}, pair.Pending pending →
      pair.packAll calls = (packedPairs pending calls).flatMap packedPair
  | [], _, _, _ => rfl
  | (first, value) :: calls, pair, pending, h => by
    obtain ⟨hcomplete, hwaits⟩ := h.pack first value
    simp only [VarintPair.packAll, packedPairs, List.map_cons, capturedPairs, List.flatMap_append]
    cases hstep : (capturedStep pending first value).1 with
    | none =>
      obtain ⟨hresult, hpending⟩ := hwaits hstep
      rw [hresult]
      exact Pending.packAll calls hpending
    | some captured =>
      obtain ⟨hresult, hdata, hpending⟩ := hcomplete captured hstep
      rw [hresult, if_pos rfl, hdata, Pending.packAll calls hpending]
      simp [packedPairs]

theorem unpackAll_packed : ∀ (pairs : List (UInt32 × UInt32)) {turns : ℕ},
    pairs.length ≤ turns → unpackAll turns (pairs.flatMap packedPair) = pairs
  | [], 0, _ => rfl
  | [], turns + 1, _ => by simp [unpackAll, varintPairUnpack, varintUint32Unpack,
      varintUint32UnpackLoop]
  | pair :: pairs, turns + 1, hturns => by
    rw [List.flatMap_cons, unpackAll, varintPairUnpack_packed]
    dsimp only
    rw [List.drop_left, unpackAll_packed pairs (Nat.le_of_succ_le_succ hturns)]

theorem length_packedPairs_le : ∀ (calls : List (Bool × UInt32)) (pending : Option UInt32),
    (packedPairs pending calls).length ≤ calls.length
  | [], _ => le_rfl
  | (first, value) :: calls, pending => by
    have hrest := length_packedPairs_le calls (capturedStep pending first value).2
    have hfirst : (capturedStep pending first value).1.toList.length ≤ 1 := by
      cases (capturedStep pending first value).1 <;> simp
    rw [packedPairs] at hrest ⊢
    rw [List.map_cons, capturedPairs, List.length_append, List.length_cons]
    dsimp only
    omega

/-- In whatever order first and second values come, the pairs that are complete are unpacked again. -/
theorem unpackAll_packAll (calls : List (Bool × UInt32)) :
    unpackAll calls.length (alloc.packAll calls) = packedPairs none calls := by
  have hpending : alloc.Pending Option.none := ⟨by simp [alloc], fun _ => rfl, by simp⟩
  rw [hpending.packAll calls]
  exact unpackAll_packed _ (length_packedPairs_le calls _)

end VarintPair

/-- A buffer in the file: its size, and what is in it. -/
def lfrfidRawRecord (bytes : List UInt8) : List UInt8 :=
  uint32Bytes (UInt32.ofNat bytes.length) ++ bytes

/-- The header that capture writes. -/
def lfrfidRawHeader (frequency dutyCycle : UInt32) : LfrfidRawFileHeader :=
  ⟨lfrfidRawFileMagic, lfrfidRawFileVersion, frequency, dutyCycle, UInt32.ofNat rfidDataBufferSize⟩

namespace LfrfidRawReadWorker

/-! ## The thread and the interrupt -/

/-- How often there was no buffer. -/
def overrunCount (worker : LfrfidRawReadWorker) : ℕ :=
  worker.stream.bufferStream.streamOverrunCount

/-- A capture that needs another buffer does not come between the two halves of `buffer_reset` while
the buffer that is reset would be the one. -/
def Calm (worker : LfrfidRawReadWorker) : LfrfidRawAction → Prop
  | .capture level duration =>
    let bufferStream := worker.stream.bufferStream
    let buffer := bufferStream.buffers bufferStream.index
    let data := (worker.pair.pack level duration).2.getData
    buffer.data.length < buffer.size + data.length →
      ∀ i, (bufferStream.occupy bufferStream.index).firstFree = some i →
        worker.stream.releasing ≠ some i
  | .work => True

/-- The file has the buffers, and its pointer is at its end. -/
def Written (header : LfrfidRawFileHeader) (file : File) (buffers : List (List UInt8)) : Prop :=
  file.data = header.bytes ++ buffers.flatMap lfrfidRawRecord ∧ file.pos = file.data.length

/-- What the thread has, depending on where it is. -/
def Phased (header : LfrfidRawFileHeader) (worker : LfrfidRawReadWorker) : Prop :=
  match worker.phase with
  | .receiving => worker.stream.held = [] ∧ worker.stream.releasing = none ∧
    Written header worker.file worker.stream.delivered
  | .writing i => worker.stream.held = [i] ∧ worker.stream.releasing = none ∧
    ∃ before, worker.stream.delivered = before ++ [worker.stream.contents i] ∧
      Written header worker.file before
  | .releasing i => worker.stream.held = [i] ∧ worker.stream.releasing = none ∧
    Written header worker.file worker.stream.delivered
  | .clearing => worker.stream.held = [] ∧ worker.stream.releasing ≠ none ∧
    Written header worker.file worker.stream.delivered
  | .fileError => False

/-- What holds as long as there is no overrun. -/
structure Kept (header : LfrfidRawFileHeader) (pending : Option UInt32)
    (pairs : List (UInt32 × UInt32)) (worker : LfrfidRawReadWorker) : Prop where
  inv : BufferStreamRun.Inv rfidDataBufferSize worker.stream
  ready : worker.stream.Ready
  count : worker.stream.bufferStream.maxBuffersCount = readDataBufferCount
  accepted : worker.stream.accepted = pairs.map packedPair
  pending : worker.pair.Pending pending
  lengths : ∀ bytes ∈ worker.stream.delivered, bytes.length ≤ rfidDataBufferSize
  phased : worker.Phased header

variable {header : LfrfidRawFileHeader} {pending : Option UInt32} {pairs : List (UInt32 × UInt32)}
  {worker : LfrfidRawReadWorker}

theorem written_write {file : File} {buffers : List (List UInt8)} (h : Written header file buffers)
    (bytes : List UInt8) : ∃ next, LfrfidRawFile.writeBuffer file bytes = (true, next) ∧
      Written header next (buffers ++ [bytes]) := by
  obtain ⟨hdata, hpos⟩ := h
  refine ⟨(file.write (uint32Bytes (UInt32.ofNat bytes.length))).write bytes, ?_, ?_⟩
  · simp [LfrfidRawFile.writeBuffer, FileStream.write, storageFileWrite, uint32Bytes]
  · rw [Cursor.write_write]
    refine ⟨?_, ?_⟩
    · rw [Cursor.write_at_end hpos, hdata, List.flatMap_append, List.append_assoc]
      simp [lfrfidRawRecord]
    · rw [Cursor.write_at_end hpos, Cursor.write_pos, hpos]
      simp only [List.length_append]

theorem Phased.of_sent (h : worker.Phased header) {pair : VarintPair} {data : List UInt8}
    {stream : BufferStreamRun} (hsent : BufferStreamRun.Sent worker.stream data stream)
    (huntouched : BufferStreamRun.Untouched worker.stream stream) :
    Phased header { worker with stream := stream, pair := pair } := by
  obtain ⟨oldPair, oldStream, file, phase⟩ := worker
  rcases phase with _ | i | i | _ | _
  · obtain ⟨hheld, hreleasing, hwritten⟩ := h
    exact ⟨hsent.held.trans hheld, hsent.releasing.trans hreleasing,
      by rw [hsent.delivered]; exact hwritten⟩
  · obtain ⟨hheld, hreleasing, before, hdelivered, hwritten⟩ := h
    have hmem : i ∈ oldStream.held := by
      rw [show oldStream.held = [i] from hheld]
      simp
    have hcontents : stream.contents i = oldStream.contents i := huntouched i (.inr hmem)
    exact ⟨hsent.held.trans hheld, hsent.releasing.trans hreleasing, before,
      by rw [hsent.delivered, hcontents]; exact hdelivered, hwritten⟩
  · obtain ⟨hheld, hreleasing, hwritten⟩ := h
    exact ⟨hsent.held.trans hheld, hsent.releasing.trans hreleasing,
      by rw [hsent.delivered]; exact hwritten⟩
  · obtain ⟨hheld, hreleasing, hwritten⟩ := h
    exact ⟨hsent.held.trans hheld, fun hnone => hreleasing (hsent.releasing.symm.trans hnone),
      by rw [hsent.delivered]; exact hwritten⟩
  · exact h.elim

theorem capture_kept (h : Kept header pending pairs worker) (level : Bool) (duration : UInt32)
    (hcalm : worker.Calm (.capture level duration)) :
    ∃ next, worker.capture level duration = .ok next ∧
      (worker.overrunCount < next.overrunCount ∨
        Kept header (capturedStep pending level duration).2
          (pairs ++ (capturedStep pending level duration).1.toList) next) := by
  obtain ⟨hcomplete, hwaits⟩ := h.pending.pack level duration
  rcases hcaptured : (capturedStep pending level duration).1 with _ | captured
  · obtain ⟨hsend, hpending⟩ := hwaits hcaptured
    refine ⟨{ worker with pair := (worker.pair.pack level duration).2 }, ?_, .inr ?_⟩
    · simp [capture, hsend]
    · exact ⟨h.inv, h.ready, h.count, by simpa using h.accepted, hpending, h.lengths, h.phased⟩
  · obtain ⟨hsend, hdata, hpending⟩ := hcomplete captured hcaptured
    obtain ⟨hpos, hlength⟩ := length_packedPair captured
    have hcalm' := hcalm
    rw [Calm, hdata] at hcalm'
    obtain ⟨stream, hstep, hinv, huntouched, hsent⟩ := BufferStreamRun.sent_of_ready h.inv h.ready
      (by rw [h.count]; decide) (hlength.trans (by decide))
      (List.ne_nil_of_length_pos hpos) hcalm'
    refine ⟨{ worker with stream := stream, pair := (worker.pair.pack level duration).2.reset }, ?_,
      ?_⟩
    · simp [capture, hsend, streamStep, hdata, hstep, bind, Except.bind, pure, Except.pure]
    · refine hsent.outcome.imp id fun hgone => ?_
      obtain ⟨-, hready, haccepted⟩ := hgone
      refine ⟨hinv, hready, hsent.count.trans h.count, ?_, hpending, ?_,
        h.phased.of_sent hsent huntouched⟩
      · rw [haccepted, h.accepted]
        simp
      · rw [hsent.delivered]
        exact h.lengths

theorem work_kept (h : Kept header pending pairs worker) :
    ∃ next, worker.work = .ok next ∧ Kept header pending pairs next := by
  obtain ⟨pair, stream, file, phase⟩ := worker
  have hphased := h.phased
  rcases phase with _ | i | i | _ | _
  · obtain ⟨hheld, hreleasing, hwritten⟩ := hphased
    obtain ⟨next, hstep, hready, -, hcount, haccepted, hreleasing', hreceived⟩ :=
      BufferStreamRun.receive_ready h.ready
    obtain ⟨next', hstep', hinv, -⟩ := BufferStreamRun.step_receive h.inv
    rcases Except.ok.inj (hstep.symm.trans hstep') with rfl
    have hstream : stream.step .receive = .ok next := hstep
    refine ⟨⟨pair, next, file, stream.bufferStream.receive.1.elim .receiving .writing⟩, ?_,
      hinv, hready, hcount.trans h.count, haccepted.trans h.accepted, h.pending, ?_, ?_⟩
    · simp [work, streamStep, hstream, bind, Except.bind, pure, Except.pure]
    · intro bytes hbytes
      rcases hreceived with ⟨-, -, hdelivered⟩ | ⟨i, -, -, -, hdelivered, -⟩
      · rw [hdelivered] at hbytes
        exact h.lengths bytes hbytes
      · rw [hdelivered, List.mem_append, List.mem_singleton] at hbytes
        rcases hbytes with hbytes | rfl
        · exact h.lengths bytes hbytes
        · rw [BufferStreamRun.contents_size h.inv i]
          exact h.inv.size_le i
    · rcases hreceived with ⟨hnone, hheld', hdelivered⟩ | ⟨i, hsome, -, hheld', hdelivered, hsame⟩
      · have hnone' : stream.bufferStream.receive.1 = none := hnone
        simp only [hnone', Option.elim_none]
        exact ⟨hheld'.trans hheld, hreleasing'.trans hreleasing, by rw [hdelivered]; exact hwritten⟩
      · have hsome' : stream.bufferStream.receive.1 = some i := hsome
        simp only [hsome', Option.elim_some]
        have hheld₀ : stream.held = [] := hheld
        refine ⟨?_, hreleasing'.trans hreleasing, stream.delivered, ?_, hwritten⟩
        · rw [hheld', hheld₀, List.nil_append]
        · rw [hdelivered, hsame]
  · obtain ⟨hheld, hreleasing, before, hdelivered, hwritten⟩ := hphased
    have hheld₀ : stream.held = [i] := hheld
    have hfull : (stream.bufferStream.buffers i).size ≠ 0 :=
      (h.inv.full i (by rw [hheld₀]; simp)).ne'
    obtain ⟨next, hwrite, hnext⟩ := written_write hwritten (stream.contents i)
    have hwrite' : LfrfidRawFile.writeBuffer file (stream.bufferStream.buffers i).contents =
        (true, next) := hwrite
    refine ⟨⟨pair, stream, next, .releasing i⟩, ?_, h.inv, h.ready, h.count, h.accepted, h.pending,
      h.lengths, hheld, hreleasing, ?_⟩
    · simp [work, hfull, hwrite']
    · have hdelivered₀ : stream.delivered = before ++ [stream.contents i] := hdelivered
      rw [hdelivered₀]
      exact hnext
  · obtain ⟨hheld, hreleasing, hwritten⟩ := hphased
    have hheld₀ : stream.held = [i] := hheld
    have hmem : i ∈ stream.held := by rw [hheld₀]; simp
    obtain ⟨next, hstep, hready, -, hcount, haccepted, hreleasing', hheld', hdelivered⟩ :=
      BufferStreamRun.release_ready h.inv h.ready hmem
    obtain ⟨next', hstep', hinv, -⟩ := BufferStreamRun.step_release h.inv hmem hreleasing
    rcases Except.ok.inj (hstep.symm.trans hstep') with rfl
    have hstream : stream.step (.release i) = .ok next := hstep
    refine ⟨⟨pair, next, file, .clearing⟩, ?_, hinv, hready, hcount.trans h.count,
      haccepted.trans h.accepted, h.pending, by rw [hdelivered]; exact h.lengths, ?_, ?_, ?_⟩
    · simp [work, streamStep, hstream, bind, Except.bind, pure, Except.pure]
    · change next.held = []
      rw [hheld', hheld₀, List.erase_cons_head]
    · change next.releasing ≠ none
      rw [hreleasing']
      simp
    · change Written header file next.delivered
      rw [hdelivered]
      exact hwritten
  · obtain ⟨hheld, hreleasing, hwritten⟩ := hphased
    obtain ⟨next, hstep, hready, -, hcount, haccepted, hreleasing', hheld', hdelivered⟩ :=
      BufferStreamRun.clear_ready h.ready hreleasing
    obtain ⟨next', hstep', hinv, -⟩ := BufferStreamRun.step_clear h.inv hreleasing
    rcases Except.ok.inj (hstep.symm.trans hstep') with rfl
    have hstream : stream.step .clear = .ok next := hstep
    refine ⟨⟨pair, next, file, .receiving⟩, ?_, hinv, hready, hcount.trans h.count,
      haccepted.trans h.accepted, h.pending, by rw [hdelivered]; exact h.lengths,
      hheld'.trans hheld, hreleasing', ?_⟩
    · simp [work, streamStep, hstream, bind, Except.bind, pure, Except.pure]
    · change Written header file next.delivered
      rw [hdelivered]
      exact hwritten
  · exact hphased.elim

theorem bind_streamStep {action : BufferStreamAction} {next : LfrfidRawReadWorker}
    {f : LfrfidRawReadWorker → Except LfrfidRawFault LfrfidRawReadWorker}
    (hf : ∀ stream next, f { worker with stream := stream } = .ok next → next.stream = stream)
    (h : worker.streamStep action >>= f = .ok next) :
    worker.overrunCount ≤ next.overrunCount := by
  obtain ⟨stepped, hstep, hnext⟩ := bind_eq_ok h
  unfold streamStep at hstep
  rcases hstream : worker.stream.step action with fault | stream
  · rw [hstream] at hstep
    exact absurd hstep (by simp)
  · rw [hstream] at hstep
    rcases hstep
    rw [overrunCount, overrunCount, hf stream next hnext]
    exact BufferStreamRun.overrun_mono hstream

theorem overrunCount_mono {action : LfrfidRawAction} {next : LfrfidRawReadWorker}
    (h : worker.step action = .ok next) : worker.overrunCount ≤ next.overrunCount := by
  rcases action with ⟨level, duration⟩ | _
  · simp only [step, capture] at h
    split_ifs at h
    · refine bind_streamStep (fun stream next hnext => ?_) h
      rcases hnext
      rfl
    · rcases h
      exact le_rfl
  · simp only [step, work] at h
    rcases hphase : worker.phase with _ | i | i | _ | _
    · rw [hphase] at h
      refine bind_streamStep (fun stream next hnext => ?_) h
      rcases hnext
      rfl
    · rw [hphase] at h
      dsimp only at h
      split_ifs at h
      · rcases h
        exact le_rfl
      · rcases h
        exact le_rfl
    · rw [hphase] at h
      refine bind_streamStep (fun stream next hnext => ?_) h
      rcases hnext
      rfl
    · rw [hphase] at h
      refine bind_streamStep (fun stream next hnext => ?_) h
      rcases hnext
      rfl
    · rw [hphase] at h
      rcases h
      exact le_rfl

theorem exec_kept : ∀ (actions : List LfrfidRawAction) {pending : Option UInt32}
    {pairs : List (UInt32 × UInt32)} {worker last : LfrfidRawReadWorker},
    Kept header pending pairs worker → ExecAlong Calm step worker actions →
    exec step worker actions = .ok last → last.overrunCount = worker.overrunCount →
    ∃ pending', Kept header pending' (pairs ++ capturedPairs pending actions) last
  | [], pending, pairs, worker, last, h, _, hexec, _ => by
    rcases hexec
    exact ⟨pending, by simpa [capturedPairs] using h⟩
  | action :: actions, pending, pairs, worker, last, h, ⟨hcalm, hrest⟩, hexec, hoverrun => by
    rw [exec, List.foldlM_cons] at hexec
    obtain ⟨next, hnext, hexec⟩ := bind_eq_ok hexec
    have hle := overrunCount_mono hnext
    have hle' : next.overrunCount ≤ last.overrunCount :=
      exec_stays (P := fun reached => next.overrunCount ≤ reached.overrunCount)
        (fun _ _ _ hreached hstep => hreached.trans (overrunCount_mono hstep)) actions le_rfl hexec
    have hsame : last.overrunCount = next.overrunCount := by omega
    rcases action with ⟨level, duration⟩ | _
    · obtain ⟨next', hstep, hkept⟩ := capture_kept h level duration hcalm
      rcases Except.ok.inj (hstep.symm.trans hnext) with rfl
      rcases hkept with hmore | hkept
      · omega
      · obtain ⟨pending', hlast⟩ := exec_kept actions hkept (hrest _ hnext) hexec hsame
        refine ⟨pending', ?_⟩
        rwa [List.append_assoc] at hlast
    · obtain ⟨next', hstep, hkept⟩ := work_kept h
      rcases Except.ok.inj (hstep.symm.trans hnext) with rfl
      exact exec_kept actions hkept (hrest _ hnext) hexec hsame

theorem start_stream (frequency dutyCycle : UInt32) :
    (start frequency dutyCycle).stream = .alloc rfidDataBufferSize readDataBufferCount := by
  rw [start]

theorem start_file (frequency dutyCycle : UInt32) : Written (lfrfidRawHeader frequency dutyCycle)
    (start frequency dutyCycle).file [] := by
  have hfile : (start frequency dutyCycle).file =
      Cursor.empty.write (lfrfidRawHeader frequency dutyCycle).bytes := rfl
  have hdata := Cursor.write_at_end (f := Cursor.empty) rfl (lfrfidRawHeader frequency dutyCycle).bytes
  rw [hfile]
  refine ⟨?_, ?_⟩
  · rw [hdata, Cursor.empty_data, List.nil_append, List.flatMap_nil, List.append_nil]
  · rw [hdata, Cursor.empty_data, List.nil_append, Cursor.write_pos, Cursor.empty_pos, Nat.zero_add]

theorem ready_alloc (bufferSize buffersCount : ℕ) :
    (BufferStreamRun.alloc bufferSize buffersCount).Ready :=
  ⟨rfl, nofun, fun h => absurd rfl h⟩

theorem kept_start (frequency dutyCycle : UInt32) :
    Kept (lfrfidRawHeader frequency dutyCycle) none [] (start frequency dutyCycle) where
  inv := by
    rw [start_stream]
    exact BufferStreamRun.alloc_inv (by decide)
  ready := by
    rw [start_stream]
    exact ready_alloc _ _
  count := by
    rw [start_stream]
    rfl
  accepted := by
    rw [start_stream]
    rfl
  pending := ⟨rfl, fun _ => rfl, nofun⟩
  lengths := by
    rw [start_stream]
    exact fun _ hbytes => absurd hbytes List.not_mem_nil
  phased := ⟨by rw [start_stream]; rfl, by rw [start_stream]; rfl,
    by rw [start_stream]; exact start_file frequency dutyCycle⟩

/-! ## The file -/

/-- A file of the pairs in groups, none of which is empty or larger than a buffer. -/
structure Recorded (header : LfrfidRawFileHeader) (file : File)
    (groups : List (List (UInt32 × UInt32))) : Prop where
  data : file.data = header.bytes ++
    groups.flatMap fun group => lfrfidRawRecord (group.flatMap packedPair)
  nonempty : ∀ group ∈ groups, group ≠ []
  fits : ∀ group ∈ groups, (group.flatMap packedPair).length ≤ rfidDataBufferSize

theorem exists_groups {α β : Type} {f : α → β} : ∀ {groups : List (List β)} {rest : List β}
    {l : List α}, l.map f = groups.flatten ++ rest →
    ∃ (groups' : List (List α)) (rest' : List α), l = groups'.flatten ++ rest' ∧
      groups = groups'.map (List.map f) ∧ rest = rest'.map f
  | [], rest, l, h => ⟨[], l, rfl, rfl, h.symm⟩
  | group :: groups, rest, l, h => by
    rw [List.flatten_cons, List.append_assoc, List.map_eq_append_iff] at h
    obtain ⟨first, others, rfl, hfirst, hothers⟩ := h
    obtain ⟨groups', rest', rfl, rfl, rfl⟩ := exists_groups hothers
    exact ⟨first :: groups', rest', by simp, by simp [hfirst], rfl⟩

theorem Phased.written (h : worker.Phased header) :
    ∃ before after, worker.stream.delivered = before ++ after ∧ Written header worker.file before := by
  obtain ⟨pair, stream, file, phase⟩ := worker
  rcases phase with _ | i | i | _ | _
  · exact ⟨stream.delivered, [], (List.append_nil _).symm, h.2.2⟩
  · obtain ⟨-, -, before, hdelivered, hwritten⟩ := h
    exact ⟨before, _, hdelivered, hwritten⟩
  · exact ⟨stream.delivered, [], (List.append_nil _).symm, h.2.2⟩
  · exact ⟨stream.delivered, [], (List.append_nil _).symm, h.2.2⟩
  · exact h.elim

/-- The first pairs are in the file, in groups; if there are any, the last one is not. -/
theorem Kept.recorded (h : Kept header pending pairs worker) : ∃ groups rest,
    Recorded header worker.file groups ∧ pairs = groups.flatten ++ rest ∧
      (pairs ≠ [] → rest ≠ []) := by
  obtain ⟨before, after, hdelivered, hdata, -⟩ := h.phased.written
  obtain ⟨groups, rest, haccepted, hgroups, hopen, -⟩ := h.inv.exact
  rw [h.accepted] at haccepted
  obtain ⟨groups', rest', rfl, rfl, rfl⟩ := exists_groups haccepted
  have hbefore : before ++ (after ++ worker.stream.bufferStream.stream.map worker.stream.contents) =
      groups'.map fun group => group.flatMap packedPair := by
    rw [← List.append_assoc, ← hdelivered, hgroups, List.map_map]
    rfl
  obtain ⟨written, others, rfl, hwritten, -⟩ := List.map_eq_append_iff.1 hbefore.symm
  refine ⟨written, others.flatten ++ rest', ⟨?_, fun group hgroup => ?_, fun group hgroup => ?_⟩,
    by simp, fun hpairs => ?_⟩
  · rw [hdata, ← hwritten, List.flatMap_map]
  · have hmem : group.flatMap packedPair ∈ worker.stream.delivered := by
      rw [hdelivered, ← hwritten]
      exact List.mem_append_left _ (List.mem_map_of_mem hgroup)
    rintro rfl
    exact h.inv.nonempty _ hmem rfl
  · have hmem : group.flatMap packedPair ∈ worker.stream.delivered := by
      rw [hdelivered, ← hwritten]
      exact List.mem_append_left _ (List.mem_map_of_mem hgroup)
    exact h.lengths _ hmem
  · -- The current buffer is not empty, and what is in it is in none of the groups.
    have hsize := h.ready.filled (by
      rw [h.accepted]
      simpa using hpairs)
    have hcontents := BufferStreamRun.contents_size h.inv worker.stream.bufferStream.index
    rw [hopen ⟨h.ready.free, h.ready.releasing⟩] at hcontents
    intro hnone
    rw [List.append_eq_nil_iff] at hnone
    rw [hnone.2] at hcontents
    exact hsize hcontents.symm

theorem recorded_of_calm {frequency dutyCycle : UInt32} {actions : List LfrfidRawAction}
    (hcalm : ExecAlong Calm step (start frequency dutyCycle) actions)
    (hexec : exec step (start frequency dutyCycle) actions = .ok worker)
    (hoverrun : worker.overrunCount = 0) : ∃ groups rest,
    Recorded (lfrfidRawHeader frequency dutyCycle) worker.file groups ∧
      capturedPairs none actions = groups.flatten ++ rest ∧
      (capturedPairs none actions ≠ [] → rest ≠ []) := by
  obtain ⟨pending, hkept⟩ := exec_kept actions (kept_start frequency dutyCycle) hcalm hexec
    (by rw [hoverrun, overrunCount, start_stream]; rfl)
  exact hkept.recorded

end LfrfidRawReadWorker

end KiisuFirmware
