import KiisuFirmware.BufferStream

/-!
# A stream of buffers delivers each chunk once

A buffer is occupied if and only if it is in the stream or the consumer has it, and what is in the
stream begins where what was delivered ends. This goes on as long as the interrupt does not send
while the current buffer is occupied and there is room in the stream, and does not use a buffer the
consumer is in the middle of giving back.
-/

namespace KiisuFirmware

namespace BufferStreamRun

/-- What is in a buffer. -/
def contents (run : BufferStreamRun) (i : ℕ) : List UInt8 := (run.bufferStream.buffers i).contents

/-- A chunk fits into a buffer, and the consumer gives back a buffer it has, one at a time. -/
def Enabled (bufferSize : ℕ) (run : BufferStreamRun) : BufferStreamAction → Prop
  | .send data => data.length ≤ bufferSize
  | .receive => run.releasing = none
  | .release i => i ∈ run.held ∧ run.releasing = none
  | .clear => run.releasing ≠ none

/-- A chunk does not come while the current buffer is occupied, but for a stream that is full, and
goes to a buffer that is not just being given back and whose index is an `int8_t`. -/
def Sound (run : BufferStreamRun) : BufferStreamAction → Prop
  | .send data =>
    let bufferStream := run.bufferStream
    let buffer := bufferStream.buffers bufferStream.index
    (buffer.occupied = true → bufferStream.maxBuffersCount ≤ bufferStream.stream.length) ∧
    run.releasing ≠ some bufferStream.index ∧
    (buffer.occupied = true ∨ buffer.data.length < buffer.size + data.length →
      ∀ i, (bufferStream.occupy bufferStream.index).firstFree = some i →
        i < 128 ∧ run.releasing ≠ some i)
  | _ => True

/-- The chunks, in order, are those of the buffers that were received, of those in the stream, and
the rest, which is in the current buffer. No buffer is in the stream twice, and none was empty. -/
structure Delivered (run : BufferStreamRun) : Prop where
  nodup : run.bufferStream.stream.Nodup
  nonempty : ∀ bytes ∈ run.delivered, bytes ≠ []
  exact : ∃ (groups : List (List (List UInt8))) (rest : List (List UInt8)),
    run.accepted = groups.flatten ++ rest ∧
    run.delivered ++ run.bufferStream.stream.map run.contents = groups.map List.flatten ∧
    (rest ≠ [] → (run.bufferStream.buffers run.bufferStream.index).occupied = false ∧
      run.contents run.bufferStream.index = rest.flatten)

/-- What is in the stream or the consumer has is not written. -/
def Untouched (run next : BufferStreamRun) : Prop :=
  ∀ i, i ∈ run.bufferStream.stream ∨ i ∈ run.held → next.contents i = run.contents i

/-- Every action of a run goes on, and leaves the chunks delivered and the buffers untouched. -/
def DeliversAlong : BufferStreamRun → List BufferStreamAction → Prop :=
  ExecAlong (fun run action => ∃ next, run.step action = .ok next ∧ Delivered next ∧
    Untouched run next) step

/-- The current buffer takes chunks. -/
def Open (run : BufferStreamRun) : Prop :=
  (run.bufferStream.buffers run.bufferStream.index).occupied = false ∧
    run.releasing ≠ some run.bufferStream.index

/-- The invariant, with where the chunks are. -/
structure Inv (bufferSize : ℕ) (run : BufferStreamRun) : Prop where
  index_lt : run.bufferStream.index < run.bufferStream.maxBuffersCount
  length_data : ∀ i, (run.bufferStream.buffers i).data.length = bufferSize
  size_le : ∀ i, (run.bufferStream.buffers i).size ≤ bufferSize
  nodup : (run.bufferStream.stream ++ run.held).Nodup
  lt : ∀ i ∈ run.bufferStream.stream ++ run.held, i < run.bufferStream.maxBuffersCount
  occupied_iff : ∀ i < run.bufferStream.maxBuffersCount,
    (run.bufferStream.buffers i).occupied = true ↔ i ∈ run.bufferStream.stream ++ run.held
  releasing : ∀ i, run.releasing = some i → i < run.bufferStream.maxBuffersCount ∧
    (run.bufferStream.buffers i).occupied = false
  fresh : ∀ i < run.bufferStream.maxBuffersCount,
    (run.bufferStream.buffers i).occupied = false → i ≠ run.bufferStream.index →
    run.releasing ≠ some i → (run.bufferStream.buffers i).size = 0
  full : ∀ i ∈ run.bufferStream.stream ++ run.held, 0 < (run.bufferStream.buffers i).size
  nonempty : ∀ bytes ∈ run.delivered, bytes ≠ []
  exact : ∃ (groups : List (List (List UInt8))) (rest : List (List UInt8)),
    run.accepted = groups.flatten ++ rest ∧
    run.delivered ++ run.bufferStream.stream.map run.contents = groups.map List.flatten ∧
    (run.Open → run.contents run.bufferStream.index = rest.flatten) ∧ (¬run.Open → rest = [])

theorem Inv.delivered {bufferSize : ℕ} {run : BufferStreamRun} (h : Inv bufferSize run) :
    Delivered run where
  nodup := (List.nodup_append.1 h.nodup).1
  nonempty := h.nonempty
  exact := by
    obtain ⟨groups, rest, haccepted, hdelivered, hopen, hclosed⟩ := h.exact
    refine ⟨groups, rest, haccepted, hdelivered, fun hrest => ?_⟩
    have hOpen : run.Open := by
      by_contra hno
      exact hrest (hclosed hno)
    exact ⟨hOpen.1, hopen hOpen⟩

/-! ## Steps -/

theorem length_le_of_nodup {l : List ℕ} {n : ℕ} (hnodup : l.Nodup) (hlt : ∀ i ∈ l, i < n) :
    l.length ≤ n := by
  have hcard := Finset.card_le_card (s := l.toFinset) (t := Finset.range n) fun i hi =>
    Finset.mem_range.2 (hlt i (List.mem_toFinset.1 hi))
  rwa [List.toFinset_card_of_nodup hnodup, Finset.card_range] at hcard

variable {bufferSize : ℕ} {run : BufferStreamRun}

theorem contents_size (h : Inv bufferSize run) (i : ℕ) :
    (run.contents i).length = (run.bufferStream.buffers i).size := by
  rw [contents, Buffer.contents, List.length_take, h.length_data]
  exact Nat.min_eq_left (h.size_le i)

theorem contents_ne_nil (h : Inv bufferSize run) {i : ℕ}
    (hi : i ∈ run.bufferStream.stream ++ run.held) : run.contents i ≠ [] := by
  have hsize := contents_size h i
  have hfull := h.full i hi
  intro hnil
  rw [hnil, List.length_nil] at hsize
  omega

theorem index_not_mem (h : Inv bufferSize run)
    (hfree : (run.bufferStream.buffers run.bufferStream.index).occupied = false) :
    run.bufferStream.index ∉ run.bufferStream.stream ++ run.held := by
  intro hin
  have hoccupied := (h.occupied_iff _ h.index_lt).2 hin
  rw [hfree] at hoccupied
  cases hoccupied

theorem write_fits {buffer : Buffer} (data : List UInt8) (hfree : buffer.occupied = false)
    (hfits : buffer.size + data.length ≤ buffer.data.length) :
    buffer.write data = (true, { buffer with
      data := overwrite buffer.data buffer.size data, size := buffer.size + data.length }) := by
  rw [Buffer.write, hfree, if_neg Bool.false_ne_true, if_neg (by omega)]

theorem write_fails {buffer : Buffer} (data : List UInt8)
    (h : buffer.occupied = true ∨ buffer.data.length < buffer.size + data.length) :
    buffer.write data = (false, buffer) := by
  rw [Buffer.write]
  split_ifs with hoccupied hlength
  · rfl
  · rfl
  · exact absurd h (by simp [hoccupied, hlength])

theorem write_contents {buffer : Buffer} (data : List UInt8)
    (hsize : buffer.size ≤ buffer.data.length)
    (hfits : buffer.size + data.length ≤ buffer.data.length) :
    ({ buffer with data := overwrite buffer.data buffer.size data,
                   size := buffer.size + data.length } : Buffer).contents =
      buffer.contents ++ data ∧
    (overwrite buffer.data buffer.size data).length = buffer.data.length := by
  refine ⟨take_overwrite_length hsize data, ?_⟩
  rw [length_overwrite hsize]
  exact Nat.max_eq_left hfits

theorem step_send_fits (h : Inv bufferSize run) {data : List UInt8}
    (hfree : (run.bufferStream.buffers run.bufferStream.index).occupied = false)
    (hfits : (run.bufferStream.buffers run.bufferStream.index).size + data.length ≤ bufferSize)
    (hreleasing : run.releasing ≠ some run.bufferStream.index) :
    ∃ next, run.step (.send data) = .ok next ∧ Inv bufferSize next ∧ Untouched run next := by
  have hout := index_not_mem h hfree
  have hlength := h.length_data run.bufferStream.index
  have hwrite := write_fits data hfree (hfits.trans hlength.ge)
  obtain ⟨hcontents, hlength'⟩ := write_contents data
    ((h.size_le run.bufferStream.index).trans hlength.ge) (hfits.trans hlength.ge)
  obtain ⟨buffer, hbuffer⟩ : ∃ buffer : Buffer, buffer =
    { run.bufferStream.buffers run.bufferStream.index with
      data := overwrite (run.bufferStream.buffers run.bufferStream.index).data
        (run.bufferStream.buffers run.bufferStream.index).size data
      size := (run.bufferStream.buffers run.bufferStream.index).size + data.length } := ⟨_, rfl⟩
  rw [← hbuffer] at hwrite hcontents
  have hoccupied : buffer.occupied = false := by rw [hbuffer]; exact hfree
  have hsize : buffer.size ≤ bufferSize := by rw [hbuffer]; exact hfits
  have hdata : buffer.data.length = bufferSize := by rw [hbuffer]; exact hlength'.trans hlength
  obtain ⟨buffers, hbuffers⟩ : ∃ buffers, buffers =
    Function.update run.bufferStream.buffers run.bufferStream.index buffer := ⟨_, rfl⟩
  have hstep : run.step (.send data) = .ok { run with
      bufferStream := { run.bufferStream with buffers := buffers }
      accepted := run.accepted ++ [data] } := by
    simp [step, BufferStream.sendFromIsr, hwrite, hbuffers, BufferStream.setBuffer, bind,
      Except.bind, pure, Except.pure]
  have hsame : ∀ i, i ≠ run.bufferStream.index → buffers i = run.bufferStream.buffers i :=
    fun i hi => by rw [hbuffers, Function.update_of_ne hi]
  have hself : buffers run.bufferStream.index = buffer := by rw [hbuffers, Function.update_self]
  have hcurrent : ∀ i ∈ run.bufferStream.stream ++ run.held, i ≠ run.bufferStream.index :=
    fun i hi heq => hout (heq ▸ hi)
  have hoccupied' : ∀ i, (buffers i).occupied = (run.bufferStream.buffers i).occupied := by
    intro i
    by_cases hi : i = run.bufferStream.index
    · rw [hi, hself, hoccupied, hfree]
    · rw [hsame i hi]
  obtain ⟨groups, rest, haccepted, hdelivered, hopen, -⟩ := h.exact
  refine ⟨_, hstep, ?_, fun i hi => ?_⟩
  · refine ⟨h.index_lt, fun i => ?_, fun i => ?_, h.nodup, h.lt, fun i hi => ?_, fun i hi => ?_,
      fun i hi hfree' hne hno => ?_, fun i hi => ?_, h.nonempty, groups, rest ++ [data], ?_, ?_,
      fun _ => ?_, fun hclosed => ?_⟩
    · show (buffers i).data.length = bufferSize
      by_cases hi : i = run.bufferStream.index
      · rw [hi, hself, hdata]
      · rw [hsame i hi, h.length_data]
    · show (buffers i).size ≤ bufferSize
      by_cases hi : i = run.bufferStream.index
      · rw [hi, hself]
        exact hsize
      · rw [hsame i hi]
        exact h.size_le i
    · show (buffers i).occupied = true ↔ _
      rw [hoccupied']
      exact h.occupied_iff i hi
    · obtain ⟨hlt, hfree'⟩ := h.releasing i hi
      exact ⟨hlt, (hoccupied' i).trans hfree'⟩
    · show (buffers i).size = 0
      rw [hsame i hne]
      exact h.fresh i hi ((hoccupied' i).symm.trans hfree') hne hno
    · show 0 < (buffers i).size
      rw [hsame i (hcurrent i hi)]
      exact h.full i hi
    · rw [haccepted, List.append_assoc]
    · rw [← hdelivered]
      congr 1
      refine List.map_congr_left fun i hi => ?_
      show (buffers i).contents = _
      rw [hsame i (hcurrent i (List.mem_append_left _ hi))]
      rfl
    · show (buffers run.bufferStream.index).contents = _
      rw [hself, hcontents, List.flatten_append, ← hopen ⟨hfree, hreleasing⟩]
      simp [contents]
    · exact absurd ⟨(hoccupied' _).trans hfree, hreleasing⟩ hclosed
  · show (buffers i).contents = _
    rw [hsame i (hcurrent i (List.mem_append.2 hi))]
    rfl

/-- The current buffer, closed and put into the stream. -/
def close (run : BufferStreamRun) : BufferStreamRun :=
  { run with
    bufferStream :=
      (run.bufferStream.occupy run.bufferStream.index).push run.bufferStream.index }

theorem close_bufferStream (h : Inv bufferSize run)
    (hfree : (run.bufferStream.buffers run.bufferStream.index).occupied = false) :
    run.close.bufferStream = { run.bufferStream with
      stream := run.bufferStream.stream ++ [run.bufferStream.index]
      buffers := Function.update run.bufferStream.buffers run.bufferStream.index
        { run.bufferStream.buffers run.bufferStream.index with occupied := true } } := by
  have hout := index_not_mem h hfree
  have hroom := length_le_of_nodup (List.nodup_cons.2 ⟨hout, h.nodup⟩) fun i hi => by
    rcases List.mem_cons.1 hi with rfl | hi
    · exact h.index_lt
    · exact h.lt i hi
  rw [List.length_cons, List.length_append] at hroom
  have hlt : run.bufferStream.stream.length < run.bufferStream.maxBuffersCount := by omega
  exact if_pos hlt

theorem contents_occupy (run : BufferStreamRun) (i : ℕ) :
    (Function.update run.bufferStream.buffers run.bufferStream.index
      { run.bufferStream.buffers run.bufferStream.index with occupied := true } i).contents =
      run.contents i := by
  by_cases hi : i = run.bufferStream.index
  · rw [hi, Function.update_self]
    rfl
  · rw [Function.update_of_ne hi]
    rfl

theorem close_inv (h : Inv bufferSize run) {data : List UInt8} (hdata : data.length ≤ bufferSize)
    (hfree : (run.bufferStream.buffers run.bufferStream.index).occupied = false)
    (hfull : bufferSize < (run.bufferStream.buffers run.bufferStream.index).size + data.length)
    (hreleasing : run.releasing ≠ some run.bufferStream.index) :
    Inv bufferSize run.close ∧ ¬run.close.Open ∧ ∀ i, run.close.contents i = run.contents i := by
  have hout := index_not_mem h hfree
  have hclose : run.close = { run with bufferStream := run.close.bufferStream } := rfl
  rw [close_bufferStream h hfree] at hclose
  obtain ⟨buffers, hbuffers⟩ : ∃ buffers, buffers =
    Function.update run.bufferStream.buffers run.bufferStream.index
      { run.bufferStream.buffers run.bufferStream.index with occupied := true } := ⟨_, rfl⟩
  have hcontents : ∀ i, (buffers i).contents = run.contents i := by
    rw [hbuffers]
    exact contents_occupy run
  have hfields : ∀ i, (buffers i).data = (run.bufferStream.buffers i).data ∧
      (buffers i).size = (run.bufferStream.buffers i).size := by
    intro i
    by_cases hi : i = run.bufferStream.index
    · rw [hbuffers, hi, Function.update_self]
      exact ⟨rfl, rfl⟩
    · rw [hbuffers, Function.update_of_ne hi]
      exact ⟨rfl, rfl⟩
  have hself : (buffers run.bufferStream.index).occupied = true := by
    rw [hbuffers, Function.update_self]
  have hother : ∀ i, i ≠ run.bufferStream.index →
      (buffers i).occupied = (run.bufferStream.buffers i).occupied := fun i hi => by
    rw [hbuffers, Function.update_of_ne hi]
  have hperm : (run.bufferStream.stream ++ [run.bufferStream.index] ++ run.held).Perm
      (run.bufferStream.index :: (run.bufferStream.stream ++ run.held)) := by
    rw [List.append_assoc]
    exact List.perm_middle
  rw [← hbuffers] at hclose
  rw [hclose]
  obtain ⟨groups, rest, haccepted, hdelivered, hopen, -⟩ := h.exact
  have hclosed : ¬Open { run with bufferStream := { run.bufferStream with
      stream := run.bufferStream.stream ++ [run.bufferStream.index], buffers := buffers } } := by
    rintro ⟨hno, -⟩
    rw [show (buffers run.bufferStream.index).occupied = true from hself] at hno
    cases hno
  refine ⟨⟨h.index_lt, fun i => ?_, fun i => ?_, hperm.nodup_iff.2 ?_, fun i hi => ?_,
    fun i hi => ?_, fun i hi => ?_, fun i hi hfree' hne hno => ?_, fun i hi => ?_, h.nonempty,
    groups ++ [rest], [], ?_, ?_, fun hOpen => absurd hOpen hclosed, fun _ => rfl⟩, hclosed,
    hcontents⟩
  · exact (congrArg List.length (hfields i).1).trans (h.length_data i)
  · exact (hfields i).2.trans_le (h.size_le i)
  · exact List.nodup_cons.2 ⟨hout, h.nodup⟩
  · rcases List.mem_cons.1 (hperm.mem_iff.1 hi) with rfl | hi
    · exact h.index_lt
    · exact h.lt i hi
  · show (buffers i).occupied = true ↔ i ∈ run.bufferStream.stream ++ [run.bufferStream.index] ++ run.held
    rw [hperm.mem_iff, List.mem_cons]
    by_cases heq : i = run.bufferStream.index
    · rw [heq, hself]
      simp
    · rw [hother i heq, h.occupied_iff i hi]
      simp [heq]
  · obtain ⟨hlt, hfree'⟩ := h.releasing i hi
    have hne : i ≠ run.bufferStream.index := fun heq => hreleasing (heq ▸ hi)
    exact ⟨hlt, (hother i hne).trans hfree'⟩
  · exact (hfields i).2.trans (h.fresh i hi ((hother i hne).symm.trans hfree') hne hno)
  · show 0 < (buffers i).size
    rw [(hfields i).2]
    rcases List.mem_cons.1 (hperm.mem_iff.1 hi) with rfl | hi
    · omega
    · exact h.full i hi
  · rw [haccepted]
    simp
  · show run.delivered ++ List.map _ (run.bufferStream.stream ++ [run.bufferStream.index]) = _
    rw [List.map_append, ← List.append_assoc, List.map_append, ← hdelivered]
    congr 1
    · congr 1
      exact List.map_congr_left fun i _ => hcontents i
    · exact congrArg (fun bytes => [bytes]) ((hcontents _).trans (hopen ⟨hfree, hreleasing⟩))

theorem switch_inv (h : Inv bufferSize run) (hclosed : ¬run.Open) {i : ℕ}
    (hi : i < run.bufferStream.maxBuffersCount)
    (hfree : (run.bufferStream.buffers i).occupied = false) (hne : i ≠ run.bufferStream.index)
    (hreleasing : run.releasing ≠ some i) (hcurrent : run.releasing ≠ some run.bufferStream.index)
    {data : List UInt8} (hdata : data.length ≤ bufferSize) :
    let next : BufferStreamRun := { run with
      bufferStream := { run.bufferStream with index := i }.setBuffer i
        ((run.bufferStream.buffers i).write data).2
      accepted := run.accepted ++ [data] }
    Inv bufferSize next ∧ Untouched run next := by
  have hsize := h.fresh i hi hfree hne hreleasing
  have hlength := h.length_data i
  have hwrite := write_fits data hfree (by omega)
  have hroom : (run.bufferStream.buffers i).size + data.length ≤
      (run.bufferStream.buffers i).data.length := by omega
  obtain ⟨hcontents, hlength'⟩ := write_contents data (by omega) hroom
  rw [hwrite]
  obtain ⟨buffer, hbuffer⟩ : ∃ buffer : Buffer, buffer =
    { run.bufferStream.buffers i with
      data := overwrite (run.bufferStream.buffers i).data (run.bufferStream.buffers i).size data
      size := (run.bufferStream.buffers i).size + data.length } := ⟨_, rfl⟩
  rw [← hbuffer] at hcontents
  have hempty : (run.bufferStream.buffers i).contents = [] := by
    rw [Buffer.contents, hsize, List.take_zero]
  rw [hempty, List.nil_append] at hcontents
  have hoccupied : buffer.occupied = false := by rw [hbuffer]; exact hfree
  have hsize' : buffer.size ≤ bufferSize := by
    rw [hbuffer]
    show (run.bufferStream.buffers i).size + data.length ≤ bufferSize
    omega
  have hdata' : buffer.data.length = bufferSize := by rw [hbuffer]; exact hlength'.trans hlength
  obtain ⟨buffers, hbuffers⟩ : ∃ buffers, buffers =
    Function.update run.bufferStream.buffers i buffer := ⟨_, rfl⟩
  have hnext : ({ run.bufferStream with index := i } : BufferStream).setBuffer i buffer =
      { run.bufferStream with index := i, buffers := buffers } := by
    rw [BufferStream.setBuffer, hbuffers]
  have hout : i ∉ run.bufferStream.stream ++ run.held := by
    intro hin
    have hfull := h.full i hin
    omega
  have hsame : ∀ j, j ≠ i → buffers j = run.bufferStream.buffers j :=
    fun j hj => by rw [hbuffers, Function.update_of_ne hj]
  have hself : buffers i = buffer := by rw [hbuffers, Function.update_self]
  have hnot : ∀ j ∈ run.bufferStream.stream ++ run.held, j ≠ i := fun j hj heq => hout (heq ▸ hj)
  have hoccupied' : ∀ j, (buffers j).occupied = (run.bufferStream.buffers j).occupied := by
    intro j
    by_cases hj : j = i
    · rw [hj, hself, hoccupied, hfree]
    · rw [hsame j hj]
  have hold : (run.bufferStream.buffers run.bufferStream.index).occupied = true := by
    by_contra hno
    exact hclosed ⟨Bool.eq_false_of_not_eq_true hno, hcurrent⟩
  obtain ⟨groups, rest, haccepted, hdelivered, -, hrest⟩ := h.exact
  rw [← hbuffer]
  dsimp only
  rw [hnext]
  refine ⟨⟨hi, fun j => ?_, fun j => ?_, h.nodup, h.lt, fun j hj => ?_, fun j hj => ?_,
    fun j hj hfree' hne' hno => ?_, fun j hj => ?_, h.nonempty, groups, [data], ?_, ?_,
    fun _ => ?_, fun hclosed' => ?_⟩, fun j hj => ?_⟩
  · show (buffers j).data.length = bufferSize
    by_cases hji : j = i
    · rw [hji, hself, hdata']
    · rw [hsame j hji, h.length_data]
  · show (buffers j).size ≤ bufferSize
    by_cases hji : j = i
    · rw [hji, hself]
      exact hsize'
    · rw [hsame j hji]
      exact h.size_le j
  · show (buffers j).occupied = true ↔ _
    rw [hoccupied']
    exact h.occupied_iff j hj
  · obtain ⟨hlt, hfree'⟩ := h.releasing j hj
    exact ⟨hlt, (hoccupied' j).trans hfree'⟩
  · show (buffers j).size = 0
    have hfree'' := (hoccupied' j).symm.trans hfree'
    rw [hsame j hne']
    refine h.fresh j hj hfree'' (fun heq => ?_) hno
    rw [heq, hold] at hfree''
    cases hfree''
  · show 0 < (buffers j).size
    rw [hsame j (hnot j hj)]
    exact h.full j hj
  · show run.accepted ++ [data] = _
    rw [haccepted, hrest hclosed, List.append_nil]
  · rw [← hdelivered]
    congr 1
    refine List.map_congr_left fun j hj => ?_
    show (buffers j).contents = _
    rw [hsame j (hnot j (List.mem_append_left _ hj))]
    rfl
  · show (buffers i).contents = _
    rw [hself, hcontents]
    simp
  · exact absurd ⟨(hoccupied' i).trans hfree, hreleasing⟩ hclosed'
  · show (buffers j).contents = _
    rw [hsame j (hnot j (List.mem_append.2 hj))]
    rfl

theorem firstFree_spec {bufferStream : BufferStream} {i : ℕ}
    (h : bufferStream.firstFree = some i) :
    i < bufferStream.maxBuffersCount ∧ (bufferStream.buffers i).occupied = false := by
  unfold BufferStream.firstFree at h
  refine ⟨List.mem_range.1 (List.mem_of_find?_eq_some h), ?_⟩
  simpa using List.find?_some h

theorem getFreeBuffer_some {bufferStream : BufferStream} {i : ℕ}
    (h : bufferStream.firstFree = some i) (hi : i < 128) : bufferStream.getFreeBuffer = i := by
  unfold BufferStream.getFreeBuffer
  rw [h]
  show (BitVec.ofNat 8 i).toInt = i
  rw [BitVec.toInt_eq_toNat_of_lt (by rw [BitVec.toNat_ofNat]; omega), BitVec.toNat_ofNat]
  omega

/-- The current buffer does not take the chunk, and is in the stream from now on. -/
theorem step_send_full (hinv : Inv bufferSize run.close) (hclosed : ¬run.close.Open)
    (hcontents : ∀ i, run.close.contents i = run.contents i)
    (hmem : ∀ i, i ∈ run.bufferStream.stream → i ∈ run.close.bufferStream.stream)
    (hindex : run.releasing ≠ some run.bufferStream.index)
    {data : List UInt8} (hdata : data.length ≤ bufferSize)
    (hfails : (run.bufferStream.buffers run.bufferStream.index).occupied = true ∨
      (run.bufferStream.buffers run.bufferStream.index).data.length <
        (run.bufferStream.buffers run.bufferStream.index).size + data.length)
    (hfree : ∀ i, run.close.bufferStream.firstFree = some i → i < 128 ∧ run.releasing ≠ some i) :
    ∃ next, run.step (.send data) = .ok next ∧ Inv bufferSize next ∧ Untouched run next := by
  have hwrite := write_fails data hfails
  rcases hfirst : run.close.bufferStream.firstFree with _ | i
  · refine ⟨{ run.close with bufferStream := { run.close.bufferStream with
        streamOverrunCount := run.close.bufferStream.streamOverrunCount + 1 } }, ?_, ?_,
      fun i _ => hcontents i⟩
    · have hnone : run.close.bufferStream.getFreeBuffer = -1 := by
        rw [BufferStream.getFreeBuffer, hfirst]
      have hnone' : ((run.bufferStream.occupy run.bufferStream.index).push
          run.bufferStream.index).getFreeBuffer = -1 := hnone
      simp [step, BufferStream.sendFromIsr, hwrite, hnone', close, bind, Except.bind, pure,
        Except.pure]
    · exact ⟨hinv.index_lt, hinv.length_data, hinv.size_le, hinv.nodup, hinv.lt, hinv.occupied_iff,
        hinv.releasing, hinv.fresh, hinv.full, hinv.nonempty, hinv.exact⟩
  · obtain ⟨hlt, hreleasing⟩ := hfree i hfirst
    obtain ⟨hi, hfree'⟩ := firstFree_spec hfirst
    have hget : ((run.bufferStream.occupy run.bufferStream.index).push
        run.bufferStream.index).getFreeBuffer = i := getFreeBuffer_some hfirst hlt
    have hne : i ≠ run.close.bufferStream.index := by
      intro heq
      refine hclosed ⟨?_, ?_⟩
      · rw [← heq]
        exact hfree'
      · rw [← heq]
        exact hreleasing
    have hcurrent : run.close.bufferStream.index = run.bufferStream.index := by
      unfold close BufferStream.push
      dsimp only
      split_ifs <;> rfl
    obtain ⟨hnext, huntouched⟩ := switch_inv hinv hclosed hi hfree' hne hreleasing
      (by rw [hcurrent]; exact hindex) hdata
    refine ⟨_, ?_, hnext, fun j hj => (huntouched j ?_).trans (hcontents j)⟩
    · have hpos : ¬((i : ℤ) = -1) := by omega
      have hnonneg : ¬((i : ℤ) < 0) := by omega
      simp [step, BufferStream.sendFromIsr, hwrite, hget, hpos, hnonneg, close, bind, Except.bind,
        pure, Except.pure]
    · rcases hj with hj | hj
      · exact .inl (hmem j hj)
      · exact .inr hj

theorem alloc_inv {bufferSize buffersCount : ℕ} (hcount : 0 < buffersCount) :
    Inv bufferSize (alloc bufferSize buffersCount) where
  index_lt := hcount
  length_data _ := List.length_replicate
  size_le _ := Nat.zero_le _
  nodup := List.nodup_nil
  lt _ hi := absurd hi List.not_mem_nil
  occupied_iff i _ := by simp [alloc, BufferStream.alloc, Buffer.alloc]
  releasing i hi := by simp [alloc] at hi
  fresh i _ _ _ _ := rfl
  full _ hi := absurd hi List.not_mem_nil
  nonempty _ hbytes := absurd hbytes List.not_mem_nil
  exact := by
    refine ⟨[], [], rfl, rfl, fun _ => ?_, fun _ => rfl⟩
    simp [contents, Buffer.contents, alloc, BufferStream.alloc, Buffer.alloc]

theorem step_send (h : Inv bufferSize run) {data : List UInt8} (hdata : data.length ≤ bufferSize)
    (hsound : Sound run (.send data)) :
    ∃ next, run.step (.send data) = .ok next ∧ Inv bufferSize next ∧ Untouched run next := by
  obtain ⟨hoccupied, hreleasing, hfree⟩ := hsound
  have hlength := h.length_data run.bufferStream.index
  have hfirst : run.close.bufferStream.firstFree =
      (run.bufferStream.occupy run.bufferStream.index).firstFree := by
    unfold close BufferStream.push
    dsimp only
    split_ifs <;> rfl
  rcases hcurrent : (run.bufferStream.buffers run.bufferStream.index).occupied with _ | _
  · by_cases hfits : (run.bufferStream.buffers run.bufferStream.index).size + data.length ≤ bufferSize
    · exact step_send_fits h hcurrent hfits hreleasing
    · have hfull : bufferSize <
          (run.bufferStream.buffers run.bufferStream.index).size + data.length := by omega
      obtain ⟨hinv, hclosed, hcontents⟩ := close_inv h hdata hcurrent hfull hreleasing
      refine step_send_full hinv hclosed hcontents (fun i hi => ?_) hreleasing hdata
        (.inr (hlength.symm ▸ hfull)) fun i hi => ?_
      · rw [close_bufferStream h hcurrent]
        exact List.mem_append_left _ hi
      · exact hfree (.inr (hlength.symm ▸ hfull)) i (hfirst ▸ hi)
  · -- The stream is full, so that nothing of the close is left.
    have hroom := hoccupied hcurrent
    have hclose : run.close = run := by
      have hself : run.bufferStream.occupy run.bufferStream.index = run.bufferStream := by
        have hbuffer : ({ run.bufferStream.buffers run.bufferStream.index with
            occupied := true } : Buffer) = run.bufferStream.buffers run.bufferStream.index := by
          rw [← hcurrent]
        rw [BufferStream.occupy, hbuffer, BufferStream.setBuffer, Function.update_eq_self]
      rw [close, hself, BufferStream.push, if_neg (by omega)]
    have hclosed : ¬run.close.Open := by
      rw [hclose]
      rintro ⟨hopen, -⟩
      rw [hcurrent] at hopen
      cases hopen
    refine step_send_full (hclose.symm ▸ h) hclosed (fun i => by rw [hclose])
      (fun i hi => by rw [hclose]; exact hi) hreleasing hdata (.inl hcurrent) fun i hi => ?_
    exact hfree (.inl hcurrent) i (hfirst ▸ hi)

theorem step_receive (h : Inv bufferSize run) :
    ∃ next, run.step .receive = .ok next ∧ Inv bufferSize next ∧ Untouched run next := by
  rcases hstream : run.bufferStream.stream with _ | ⟨i, stream⟩
  · refine ⟨run, ?_, h, fun _ _ => rfl⟩
    simp [step, BufferStream.receive, hstream]
  · have hperm : (stream ++ (run.held ++ [i])).Perm (run.bufferStream.stream ++ run.held) := by
      rw [hstream, ← List.append_assoc]
      exact List.perm_append_singleton i _
    have hmem : i ∈ run.bufferStream.stream ++ run.held := by simp [hstream]
    obtain ⟨groups, rest, haccepted, hdelivered, hopen, hclosed⟩ := h.exact
    refine ⟨{ run with
      bufferStream := { run.bufferStream with stream := stream }
      held := run.held ++ [i]
      delivered := run.delivered ++ [run.contents i] }, ?_, ?_, fun _ _ => rfl⟩
    · simp [step, BufferStream.receive, hstream, contents]
    · refine ⟨h.index_lt, h.length_data, h.size_le, hperm.nodup_iff.2 h.nodup,
        fun j hj => h.lt j (hperm.mem_iff.1 hj),
        fun j hj => (h.occupied_iff j hj).trans hperm.mem_iff.symm, h.releasing, h.fresh,
        fun j hj => h.full j (hperm.mem_iff.1 hj), fun bytes hbytes => ?_,
        groups, rest, haccepted, ?_, hopen, hclosed⟩
      · rcases List.mem_append.1 hbytes with hbytes | hbytes
        · exact h.nonempty bytes hbytes
        · rw [List.mem_singleton.1 hbytes]
          exact contents_ne_nil h hmem
      · rw [hstream] at hdelivered
        rw [← hdelivered, List.map_cons, List.append_assoc, List.singleton_append]
        rfl

theorem step_release (h : Inv bufferSize run) {i : ℕ} (hi : i ∈ run.held)
    (hreleasing : run.releasing = none) :
    ∃ next, run.step (.release i) = .ok next ∧ Inv bufferSize next ∧ Untouched run next := by
  obtain ⟨hstream, hheld, hdisjoint⟩ := List.nodup_append.1 h.nodup
  have hmem : i ∈ run.bufferStream.stream ++ run.held := List.mem_append_right _ hi
  have hlt := h.lt i hmem
  have hout : i ∉ run.bufferStream.stream := fun hin => hdisjoint i hin i hi rfl
  have hiff : ∀ j, j ∈ run.bufferStream.stream ++ run.held.erase i ↔
      j ≠ i ∧ j ∈ run.bufferStream.stream ++ run.held := by
    intro j
    rw [List.mem_append, List.mem_append, hheld.mem_erase_iff]
    constructor
    · rintro (hj | ⟨hj, hin⟩)
      · exact ⟨fun heq => hout (heq ▸ hj), .inl hj⟩
      · exact ⟨hj, .inr hin⟩
    · rintro ⟨hj, hin | hin⟩
      · exact .inl hin
      · exact .inr ⟨hj, hin⟩
  obtain ⟨buffers, hbuffers⟩ : ∃ buffers, buffers = Function.update run.bufferStream.buffers i
    { run.bufferStream.buffers i with occupied := false } := ⟨_, rfl⟩
  have hself : (buffers i).occupied = false := by rw [hbuffers, Function.update_self]
  have hsame : ∀ j, j ≠ i → buffers j = run.bufferStream.buffers j :=
    fun j hj => by rw [hbuffers, Function.update_of_ne hj]
  have hfields : ∀ j, (buffers j).data = (run.bufferStream.buffers j).data ∧
      (buffers j).size = (run.bufferStream.buffers j).size := by
    intro j
    by_cases hj : j = i
    · rw [hj, hbuffers, Function.update_self]
      exact ⟨rfl, rfl⟩
    · rw [hsame j hj]
      exact ⟨rfl, rfl⟩
  have hcontents : ∀ j, (buffers j).contents = run.contents j := by
    intro j
    rw [Buffer.contents, (hfields j).1, (hfields j).2]
    rfl
  have hindex : run.bufferStream.index = i → ¬run.Open := by
    rintro rfl ⟨hfree, -⟩
    exact index_not_mem h hfree hmem
  obtain ⟨groups, rest, haccepted, hdelivered, hopen, hclosed⟩ := h.exact
  refine ⟨{ run with
    bufferStream := { run.bufferStream with buffers := buffers }
    held := run.held.erase i
    releasing := some i }, ?_, ?_, fun j _ => hcontents j⟩
  · rw [hbuffers]
    rfl
  · refine ⟨h.index_lt, fun j => ?_, fun j => ?_, ?_, fun j hj => h.lt j ((hiff j).1 hj).2,
      fun j hj => ?_, fun j hj => ?_, fun j hj hfree hne hno => ?_, fun j hj => ?_, h.nonempty,
      groups, rest, haccepted, ?_, fun hOpen => ?_, fun hno => hclosed fun hOpen => ?_⟩
    · exact (congrArg List.length (hfields j).1).trans (h.length_data j)
    · exact (hfields j).2.trans_le (h.size_le j)
    · refine List.nodup_append.2 ⟨hstream, hheld.erase i, fun j hj k hk => ?_⟩
      exact hdisjoint j hj k (List.mem_of_mem_erase hk)
    · show (buffers j).occupied = true ↔ j ∈ run.bufferStream.stream ++ run.held.erase i
      rw [hiff]
      by_cases heq : j = i
      · simp [heq, hself]
      · rw [hsame j heq, h.occupied_iff j hj]
        simp [heq]
    · rcases Option.some.inj hj with rfl
      exact ⟨hlt, hself⟩
    · have heq : j ≠ i := fun heq => hno (congrArg some heq.symm)
      refine (hfields j).2.trans (h.fresh j hj ?_ hne (by rw [hreleasing]; simp))
      rw [← hsame j heq]
      exact hfree
    · exact ((hiff j).1 hj).2 |> h.full j |>.trans_eq (hfields j).2.symm
    · rw [← hdelivered]
      congr 1
      exact List.map_congr_left fun j _ => hcontents j
    · refine (hcontents _).trans (hopen ⟨?_, by rw [hreleasing]; simp⟩)
      have hne : run.bufferStream.index ≠ i := fun heq => hOpen.2 (congrArg some heq.symm)
      rw [← hsame _ hne]
      exact hOpen.1
    · have hne : run.bufferStream.index ≠ i := fun heq => hindex heq hOpen
      refine hno ⟨?_, fun heq => hne (Option.some.inj heq).symm⟩
      show (buffers run.bufferStream.index).occupied = false
      rw [hsame _ hne]
      exact hOpen.1

theorem step_clear (h : Inv bufferSize run) (hreleasing : run.releasing ≠ none) :
    ∃ next, run.step .clear = .ok next ∧ Inv bufferSize next ∧ Untouched run next := by
  obtain ⟨i, hi⟩ := Option.ne_none_iff_exists'.1 hreleasing
  obtain ⟨hlt, hfree⟩ := h.releasing i hi
  have hout : i ∉ run.bufferStream.stream ++ run.held := by
    intro hin
    have hoccupied := (h.occupied_iff i hlt).2 hin
    rw [hfree] at hoccupied
    cases hoccupied
  have hnot : ∀ j ∈ run.bufferStream.stream ++ run.held, j ≠ i := fun j hj heq => hout (heq ▸ hj)
  obtain ⟨buffers, hbuffers⟩ : ∃ buffers, buffers = Function.update run.bufferStream.buffers i
    { run.bufferStream.buffers i with size := 0 } := ⟨_, rfl⟩
  have hself : buffers i = { run.bufferStream.buffers i with size := 0 } := by
    rw [hbuffers, Function.update_self]
  have hsame : ∀ j, j ≠ i → buffers j = run.bufferStream.buffers j :=
    fun j hj => by rw [hbuffers, Function.update_of_ne hj]
  have hoccupied : ∀ j, (buffers j).occupied = (run.bufferStream.buffers j).occupied := by
    intro j
    by_cases hj : j = i
    · rw [hj, hself]
    · rw [hsame j hj]
  obtain ⟨groups, rest, haccepted, hdelivered, hopen, hclosed⟩ := h.exact
  refine ⟨{ run with
    bufferStream := { run.bufferStream with buffers := buffers }
    releasing := none }, ?_, ?_, fun j hj => ?_⟩
  · simp [step, hi, hbuffers, BufferStream.setBuffer]
  · refine ⟨h.index_lt, fun j => ?_, fun j => ?_, h.nodup, h.lt,
      fun j hj => ?_, fun j hj => absurd hj (by simp), fun j hj hfree' hne _ => ?_, fun j hj => ?_,
      h.nonempty, groups, rest, haccepted, ?_, fun hOpen => ?_, fun hno => hclosed fun hOpen => ?_⟩
    · show (buffers j).data.length = bufferSize
      by_cases hj : j = i
      · rw [hj, hself]
        exact h.length_data i
      · rw [hsame j hj, h.length_data]
    · show (buffers j).size ≤ bufferSize
      by_cases hj : j = i
      · rw [hj, hself]
        exact Nat.zero_le _
      · rw [hsame j hj]
        exact h.size_le j
    · show (buffers j).occupied = true ↔ _
      rw [hoccupied]
      exact h.occupied_iff j hj
    · show (buffers j).size = 0
      by_cases heq : j = i
      · rw [heq, hself]
      · rw [hsame j heq]
        refine h.fresh j hj ((hoccupied j).symm.trans hfree') hne ?_
        rw [hi]
        exact fun hsome => heq (Option.some.inj hsome).symm
    · show 0 < (buffers j).size
      rw [hsame j (hnot j hj)]
      exact h.full j hj
    · rw [← hdelivered]
      congr 1
      refine List.map_congr_left fun j hj => ?_
      show (buffers j).contents = _
      rw [hsame j (hnot j (List.mem_append_left _ hj))]
      rfl
    · -- The current buffer, given back after an overrun, takes chunks again, and none was left.
      show (buffers run.bufferStream.index).contents = rest.flatten
      by_cases heq : run.bufferStream.index = i
      · have hrest := hclosed fun hOpen' => hOpen'.2 (heq ▸ hi)
        rw [heq, hself, hrest, Buffer.contents, List.take_zero]
        rfl
      · rw [hsame _ heq]
        refine hopen ⟨(hoccupied _).symm.trans hOpen.1, ?_⟩
        rw [hi]
        exact fun hsome => heq (Option.some.inj hsome).symm
    · exact hno ⟨(hoccupied _).trans hOpen.1, by simp⟩
  · show (buffers j).contents = _
    rw [hsame j (hnot j (List.mem_append.2 hj))]
    rfl

theorem step_inv (h : Inv bufferSize run) {action : BufferStreamAction}
    (henabled : Enabled bufferSize run action) (hsound : Sound run action) :
    ∃ next, run.step action = .ok next ∧ Inv bufferSize next ∧ Untouched run next := by
  rcases action with data | - | i | -
  · exact step_send h henabled hsound
  · exact step_receive h
  · exact step_release h henabled.1 henabled.2
  · exact step_clear h henabled

theorem deliversAlong_of_inv : ∀ {run : BufferStreamRun} {actions : List BufferStreamAction},
    Inv bufferSize run →
    ExecAlong (fun run action => Enabled bufferSize run action ∧ Sound run action) step run actions →
    DeliversAlong run actions
  | _, [], _, _ => trivial
  | _, _ :: _, h, ⟨⟨henabled, hsound⟩, hactions⟩ => by
    obtain ⟨next, hstep, hinv, huntouched⟩ := step_inv h henabled hsound
    refine ⟨⟨next, hstep, hinv.delivered, huntouched⟩, fun next' hnext => ?_⟩
    rcases Except.ok.inj (hstep.symm.trans hnext) with rfl
    exact deliversAlong_of_inv hinv (hactions next hnext)

/-- From the start, for as long as the interrupt keeps to it. -/
theorem deliversAlong_of_sound {bufferSize buffersCount : ℕ} (hcount : 0 < buffersCount)
    {actions : List BufferStreamAction}
    (hactions : ExecAlong (fun run action => Enabled bufferSize run action ∧ Sound run action) step
      (alloc bufferSize buffersCount) actions) :
    DeliversAlong (alloc bufferSize buffersCount) actions :=
  deliversAlong_of_inv (alloc_inv hcount) hactions

/-- Two buffers of one byte, of which the first is given back and filled again. -/
theorem deliversAlong_twoBuffers : DeliversAlong (alloc 1 2)
    [.send [1], .send [2], .receive, .release 0, .clear, .send [3]] := by
  refine deliversAlong_of_sound (by decide)
    ⟨⟨Nat.le_refl 1, ?_⟩, fun run hrun => ?_⟩
  · refine ⟨Bool.noConfusion, (Option.some_ne_none _).symm, fun h => ?_⟩
    exact absurd h (by decide)
  rcases Except.ok.inj hrun
  refine ⟨⟨Nat.le_refl 1, Bool.noConfusion, (Option.some_ne_none _).symm,
    fun _ i hi => ?_⟩, fun run hrun => ?_⟩
  · rcases Option.some.inj hi
    exact ⟨by decide, (Option.some_ne_none _).symm⟩
  rcases Except.ok.inj hrun
  refine ⟨⟨rfl, trivial⟩, fun run hrun => ?_⟩
  rcases Except.ok.inj hrun
  refine ⟨⟨⟨List.mem_cons_self, rfl⟩, trivial⟩, fun run hrun => ?_⟩
  rcases Except.ok.inj hrun
  refine ⟨⟨Option.some_ne_none 0, trivial⟩, fun run hrun => ?_⟩
  rcases Except.ok.inj hrun
  refine ⟨⟨Nat.le_refl 1, Bool.noConfusion, (Option.some_ne_none _).symm,
    fun _ i hi => ?_⟩, fun _ _ => trivial⟩
  rcases Option.some.inj hi
  exact ⟨by decide, (Option.some_ne_none _).symm⟩

/-- After an overrun the current buffer is put into the stream once more. -/
theorem not_deliversAlong_overrun : ¬∀ (bufferSize buffersCount : ℕ), 0 < buffersCount →
    ∀ actions : List BufferStreamAction,
    ExecAlong (Enabled bufferSize) step (alloc bufferSize buffersCount) actions →
    DeliversAlong (alloc bufferSize buffersCount) actions := by
  intro h
  obtain ⟨-, h⟩ := h 1 2 (by decide) [.send [1], .send [2], .send [3], .receive, .send [4]]
    ⟨Nat.le_refl 1, fun run hrun => by
      rcases Except.ok.inj hrun
      refine ⟨Nat.le_refl 1, fun run hrun => ?_⟩
      rcases Except.ok.inj hrun
      refine ⟨Nat.le_refl 1, fun run hrun => ?_⟩
      rcases Except.ok.inj hrun
      refine ⟨rfl, fun run hrun => ?_⟩
      rcases Except.ok.inj hrun
      exact ⟨Nat.le_refl 1, fun _ _ => trivial⟩⟩
  obtain ⟨-, h⟩ := h _ rfl
  obtain ⟨-, h⟩ := h _ rfl
  obtain ⟨-, h⟩ := h _ rfl
  obtain ⟨⟨next, hnext, hdelivered, -⟩, -⟩ := h _ rfl
  rcases Except.ok.inj hnext
  exact absurd hdelivered.nodup (show ¬[1, 1].Nodup by decide)

end BufferStreamRun

end KiisuFirmware
