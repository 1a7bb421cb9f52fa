import KiisuFirmware.RpcStream

/-!
# Reading the input stream of a session

What is read and what is on its way are the bytes that were fed, in order. The flag of a disconnect
is set from the close on, but for the moment in which the thread looks at it, so that no wake-up is
lost. After a decode error nothing is read any more.
-/

namespace KiisuFirmware

namespace StreamRun

/-- The bytes in the buffer of a read. -/
def received (run : StreamRun) : List UInt8 := (run.session.read.map StreamRead.received).getD []

/-- How many bytes were fed and not yet read. -/
def remaining (run : StreamRun) : ℕ := run.accepted.length - run.returned.length

/-- One feed at a time, of what there is room for. The thread decodes until it stops, and has a
message only from reads that were successful, of which there was at least one. -/
def Enabled (run : StreamRun) : StreamAction → Prop
  | .send bytes => run.feeding = false ∧ run.session.stream.length + bytes.length ≤ rpcBufferSize
  | .notify => run.feeding = true
  | .close => True
  | .read count => 0 < count ∧ run.session.read = none ∧ run.stopped = false
  | .advance => run.session.read ≠ none
  | .decoded _ => run.session.read = none ∧ run.stopped = false ∧ 0 < run.reads ∧
    run.readFailed = false
  | .failed => run.session.read = none ∧ run.stopped = false

/-- A thread that sleeps has not enough bytes, unless the flag of a feed is still to be set. -/
def Waits (next : StreamRun) : Prop :=
  ∀ read, next.session.blocked = true → next.session.read = some read → next.feeding = false →
    read.received.length + next.session.stream.length < read.count

/-- After the close a read that ends is successful if and only if enough bytes remain. -/
def ReadsRest (run : StreamRun) (output : StreamOutput) : Prop :=
  ∀ read, run.closed = true → run.session.read = some read → output ≠ .none →
    ((∃ bytes, output = .success bytes) ↔ read.count ≤ run.remaining)

/-- The read that is going on comes to its end, if nothing but its steps is taken. -/
def Ends (run : StreamRun) : Prop :=
  ∃ n, (((fun run : StreamRun => (run.step .advance).2)^[n] run).step .advance).1 ≠ .none

/-- What a step does at any time. -/
structure Delivers (run : StreamRun) (output : StreamOutput) (next : StreamRun) : Prop where
  /-- What is read is what was fed, from the first byte on. -/
  isPrefix : next.returned <+: next.accepted
  success : ∀ bytes, output = .success bytes → next.returned = run.returned ++ bytes ∧
    ∃ read, run.session.read = some read ∧ bytes.length = read.count
  /-- No read fails but in a session that is closed, and then it is terminated. -/
  failure : output = .failure → next.session.terminate = true ∧ next.closed = true
  /-- A thread does not sleep after the close, and ends its read if nothing more is fed. -/
  awake : next.closed = true → next.session.blocked = false
  ends : next.closed = true → next.session.read ≠ none → next.Ends
  message : output = .message → run.session.decodeError = false

/-- What a step does without an error of the decoder before it. -/
def ReadsOn (run : StreamRun) (output : StreamOutput) (next : StreamRun) : Prop :=
  Waits next ∧ ReadsRest run output

/-- What comes of each step that is taken, for some property of it. -/
def StepsAlong (P : StreamRun → StreamOutput → StreamRun → Prop) :
    StreamRun → List StreamAction → Prop :=
  Along (fun run action => P run (run.step action).1 (run.step action).2) step

/-- The invariant. -/
structure Inv (run : StreamRun) : Prop where
  received_lt : ∀ read, run.session.read = some read → read.received.length < read.count
  received_nil : run.session.decodeError = true → run.received = []
  read_none : run.session.terminate = true → run.session.read = none
  split : run.session.decodeError = false → run.session.terminate = false →
    run.returned ++ run.received ++ run.session.stream = run.accepted
  isPrefix : run.returned <+: run.accepted
  disconnect : run.closed = true → run.session.terminate = false → run.session.disconnect = true ∨
    ∃ count bytes newData, run.session.read = some ⟨count, bytes, .woken newData true⟩
  closed : run.session.disconnect = true ∨ run.session.terminate = true ∨
    (∃ count bytes newData, run.session.read = some ⟨count, bytes, .woken newData true⟩) →
    run.closed = true
  wake : ∀ count bytes, run.session.read = some ⟨count, bytes, .wait⟩ →
    run.session.decodeError = false → run.feeding = false → run.session.newData = true ∨
    run.session.disconnect = true ∨ bytes.length + run.session.stream.length < count
  reads : run.session.decodeError = true → 0 < run.reads → run.readFailed = true

theorem opened_inv : Inv opened := by
  constructor <;> simp [opened, RpcSession.opened, received]

variable {run : StreamRun}

/-! ## Steps -/

theorem send_inv (h : Inv run) (bytes : List UInt8) : Inv (run.step (.send bytes)).2 := by
  refine ⟨h.received_lt, h.received_nil, h.read_none, fun herror hterm => ?_, ?_, h.disconnect,
    h.closed, fun _ _ _ _ hfeeding => absurd hfeeding (by simp [step]), h.reads⟩
  · show run.returned ++ run.received ++ (run.session.stream ++ bytes) = run.accepted ++ bytes
    rw [← h.split herror hterm, List.append_assoc _ run.session.stream]
  · exact h.isPrefix.trans (List.prefix_append _ _)

theorem notify_inv (h : Inv run) : Inv (run.step .notify).2 :=
  ⟨h.received_lt, h.received_nil, h.read_none, h.split, h.isPrefix, h.disconnect, h.closed,
    fun _ _ _ _ _ => .inl rfl, h.reads⟩

theorem close_inv (h : Inv run) : Inv (run.step .close).2 :=
  ⟨h.received_lt, h.received_nil, h.read_none, h.split, h.isPrefix, fun _ _ => .inl rfl,
    fun _ => rfl, fun _ _ _ _ _ => .inr (.inl rfl), h.reads⟩

theorem received_of_none (h : run.session.read = none) : run.received = [] := by
  rw [received, h]
  rfl

theorem read_inv (h : Inv run) {count : ℕ} (hcount : 0 < count)
    (hread : run.session.read = none) : Inv (run.step (.read count)).2 := by
  have hreceived := received_of_none hread
  rcases hterm : run.session.terminate
  · have hstep : run.step (.read count) = (.none, { run with
        session := { run.session with read := some ⟨count, [], .receive⟩ } }) := by
      simp [step, RpcSession.beginRead, readStep, hterm]
    rw [hstep]
    refine ⟨fun read heq => ?_, fun _ => rfl, fun hterm' => ?_, fun herror _ => ?_, h.isPrefix,
      fun hclosed _ => ?_, fun hor => ?_, fun count' bytes heq => ?_, h.reads⟩
    · rcases Option.some.inj heq
      exact hcount
    · exact absurd (hterm.symm.trans hterm') (by decide)
    · have hsplit := h.split herror hterm
      rw [hreceived] at hsplit
      exact hsplit
    · rcases h.disconnect hclosed hterm with hdisconnect | ⟨_, _, _, hwoken⟩
      · exact .inl hdisconnect
      · rw [hread] at hwoken
        cases hwoken
    · rcases hor with hdisconnect | hterm' | ⟨_, _, _, hwoken⟩
      · exact h.closed (.inl hdisconnect)
      · exact absurd (hterm.symm.trans hterm') (by decide)
      · cases Option.some.inj hwoken
    · cases Option.some.inj heq
  · have hstep : run.step (.read count) = (.failure, { run with
        reads := run.reads + 1, readFailed := true }) := by
      simp [step, RpcSession.beginRead, readStep, hterm]
    rw [hstep]
    exact ⟨h.received_lt, h.received_nil, h.read_none, h.split, h.isPrefix, h.disconnect, h.closed,
      h.wake, fun _ _ => rfl⟩

theorem endTurn_inv (h : Inv run) (hread : run.session.read = none) {session : RpcSession}
    (hsession : session = run.session ∧ run.session.decodeError = false ∨
      session = run.session.decodeFailed) : Inv (run.endTurn session) := by
  have hreceived := received_of_none hread
  rcases hsession with ⟨rfl, herror⟩ | rfl
  · exact ⟨h.received_lt, h.received_nil, h.read_none, h.split, h.isPrefix, h.disconnect, h.closed,
      h.wake, fun _ hreads => absurd hreads (Nat.lt_irrefl 0)⟩
  · have hfields : run.session.decodeFailed = { run.session with
        stream := []
        decodeError := run.session.decodeFailed.decodeError } ∧
        (run.session.terminate = false → run.session.decodeFailed.decodeError = true) := by
      unfold RpcSession.decodeFailed
      dsimp only
      split_ifs with hterm
      · exact ⟨rfl, fun hno => absurd (hterm.symm.trans hno) (by decide)⟩
      · exact ⟨rfl, fun _ => rfl⟩
    obtain ⟨hfields, herror⟩ := hfields
    rw [hfields]
    refine ⟨h.received_lt, fun _ => hreceived, h.read_none, fun hno hterm => ?_, h.isPrefix,
      h.disconnect, h.closed, fun count bytes heq => ?_,
      fun _ hreads => absurd hreads (Nat.lt_irrefl 0)⟩
    · exact absurd ((herror hterm).symm.trans hno) (by decide)
    · exact absurd (hread.symm.trans heq) (by simp)

/-- A step that receives: the read is successful, or everything there was is in its buffer. -/
theorem receive_cases (h : Inv run) {count : ℕ} {bytes : List UInt8}
    (hread : run.session.read = some ⟨count, bytes, .receive⟩) :
    (run.session.decodeError = false ∧ ∃ taken rest, run.session.stream = taken ++ rest ∧
      (bytes ++ taken).length = count ∧
      run.step .advance = (.success (bytes ++ taken), { run with
        session := { run.session with stream := rest, read := none }
        returned := run.returned ++ (bytes ++ taken)
        reads := run.reads + 1 })) ∨
    (run.session.decodeError = false ∧ (bytes ++ run.session.stream).length < count ∧
      run.step .advance = (.none, { run with
        session := { run.session with
          stream := [], read := some ⟨count, bytes ++ run.session.stream, .wait⟩ } })) ∨
    (run.session.decodeError = true ∧
      run.step .advance = (.none, { run with
        session := { run.session with
          stream := run.session.stream.drop count, read := some ⟨count, [], .wait⟩ } })) := by
  have hlt := h.received_lt _ hread
  change bytes.length < count at hlt
  rcases herror : run.session.decodeError
  · by_cases hfull : count = (bytes ++ run.session.stream.take (count - bytes.length)).length
    · refine .inl ⟨rfl, run.session.stream.take (count - bytes.length),
        run.session.stream.drop (count - bytes.length), (List.take_append_drop _ _).symm,
        hfull.symm, ?_⟩
      simp only [step, RpcSession.advance, hread, herror, readStep, Bool.false_eq_true, if_false,
        if_pos hfull]
    · have hshort : run.session.stream.length < count - bytes.length := by
        rw [List.length_append, List.length_take] at hfull
        omega
      have htake := List.take_of_length_le hshort.le
      have hdrop := List.drop_eq_nil_of_le hshort.le
      rw [htake] at hfull
      refine .inr (.inl ⟨rfl, by rw [List.length_append]; omega, ?_⟩)
      simp only [step, RpcSession.advance, hread, herror, readStep, Bool.false_eq_true, if_false,
        htake, hdrop, if_neg hfull]
  · have hnil : bytes = [] := by
      have hreceived := h.received_nil herror
      rw [received, hread] at hreceived
      exact hreceived
    have hne : ¬count = 0 := by omega
    refine .inr (.inr ⟨rfl, ?_⟩)
    simp only [step, RpcSession.advance, hread, herror, readStep, if_true, if_neg hne, hnil,
      List.length_nil, Nat.sub_zero]

theorem wait_cases {count : ℕ} {bytes : List UInt8}
    (hread : run.session.read = some ⟨count, bytes, .wait⟩) :
    (run.session.newData = false ∧ run.session.disconnect = false ∧
      run.step .advance = (.none, run)) ∨
    ((run.session.newData = true ∨ run.session.disconnect = true) ∧
      run.step .advance = (.none, { run with
        session := { run.session with
          newData := false
          disconnect := false
          read := some ⟨count, bytes,
            .woken run.session.newData run.session.disconnect⟩ } })) := by
  rcases hnew : run.session.newData <;> rcases hdisconnect : run.session.disconnect <;>
    simp [step, RpcSession.advance, hread, hnew, hdisconnect, readStep]

theorem woken_cases {count : ℕ} {bytes : List UInt8} {newData disconnect : Bool}
    (hread : run.session.read = some ⟨count, bytes, .woken newData disconnect⟩) :
    (disconnect = true ∧ run.session.stream = [] ∧
      run.step .advance = (.failure, { run with
        session := { run.session with terminate := true, read := none }
        reads := run.reads + 1
        readFailed := true })) ∨
    (disconnect = true ∧ run.session.stream ≠ [] ∧
      run.step .advance = (.none, { run with
        session := { run.session with
          disconnect := true, read := some ⟨count, bytes, .receive⟩ } })) ∨
    (disconnect = false ∧
      run.step .advance = (.none, { run with
        session := { run.session with read := some ⟨count, bytes, .receive⟩ } })) := by
  rcases disconnect
  · simp [step, RpcSession.advance, hread, readStep]
  · by_cases hstream : run.session.stream = [] <;>
      simp [step, RpcSession.advance, hread, readStep, hstream]

theorem advance_inv (h : Inv run) (hread : run.session.read ≠ none) :
    Inv (run.step .advance).2 := by
  obtain ⟨⟨count, bytes, place⟩, hread⟩ := Option.ne_none_iff_exists'.1 hread
  have hterm : run.session.terminate = false := by
    by_contra hno
    exact absurd (hread.symm.trans (h.read_none (Bool.eq_true_of_not_eq_false hno))) (by simp)
  have hreceived : run.received = bytes := by rw [received, hread]; rfl
  have hlt := h.received_lt _ hread
  rcases place with _ | _ | ⟨newData, disconnect⟩
  · have hnot : (∃ count' bytes' newData, run.session.read =
        some ⟨count', bytes', .woken newData true⟩) → False := by
      rintro ⟨_, _, _, hwoken⟩
      cases Option.some.inj (hread.symm.trans hwoken)
    have hdisconnect : run.closed = true → run.session.disconnect = true := fun hclosed =>
      (h.disconnect hclosed hterm).resolve_right hnot
    rcases receive_cases h hread with ⟨herror, taken, rest, hstream, -, hstep⟩ |
      ⟨herror, hshort, hstep⟩ | ⟨herror, hstep⟩
    · have hsplit := h.split herror hterm
      rw [hreceived, hstream] at hsplit
      rw [hstep]
      refine ⟨fun read heq => ?_, fun _ => rfl, fun _ => rfl, fun _ _ => ?_, ?_,
        fun hclosed _ => .inl (hdisconnect hclosed), fun hor => ?_, fun _ _ heq => ?_,
        fun hno => ?_⟩
      · cases heq
      · simp [received, ← hsplit]
      · show run.returned ++ (bytes ++ taken) <+: run.accepted
        rw [← hsplit]
        exact ⟨rest, by simp⟩
      · rcases hor with hor | hor | ⟨_, _, _, hwoken⟩
        · exact h.closed (.inl hor)
        · exact h.closed (.inr (.inl hor))
        · cases hwoken
      · cases heq
      · exact absurd (herror.symm.trans hno) (by decide)
    · have hsplit := h.split herror hterm
      rw [hreceived] at hsplit
      rw [hstep]
      refine ⟨fun read heq => ?_, fun hno => absurd (herror.symm.trans hno) (by decide),
        fun hno => absurd (hterm.symm.trans hno) (by decide), fun _ _ => ?_, h.isPrefix,
        fun hclosed _ => .inl (hdisconnect hclosed), fun hor => ?_, fun _ _ heq _ _ => ?_, h.reads⟩
      · rcases Option.some.inj heq
        exact hshort
      · simp [received, ← hsplit]
      · rcases hor with hor | hor | ⟨_, _, _, hwoken⟩
        · exact h.closed (.inl hor)
        · exact h.closed (.inr (.inl hor))
        · cases Option.some.inj hwoken
      · rcases Option.some.inj heq
        exact .inr (.inr hshort)
    · rw [hstep]
      refine ⟨fun read heq => ?_, fun _ => rfl,
        fun hno => absurd (hterm.symm.trans hno) (by decide),
        fun hno => absurd (herror.symm.trans hno) (by decide), h.isPrefix,
        fun hclosed _ => .inl (hdisconnect hclosed), fun hor => ?_,
        fun _ _ _ hno => absurd (herror.symm.trans hno) (by decide), h.reads⟩
      · rcases Option.some.inj heq
        exact Nat.zero_lt_of_lt hlt
      · rcases hor with hor | hor | ⟨_, _, _, hwoken⟩
        · exact h.closed (.inl hor)
        · exact h.closed (.inr (.inl hor))
        · cases Option.some.inj hwoken
  · rcases wait_cases hread with ⟨-, -, hstep⟩ | ⟨-, hstep⟩
    · rw [hstep]
      exact h
    · rw [hstep]
      refine ⟨fun read heq => ?_, fun herror => ?_,
        fun hno => absurd (hterm.symm.trans hno) (by decide), fun herror _ => ?_, h.isPrefix,
        fun hclosed _ => ?_, fun hor => ?_, fun _ _ heq => ?_, h.reads⟩
      · rcases Option.some.inj heq
        exact hlt
      · exact hreceived.symm.trans (h.received_nil herror)
      · have hsplit := h.split herror hterm
        rw [hreceived] at hsplit
        exact hsplit
      · rcases h.disconnect hclosed hterm with hdisconnect | ⟨_, _, _, hwoken⟩
        · exact .inr ⟨count, bytes, run.session.newData, by rw [hdisconnect]⟩
        · cases Option.some.inj (hread.symm.trans hwoken)
      · rcases hor with hor | hor | ⟨_, _, _, hwoken⟩
        · cases hor
        · exact h.closed (.inr (.inl hor))
        · injection Option.some.inj hwoken with _ _ hplace
          injection hplace with _ hdisconnect
          exact h.closed (.inl hdisconnect)
      · cases Option.some.inj heq
  · rcases woken_cases hread with ⟨rfl, -, hstep⟩ | ⟨rfl, -, hstep⟩ | ⟨rfl, hstep⟩
    · have hclosed := h.closed (.inr (.inr ⟨_, _, _, hread⟩))
      rw [hstep]
      refine ⟨fun read heq => ?_, fun _ => rfl, fun _ => rfl, fun _ hno => ?_, h.isPrefix,
        fun _ hno => ?_, fun _ => hclosed, fun _ _ heq => ?_, fun _ _ => rfl⟩
      · cases heq
      · cases hno
      · cases hno
      · cases heq
    · have hclosed := h.closed (.inr (.inr ⟨_, _, _, hread⟩))
      rw [hstep]
      refine ⟨fun read heq => ?_, fun herror => ?_,
        fun hno => absurd (hterm.symm.trans hno) (by decide), fun herror _ => ?_, h.isPrefix,
        fun _ _ => .inl rfl, fun _ => hclosed, fun _ _ heq => ?_, h.reads⟩
      · rcases Option.some.inj heq
        exact hlt
      · exact hreceived.symm.trans (h.received_nil herror)
      · have hsplit := h.split herror hterm
        rw [hreceived] at hsplit
        exact hsplit
      · cases Option.some.inj heq
    · rw [hstep]
      refine ⟨fun read heq => ?_, fun herror => ?_,
        fun hno => absurd (hterm.symm.trans hno) (by decide), fun herror _ => ?_, h.isPrefix,
        fun hclosed _ => ?_, fun hor => ?_, fun _ _ heq => ?_, h.reads⟩
      · rcases Option.some.inj heq
        exact hlt
      · exact hreceived.symm.trans (h.received_nil herror)
      · have hsplit := h.split herror hterm
        rw [hreceived] at hsplit
        exact hsplit
      · rcases h.disconnect hclosed hterm with hdisconnect | ⟨_, _, _, hwoken⟩
        · exact .inl hdisconnect
        · injection Option.some.inj (hread.symm.trans hwoken) with _ _ hplace
          injection hplace with _ hdisconnect
          cases hdisconnect
      · rcases hor with hor | hor | ⟨_, _, _, hwoken⟩
        · exact h.closed (.inl hor)
        · exact h.closed (.inr (.inl hor))
        · cases Option.some.inj hwoken
      · cases Option.some.inj heq

theorem step_inv (h : Inv run) {action : StreamAction} (henabled : Enabled run action) :
    Inv (run.step action).2 := by
  rcases action with bytes | _ | _ | count | _ | (_ | _ | _) | _
  · exact send_inv h bytes
  · exact notify_inv h
  · exact close_inv h
  · exact read_inv h henabled.1 henabled.2.1
  · exact advance_inv h henabled
  all_goals
    obtain ⟨hread, hrest⟩ := henabled
  · refine endTurn_inv h hread (.inl ⟨rfl, ?_⟩)
    by_contra hno
    exact absurd ((h.reads (Bool.eq_true_of_not_eq_false hno) hrest.2.1).symm.trans hrest.2.2)
      (by decide)
  · exact endTurn_inv h hread (.inr rfl)
  · refine endTurn_inv h hread (.inl ⟨rfl, ?_⟩)
    by_contra hno
    exact absurd ((h.reads (Bool.eq_true_of_not_eq_false hno) hrest.2.1).symm.trans hrest.2.2)
      (by decide)
  · exact endTurn_inv h hread (.inr rfl)

theorem Ends.of_next (h : Ends (run.step .advance).2) : Ends run := by
  obtain ⟨n, hn⟩ := h
  exact ⟨n + 1, hn⟩

theorem wait_step (h : Inv run) (hclosed : run.closed = true) {count : ℕ} {bytes : List UInt8}
    (hread : run.session.read = some ⟨count, bytes, .wait⟩) :
    run.step .advance = (.none, { run with
      session := { run.session with
        newData := false
        disconnect := false
        read := some ⟨count, bytes, .woken run.session.newData true⟩ } }) := by
  have hterm : run.session.terminate = false := by
    by_contra hno
    exact absurd (hread.symm.trans (h.read_none (Bool.eq_true_of_not_eq_false hno))) (by simp)
  have hdisconnect : run.session.disconnect = true := by
    rcases h.disconnect hclosed hterm with hdisconnect | ⟨_, _, _, hwoken⟩
    · exact hdisconnect
    · cases Option.some.inj (hread.symm.trans hwoken)
  rcases wait_cases hread with ⟨-, hno, -⟩ | ⟨-, hstep⟩
  · exact absurd (hdisconnect.symm.trans hno) (by decide)
  · rw [hstep, hdisconnect]

/-- By the length of the stream, which each turn of the loop that goes on makes shorter. -/
theorem receive_ends : ∀ (length : ℕ) {run : StreamRun}, Inv run → run.closed = true →
    run.session.stream.length = length → ∀ {count : ℕ} {bytes : List UInt8},
    run.session.read = some ⟨count, bytes, .receive⟩ → Ends run := by
  intro length
  induction length using Nat.strong_induction_on with
  | _ length ih =>
    intro run h hclosed hlength count bytes hread
    have hinv := advance_inv h (by simp [hread])
    -- From a wait the thread is woken, and goes on with a stream that is shorter.
    have hwait : ∀ {next : StreamRun}, Inv next → next.closed = true → ∀ bytes',
        next.session.read = some ⟨count, bytes', .wait⟩ →
        (next.session.stream = [] ∨ next.session.stream.length < length) → Ends next := by
      intro next hinv hclosed bytes' hread' hstream
      have hstep := wait_step hinv hclosed hread'
      have hinv' := advance_inv hinv (by simp [hread'])
      refine Ends.of_next ?_
      rw [hstep] at hinv' ⊢
      have hcases := @woken_cases { next with
        session := { next.session with
          newData := false
          disconnect := false
          read := some ⟨count, bytes', .woken next.session.newData true⟩ } }
        count bytes' next.session.newData true rfl
      rcases hcases with
        ⟨-, -, hstep'⟩ | ⟨-, hne, hstep'⟩ | ⟨hno, -⟩
      · exact ⟨0, by rw [Function.iterate_zero_apply, hstep']; simp⟩
      · have hinv'' := advance_inv hinv' (by simp)
        refine Ends.of_next ?_
        rw [hstep'] at hinv'' ⊢
        exact ih _ (hstream.resolve_left hne) hinv'' hclosed rfl rfl
      · cases hno
    have hlt := h.received_lt _ hread
    change bytes.length < count at hlt
    rcases receive_cases h hread with ⟨-, taken, rest, -, -, hstep⟩ | ⟨-, -, hstep⟩ | ⟨-, hstep⟩
    · exact ⟨0, by rw [Function.iterate_zero_apply, hstep]; simp⟩
    · refine Ends.of_next ?_
      rw [hstep] at hinv ⊢
      exact hwait hinv hclosed _ rfl (.inl rfl)
    · refine Ends.of_next ?_
      rw [hstep] at hinv ⊢
      refine hwait hinv hclosed _ rfl ?_
      show run.session.stream.drop count = [] ∨ (run.session.stream.drop count).length < length
      rw [List.length_drop, ← hlength]
      rcases run.session.stream with _ | ⟨byte, stream⟩
      · exact .inl List.drop_nil
      · have hpos := Nat.zero_lt_of_lt hlt
        right
        rw [List.length_cons]
        omega

theorem ends_of_closed (h : Inv run) (hclosed : run.closed = true)
    (hread : run.session.read ≠ none) : Ends run := by
  obtain ⟨⟨count, bytes, place⟩, hread⟩ := Option.ne_none_iff_exists'.1 hread
  have hinv := advance_inv h (by simp [hread])
  have hwoken : ∀ {next : StreamRun}, Inv next → next.closed = true → ∀ newData disconnect,
      next.session.read = some ⟨count, bytes, .woken newData disconnect⟩ → Ends next := by
    intro next hinv hclosed newData disconnect hread'
    have hinv' := advance_inv hinv (by simp [hread'])
    rcases woken_cases hread' with ⟨-, -, hstep⟩ | ⟨-, -, hstep⟩ | ⟨-, hstep⟩
    · exact ⟨0, by rw [Function.iterate_zero_apply, hstep]; simp⟩
    · refine Ends.of_next ?_
      rw [hstep] at hinv' ⊢
      exact receive_ends _ hinv' hclosed rfl rfl
    · refine Ends.of_next ?_
      rw [hstep] at hinv' ⊢
      exact receive_ends _ hinv' hclosed rfl rfl
  rcases place with _ | _ | ⟨newData, disconnect⟩
  · exact receive_ends _ h hclosed rfl hread
  · have hstep := wait_step h hclosed hread
    refine Ends.of_next ?_
    rw [hstep] at hinv ⊢
    exact hwoken hinv hclosed _ _ rfl
  · exact hwoken h hclosed _ _ hread

theorem blocked_iff (session : RpcSession) : session.blocked = true ↔
    (∃ count bytes, session.read = some ⟨count, bytes, .wait⟩) ∧ session.newData = false ∧
      session.disconnect = false := by
  unfold RpcSession.blocked
  rcases session.read with _ | ⟨count, bytes, _ | _ | _⟩ <;> simp

theorem awake_of_closed (h : Inv run) (hclosed : run.closed = true) :
    run.session.blocked = false := by
  by_contra hno
  obtain ⟨⟨count, bytes, hread⟩, -, hdisconnect⟩ :=
    (blocked_iff run.session).1 (Bool.eq_true_of_not_eq_false hno)
  have hterm : run.session.terminate = false := by
    by_contra hno
    exact absurd (hread.symm.trans (h.read_none (Bool.eq_true_of_not_eq_false hno))) (by simp)
  rcases h.disconnect hclosed hterm with hset | ⟨_, _, _, hwoken⟩
  · exact absurd (hset.symm.trans hdisconnect) (by decide)
  · cases Option.some.inj (hread.symm.trans hwoken)

theorem waits_of_inv (h : Inv run) (herror : run.session.decodeError = false) : Waits run := by
  intro read hblocked hread hfeeding
  obtain ⟨⟨count, bytes, hread'⟩, hnew, hdisconnect⟩ := (blocked_iff run.session).1 hblocked
  rcases Option.some.inj (hread'.symm.trans hread)
  rcases h.wake count bytes hread' herror hfeeding with hno | hno | hlt
  · exact absurd (hno.symm.trans hnew) (by decide)
  · exact absurd (hno.symm.trans hdisconnect) (by decide)
  · exact hlt

theorem advance_spec (h : Inv run) (hread : run.session.read ≠ none) :
    (∀ bytes, (run.step .advance).1 = .success bytes →
      (run.step .advance).2.returned = run.returned ++ bytes ∧
        ∃ read, run.session.read = some read ∧ bytes.length = read.count) ∧
    ((run.step .advance).1 = .failure → (run.step .advance).2.session.terminate = true ∧
      (run.step .advance).2.closed = true) ∧
    (run.step .advance).1 ≠ .message ∧
    (run.session.decodeError = false → ReadsRest run (run.step .advance).1) := by
  obtain ⟨⟨count, bytes, place⟩, hread⟩ := Option.ne_none_iff_exists'.1 hread
  have hterm : run.session.terminate = false := by
    by_contra hno
    exact absurd (hread.symm.trans (h.read_none (Bool.eq_true_of_not_eq_false hno))) (by simp)
  have hlt := h.received_lt _ hread
  -- What remains is what is in the buffer and in the stream.
  have hremaining : run.session.decodeError = false →
      run.remaining = bytes.length + run.session.stream.length := by
    intro herror
    have hsplit := congrArg List.length (h.split herror hterm)
    rw [List.length_append, List.length_append, received, hread] at hsplit
    change run.returned.length + bytes.length + _ = _ at hsplit
    rw [remaining]
    omega
  have hquiet : ∀ next, run.step .advance = (.none, next) →
      (∀ bytes, (run.step .advance).1 = .success bytes →
        (run.step .advance).2.returned = run.returned ++ bytes ∧
          ∃ read, run.session.read = some read ∧ bytes.length = read.count) ∧
      ((run.step .advance).1 = .failure → (run.step .advance).2.session.terminate = true ∧
        (run.step .advance).2.closed = true) ∧
      (run.step .advance).1 ≠ .message ∧
      (run.session.decodeError = false → ReadsRest run (run.step .advance).1) := by
    intro next hstep
    rw [hstep]
    exact ⟨nofun, nofun, nofun,
      fun _ _ _ _ hno => absurd rfl hno⟩
  rcases place with _ | _ | ⟨newData, disconnect⟩
  · rcases receive_cases h hread with ⟨herror, taken, rest, hstream, hlength, hstep⟩ |
      ⟨-, -, hstep⟩ | ⟨-, hstep⟩
    · rw [hstep]
      refine ⟨fun bytes' heq => ?_, nofun, nofun,
        fun herror read _ hread' _ => ⟨fun _ => ?_, fun _ => ⟨_, rfl⟩⟩⟩
      · rcases StreamOutput.success.inj heq
        exact ⟨rfl, _, hread, hlength⟩
      · rcases Option.some.inj (hread.symm.trans hread')
        have hlen := congrArg List.length hstream
        rw [List.length_append] at hlength hlen
        rw [hremaining herror]
        show count ≤ _
        omega
    · exact hquiet _ hstep
    · exact hquiet _ hstep
  · rcases wait_cases hread with ⟨-, -, hstep⟩ | ⟨-, hstep⟩
    · exact hquiet _ hstep
    · exact hquiet _ hstep
  · rcases woken_cases hread with ⟨rfl, hstream, hstep⟩ | ⟨-, -, hstep⟩ | ⟨-, hstep⟩
    · rw [hstep]
      refine ⟨nofun, fun _ => ⟨rfl, h.closed (.inr (.inr ⟨_, _, _, hread⟩))⟩,
        nofun, fun herror read _ hread' _ =>
          ⟨nofun, fun hle => ?_⟩⟩
      rcases Option.some.inj (hread.symm.trans hread')
      rw [hremaining herror, hstream] at hle
      exact absurd (Nat.lt_of_lt_of_le hlt hle) (Nat.lt_irrefl _)
    · exact hquiet _ hstep
    · exact hquiet _ hstep

theorem delivers_of_inv (h : Inv run) {action : StreamAction} (henabled : Enabled run action) :
    Delivers run (run.step action).1 (run.step action).2 ∧
      ((run.step action).2.session.decodeError = false →
        ReadsOn run (run.step action).1 (run.step action).2) := by
  have hinv := step_inv h henabled
  -- Only a step of a read is more than what the invariant says.
  have hof : (∀ bytes, (run.step action).1 = .success bytes →
        (run.step action).2.returned = run.returned ++ bytes ∧
          ∃ read, run.session.read = some read ∧ bytes.length = read.count) →
      ((run.step action).1 = .failure → (run.step action).2.session.terminate = true ∧
        (run.step action).2.closed = true) →
      ((run.step action).1 = .message → run.session.decodeError = false) →
      ((run.step action).2.session.decodeError = false → ReadsRest run (run.step action).1) →
      Delivers run (run.step action).1 (run.step action).2 ∧
        ((run.step action).2.session.decodeError = false →
          ReadsOn run (run.step action).1 (run.step action).2) :=
    fun hsuccess hfailure hmessage hrest =>
      ⟨⟨hinv.isPrefix, hsuccess, hfailure, awake_of_closed hinv, ends_of_closed hinv, hmessage⟩,
        fun herror => ⟨waits_of_inv hinv herror, hrest herror⟩⟩
  have hreads : 0 < run.reads → run.readFailed = false → run.session.decodeError = false := by
    intro hpos hfailed
    by_contra hno
    exact absurd ((h.reads (Bool.eq_true_of_not_eq_false hno) hpos).symm.trans hfailed) (by decide)
  rcases action with bytes | _ | _ | count | _ | (_ | _ | _) | _
  case read =>
    rcases hterm : run.session.terminate
    · have hstep : (run.step (.read count)).1 = .none := by
        simp [step, RpcSession.beginRead, readStep, hterm]
      rw [hstep] at hof ⊢
      exact hof nofun nofun nofun
        fun _ _ _ _ hno => absurd rfl hno
    · have hstep : run.step (.read count) = (.failure, { run with
          reads := run.reads + 1, readFailed := true }) := by
        simp [step, RpcSession.beginRead, readStep, hterm]
      rw [hstep] at hof ⊢
      refine hof nofun (fun _ => ⟨hterm, h.closed (.inr (.inl hterm))⟩)
        nofun fun _ read _ hread => ?_
      cases henabled.2.1.symm.trans hread
  case advance =>
    obtain ⟨hsuccess, hfailure, hmessage, hrest⟩ := advance_spec h henabled
    refine hof hsuccess hfailure (fun hno => absurd hno hmessage) fun herror => hrest ?_
    have hsame : (run.step .advance).2.session.decodeError = run.session.decodeError := by
      obtain ⟨⟨_, _, place⟩, hread⟩ := Option.ne_none_iff_exists'.1 henabled
      rcases place with _ | _ | ⟨_, _⟩
      · rcases receive_cases h hread with ⟨-, _, _, -, -, hstep⟩ | ⟨-, -, hstep⟩ | ⟨-, hstep⟩ <;>
          rw [hstep]
      · rcases wait_cases hread with ⟨-, -, hstep⟩ | ⟨-, hstep⟩ <;> rw [hstep]
      · rcases woken_cases hread with ⟨-, -, hstep⟩ | ⟨-, -, hstep⟩ | ⟨-, hstep⟩ <;> rw [hstep]
    rw [← hsame]
    exact herror
  case decoded.handled =>
    exact hof nofun nofun
      (fun _ => hreads henabled.2.2.1 henabled.2.2.2)
      fun _ read _ hread => by cases henabled.1.symm.trans hread
  all_goals
    exact hof nofun nofun nofun
      fun _ _ _ _ hno => absurd rfl hno

theorem stepsAlong_of_inv : ∀ {run : StreamRun} {actions : List StreamAction}, Inv run →
    Along Enabled step run actions →
    StepsAlong (fun run output next => Delivers run output next ∧
      (next.session.decodeError = false → ReadsOn run output next)) run actions
  | _, [], _, _ => trivial
  | _, _ :: _, h, ⟨henabled, hactions⟩ =>
    ⟨delivers_of_inv h henabled, stepsAlong_of_inv (step_inv h henabled) hactions⟩

/-- Every byte is read once and in order, and without an error of the decoder a read ends as soon as
it can. -/
theorem stepsAlong_delivers (actions : List StreamAction)
    (hactions : Along Enabled step opened actions) :
    StepsAlong (fun run output next => Delivers run output next ∧
      (next.session.decodeError = false → ReadsOn run output next)) opened actions :=
  stepsAlong_of_inv opened_inv hactions

/-- A message of two bytes, and a close in the middle of the next. -/
theorem stepsAlong_twoBytes : StepsAlong (fun run output next => Delivers run output next ∧
    (next.session.decodeError = false → ReadsOn run output next)) opened
    [.send [1, 2], .notify, .read 2, .advance, .decoded .handled, .close, .read 1, .advance,
      .advance, .advance, .failed] := by
  refine stepsAlong_delivers _ ⟨⟨rfl, by decide⟩, rfl, ⟨by decide, rfl, rfl⟩, ?_,
    ⟨rfl, rfl, by decide, rfl⟩, trivial, ⟨by decide, rfl, rfl⟩, ?_, ?_, ?_, ⟨rfl, rfl⟩, trivial⟩
  all_goals exact Option.some_ne_none _

/-- After an error of the decoder a byte that was fed is not read. -/
theorem not_stepsAlong_decodeError : ¬∀ actions : List StreamAction,
    Along Enabled step opened actions →
    StepsAlong (fun run output next => Delivers run output next ∧ ReadsOn run output next) opened
      actions := by
  intro h
  obtain ⟨-, -, -, -, -, -, -, -, -, -, -, ⟨-, -, hrest⟩, -⟩ := h
    [.send [0], .notify, .read 1, .advance, .failed, .send [1], .notify, .close, .read 1, .advance,
      .advance, .advance]
    ⟨⟨rfl, by decide⟩, rfl, ⟨by decide, rfl, rfl⟩, Option.some_ne_none _, ⟨rfl, rfl⟩,
      ⟨rfl, by decide⟩, rfl, trivial, ⟨by decide, rfl, rfl⟩, Option.some_ne_none _,
      Option.some_ne_none _, Option.some_ne_none _, trivial⟩
  obtain ⟨bytes, hbytes⟩ := (hrest _ rfl rfl (by decide)).2 (by decide)
  cases hbytes

end StreamRun

end KiisuFirmware
