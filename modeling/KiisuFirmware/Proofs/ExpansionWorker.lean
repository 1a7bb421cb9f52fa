import KiisuFirmware.ExpansionWorker

/-!
# What the expansion worker opens, it closes

Of everything the worker asks for, what has to be given back makes up blocks: a session from the
opening of its record to the closing of it. While the loop runs there are only whole blocks, and
the beginning of one more just if a session is active (`Inv`). A session that does not open leaves
its record behind (`Lost`), and the loop with it.
-/

namespace KiisuFirmware

namespace ExpansionWorker

/-- What has to be given back for a session, and the giving back. -/
def isResource : WorkerEffect → Bool
  | .recordOpen .rpc | .recordClose .rpc | .rpcSessionOpen _ | .rpcSessionClose _
  | .semaphoreAlloc _ | .semaphoreFree _ => true
  | _ => false

def opening (n : ℕ) : List WorkerEffect := [.recordOpen .rpc, .rpcSessionOpen n, .semaphoreAlloc n]

def closing (n : ℕ) : List WorkerEffect :=
  [.rpcSessionClose n, .semaphoreFree (some n), .recordClose .rpc]

/-- So many sessions, one after the other. -/
def completed : ℕ → List WorkerEffect
  | 0 => []
  | n + 1 => completed n ++ (opening n ++ closing n)

/-- A session was opened and not closed. -/
def SessionOpen (trace : List WorkerEffect) : Prop :=
  ∃ session, .rpcSessionOpen session ∈ trace ∧ .rpcSessionClose session ∉ trace

/-- Everything that was opened was closed, and once. -/
structure Balanced (trace : List WorkerEffect) : Prop where
  records : ∀ name, trace.count (.recordClose name) = trace.count (.recordOpen name)
  sessions : ∀ session, trace.count (.rpcSessionClose session) =
    trace.count (.rpcSessionOpen session) ∧ trace.count (.rpcSessionOpen session) ≤ 1
  semaphores : ∀ semaphore, trace.count (.semaphoreFree (some semaphore)) =
    trace.count (.semaphoreAlloc semaphore) ∧ trace.count (.semaphoreAlloc semaphore) ≤ 1

/-- After the worker has left the loop no frame is handled. -/
def HandledBefore (trace : List WorkerEffect) : Prop :=
  ∃ before after, trace = before ++ .leave :: after ∧ .leave ∉ before ∧
    ∀ frame, WorkerEffect.handle frame ∉ after

structure Inv (worker : ExpansionWorker) (n : ℕ) : Prop where
  allocated : worker.allocated = if worker.state = .rpcActive then n + 1 else n
  resources : worker.trace.filter isResource =
    completed n ++ if worker.state = .rpcActive then opening n else []
  session : worker.state = .rpcActive → worker.rpcSession = some n ∧ worker.txSemaphore = some n
  power : worker.trace.count (.recordClose .power) = worker.trace.count (.recordOpen .power)
  inLoop : .leave ∉ worker.trace

/-- A record was opened for a session that did not. -/
structure Lost (worker : ExpansionWorker) (n : ℕ) : Prop where
  state : worker.state ≠ .rpcActive
  resources : worker.trace.filter isResource = completed n ++ [.recordOpen .rpc]
  inLoop : .leave ∉ worker.trace

/-- A frame the worker answers by opening a session. -/
def startsRpc (worker : ExpansionWorker) (round : WorkerRound) : Prop :=
  worker.state = .connected ∧ ∃ frame, round.received = .frame frame ∧
    frame.type = some .control ∧ frame.controlCommand = commandStartRpc

/-- The session opens, if one is asked for. -/
def Opens (worker : ExpansionWorker) (round : WorkerRound) : Prop :=
  startsRpc worker round → round.sessionOpens = true

variable {w : ExpansionWorker} {n : ℕ}

/-! ## Blocks -/

theorem count_completed_records (n : ℕ) :
    (completed n).count (.recordOpen .rpc) = n ∧ (completed n).count (.recordClose .rpc) = n := by
  induction n with
  | zero => exact ⟨rfl, rfl⟩
  | succ n ih =>
    simp only [completed, opening, closing, List.count_append, List.count_cons, List.count_nil, ih]
    simp

theorem count_completed_sessions (n s : ℕ) :
    (completed n).count (.rpcSessionOpen s) = (if s < n then 1 else 0) ∧
      (completed n).count (.rpcSessionClose s) = if s < n then 1 else 0 := by
  induction n with
  | zero => exact ⟨rfl, rfl⟩
  | succ n ih =>
    simp only [completed, opening, closing, List.count_append, List.count_cons, List.count_nil, ih]
    rcases Nat.lt_trichotomy s n with h | h | h
    · simp [h, h.ne', Nat.lt_succ_of_lt h]
    · simp [h]
    · simp [h.ne, Nat.not_lt.2 h.le, Nat.not_lt.2 (Nat.succ_le_of_lt h)]

theorem count_completed_semaphores (n s : ℕ) :
    (completed n).count (.semaphoreAlloc s) = (if s < n then 1 else 0) ∧
      (completed n).count (.semaphoreFree (some s)) = if s < n then 1 else 0 := by
  induction n with
  | zero => exact ⟨rfl, rfl⟩
  | succ n ih =>
    simp only [completed, opening, closing, List.count_append, List.count_cons, List.count_nil, ih]
    rcases Nat.lt_trichotomy s n with h | h | h
    · simp [h, h.ne', Nat.lt_succ_of_lt h]
    · simp [h]
    · simp [h.ne, Nat.not_lt.2 h.le, Nat.not_lt.2 (Nat.succ_le_of_lt h)]

theorem count_resource {trace resources : List WorkerEffect} {effect : WorkerEffect}
    (h : trace.filter isResource = resources) (heffect : isResource effect = true) :
    trace.count effect = resources.count effect := by
  rw [← h, List.count_filter heffect]

theorem balanced_of_completed {trace : List WorkerEffect}
    (h : trace.filter isResource = completed n)
    (hpower : trace.count (.recordClose .power) = trace.count (.recordOpen .power)) :
    Balanced trace where
  records name := by
    cases name with
    | power => exact hpower
    | rpc =>
      rw [count_resource h rfl, count_resource h rfl, (count_completed_records n).1,
        (count_completed_records n).2]
  sessions s := by
    rw [count_resource h rfl, count_resource h rfl, (count_completed_sessions n s).1,
      (count_completed_sessions n s).2]
    refine ⟨rfl, ?_⟩
    split_ifs <;> omega
  semaphores s := by
    rw [count_resource h rfl, count_resource h rfl, (count_completed_semaphores n s).1,
      (count_completed_semaphores n s).2]
    refine ⟨rfl, ?_⟩
    split_ifs <;> omega

theorem sessionOpen_iff (h : Inv w n) : SessionOpen w.trace ↔ w.state = .rpcActive := by
  have hresources := h.resources
  have hmem : ∀ effect, isResource effect = true →
      (effect ∈ w.trace ↔ 0 < (w.trace.filter isResource).count effect) := by
    intro effect heffect
    rw [List.count_filter heffect, List.count_pos_iff]
  constructor
  · rintro ⟨s, hopen, hclose⟩
    by_contra hstate
    rw [if_neg hstate, List.append_nil] at hresources
    rw [hmem _ rfl, hresources, (count_completed_sessions n s).1] at hopen
    rw [hmem _ rfl, hresources, (count_completed_sessions n s).2] at hclose
    exact hclose hopen
  · intro hstate
    rw [if_pos hstate] at hresources
    refine ⟨n, ?_, ?_⟩
    · rw [hmem _ rfl, hresources, List.count_append]
      simp [opening]
    · rw [hmem _ rfl, hresources, List.count_append, (count_completed_sessions n n).2]
      simp [opening]

/-! ## One turn of the loop -/

theorem Inv.log (h : Inv w n) {effect : WorkerEffect} (heffect : isResource effect = false)
    (hopen : effect ≠ .recordOpen .power) (hclose : effect ≠ .recordClose .power)
    (hleave : effect ≠ .leave) : Inv (w.log effect) n where
  allocated := h.allocated
  resources := by
    have hfilter : (w.trace ++ [effect]).filter isResource = w.trace.filter isResource := by
      rw [List.filter_append, List.filter_singleton, heffect]
      exact List.append_nil _
    exact hfilter.trans h.resources
  session := h.session
  power := by
    have hcount := h.power
    have hclose' : [effect].count (.recordClose .power) = 0 :=
      List.count_eq_zero.2 (by simpa using hclose.symm)
    have hopen' : [effect].count (.recordOpen .power) = 0 :=
      List.count_eq_zero.2 (by simpa using hopen.symm)
    simp only [ExpansionWorker.log, List.count_append, hcount, hclose', hopen']
  inLoop := by
    simp only [ExpansionWorker.log, List.mem_append, List.mem_singleton, not_or]
    exact ⟨h.inLoop, hleave.symm⟩

theorem Inv.sendStatusResponse (h : Inv w n) (error : ExpansionFrameError) (sent : Bool) :
    Inv (w.sendStatusResponse error sent).2 n :=
  h.log rfl nofun nofun nofun

theorem Inv.sendHeartbeat (h : Inv w n) (sent : Bool) : Inv (w.sendHeartbeat sent).2 n :=
  h.log rfl nofun nofun nofun

theorem Inv.powerEnableOtg (h : Inv w n) (enable : Bool) : Inv (w.powerEnableOtg enable) n where
  allocated := h.allocated
  resources := by
    have hfilter : (w.powerEnableOtg enable).trace.filter isResource =
        w.trace.filter isResource := by
      simp [ExpansionWorker.powerEnableOtg, ExpansionWorker.log, isResource]
    exact hfilter.trans h.resources
  session := h.session
  power := by
    have hcount := h.power
    simp only [ExpansionWorker.powerEnableOtg, ExpansionWorker.log, List.count_append,
      List.count_cons, List.count_nil]
    simp [hcount]
  inLoop := by
    have hin := h.inLoop
    simpa [ExpansionWorker.powerEnableOtg, ExpansionWorker.log] using hin

theorem Inv.connected (h : Inv w n) (hstate : w.state ≠ .rpcActive) :
    Inv { w with state := .connected } n where
  allocated := by
    have hallocated := h.allocated
    rw [if_neg hstate] at hallocated
    exact hallocated
  resources := by
    have hresources := h.resources
    rw [if_neg hstate] at hresources
    exact hresources
  session := nofun
  power := h.power
  inLoop := h.inLoop

theorem Inv.rpcSessionOpen (h : Inv w n) (hstate : w.state ≠ .rpcActive) :
    (w.rpcSessionOpen true).1 = true ∧
      Inv { (w.rpcSessionOpen true).2 with state := .rpcActive } n := by
  have hallocated := h.allocated
  have hresources := h.resources
  have hpower := h.power
  have hin := h.inLoop
  rw [if_neg hstate] at hallocated hresources
  rw [List.append_nil] at hresources
  refine ⟨rfl, ?_, ?_, fun _ => ?_, ?_, ?_⟩
  · simp [ExpansionWorker.rpcSessionOpen, ExpansionWorker.log, hallocated]
  · simp [ExpansionWorker.rpcSessionOpen, ExpansionWorker.log, List.filter_append, hresources,
      isResource, opening, hallocated]
  · simp [ExpansionWorker.rpcSessionOpen, ExpansionWorker.log, hallocated]
  · simp [ExpansionWorker.rpcSessionOpen, ExpansionWorker.log, List.count_append, hpower]
  · simpa [ExpansionWorker.rpcSessionOpen, ExpansionWorker.log] using hin

theorem Inv.lost (h : Inv w n) (hstate : w.state ≠ .rpcActive) :
    (w.rpcSessionOpen false).1 = false ∧ Lost (w.rpcSessionOpen false).2 n := by
  have hresources := h.resources
  have hin := h.inLoop
  rw [if_neg hstate, List.append_nil] at hresources
  refine ⟨rfl, hstate, ?_, ?_⟩
  · simp [ExpansionWorker.rpcSessionOpen, ExpansionWorker.log, List.filter_append, hresources,
      isResource]
  · simpa [ExpansionWorker.rpcSessionOpen, ExpansionWorker.log] using hin

theorem rpcSessionClose_eq {s : ℕ} (h : w.rpcSession = some s) (hsem : w.txSemaphore = some s) :
    w.rpcSessionClose = { w with trace := w.trace ++ closing s } := by
  unfold ExpansionWorker.rpcSessionClose
  rw [h]
  simp [ExpansionWorker.log, h, hsem, closing]

theorem Inv.rpcSessionClose (h : Inv w n) (hstate : w.state = .rpcActive) :
    Inv { w with state := .connected }.rpcSessionClose (n + 1) := by
  have hallocated := h.allocated
  have hresources := h.resources
  have hpower := h.power
  have hin := h.inLoop
  obtain ⟨hsession, hsemaphore⟩ := h.session hstate
  rw [if_pos hstate] at hallocated hresources
  rw [rpcSessionClose_eq (w := { w with state := .connected }) hsession hsemaphore]
  refine ⟨hallocated, ?_, nofun, ?_, ?_⟩
  · simp [List.filter_append, hresources, isResource, closing, opening, completed]
  · simp [List.count_append, hpower, closing]
  · simpa [closing] using hin

theorem handleStateHandshake_inv (h : Inv w n) (hstate : w.state = .handShake)
    (round : WorkerRound) (rxFrame : ExpansionFrame) :
    Inv (w.handleStateHandshake round rxFrame).2 n := by
  unfold handleStateHandshake
  by_cases htype : rxFrame.type ≠ some .baudRate
  · rw [if_pos htype]
    exact h
  · rw [if_neg htype]
    by_cases hsupported : round.isBaudRateSupported = true
    · rw [if_pos hsupported]
      have hsent := (h.connected (by rw [hstate]; nofun)).sendStatusResponse .none round.sent
      dsimp only
      split_ifs
      · exact hsent.log rfl nofun nofun nofun
      · exact hsent
    · rw [if_neg hsupported]
      exact h.sendStatusResponse .baudRate round.sent

theorem handleStateConnected_inv (h : Inv w n) (hstate : w.state = .connected)
    {round : WorkerRound} {rxFrame : ExpansionFrame}
    (hopens : rxFrame.type = some .control → rxFrame.controlCommand = commandStartRpc →
      round.sessionOpens = true) :
    Inv (w.handleStateConnected round rxFrame).2 n := by
  unfold handleStateConnected
  by_cases hcontrol : rxFrame.type = some .control
  · rw [if_pos hcontrol]
    by_cases hstart : rxFrame.controlCommand = commandStartRpc
    · rw [if_pos hstart, hopens hcontrol hstart]
      obtain ⟨hopened, hinv⟩ := h.rpcSessionOpen (by rw [hstate]; nofun)
      dsimp only
      rw [if_pos hopened]
      exact hinv.sendStatusResponse .none round.sent
    · rw [if_neg hstart]
      split_ifs
      · exact (h.powerEnableOtg true).sendStatusResponse .none round.sent
      · exact (h.powerEnableOtg false).sendStatusResponse .none round.sent
      · exact h
  · rw [if_neg hcontrol]
    split_ifs
    · exact h.sendHeartbeat round.sent
    · exact h

theorem handleStateRpcActive_inv (h : Inv w n) (hstate : w.state = .rpcActive)
    (round : WorkerRound) (rxFrame : ExpansionFrame) :
    ∃ m, Inv (w.handleStateRpcActive round rxFrame).2 m := by
  unfold handleStateRpcActive
  by_cases hdata : rxFrame.type = some .data
  · rw [if_pos hdata]
    have hsent := h.sendStatusResponse .none round.sent
    dsimp only
    split_ifs
    · exact ⟨n, hsent.log rfl nofun nofun nofun⟩
    · exact ⟨n, hsent⟩
  · rw [if_neg hdata]
    by_cases hcontrol : rxFrame.type = some .control
    · rw [if_pos hcontrol]
      split_ifs
      · exact ⟨n + 1, (h.rpcSessionClose hstate).sendStatusResponse .none round.sent⟩
      · exact ⟨n, h⟩
    · rw [if_neg hcontrol]
      split_ifs
      · exact ⟨n, h⟩
      · exact ⟨n, h.log rfl nofun nofun nofun⟩
      · exact ⟨n, h.sendHeartbeat round.sent⟩
      · exact ⟨n, h⟩

/-- A turn in which the session opens, if it is to, keeps the invariant, also where it is the
last. -/
theorem stateMachine_inv (h : Inv w n) {round : WorkerRound} (hopens : Opens w round) :
    Yields (fun w' => ∃ m, Inv w' m) (fun w' => ∃ m, Inv w' m) (w.stateMachine round) := by
  unfold stateMachine
  cases hreceived : round.received with
  | failed exitReason => exact ⟨n, h.allocated, h.resources, h.session, h.power, h.inLoop⟩
  | frame rxFrame =>
    have hlog : Inv (w.log (.handle rxFrame)) n := h.log rfl (by simp) (by simp) (by simp)
    dsimp only
    cases hstate : (w.log (.handle rxFrame)).state with
    | handShake =>
      have hhandled := handleStateHandshake_inv hlog hstate round rxFrame
      dsimp only
      split_ifs
      · exact ⟨n, hhandled⟩
      · exact ⟨n, hhandled⟩
    | connected =>
      have hhandled := handleStateConnected_inv hlog hstate fun hcontrol hstart =>
        hopens ⟨hstate, rxFrame, hreceived, hcontrol, hstart⟩
      dsimp only
      split_ifs
      · exact ⟨n, hhandled⟩
      · exact ⟨n, hhandled⟩
    | rpcActive =>
      have hhandled := handleStateRpcActive_inv hlog hstate round rxFrame
      dsimp only
      split_ifs
      · exact hhandled
      · exact hhandled

theorem stateMachine_lost (h : Inv w n) {round : WorkerRound} (hopens : ¬Opens w round) :
    ∃ w', w.stateMachine round = .error w' ∧ Lost w' n := by
  unfold Opens at hopens
  rw [Classical.not_imp] at hopens
  obtain ⟨⟨hstate, rxFrame, hreceived, hcontrol, hstart⟩, hsession⟩ := hopens
  rw [Bool.not_eq_true] at hsession
  have hlog : Inv (w.log (.handle rxFrame)) n := h.log rfl nofun nofun nofun
  have hstate' : (w.log (.handle rxFrame)).state = .connected := hstate
  obtain ⟨hopened, hlost⟩ := hlog.lost (by rw [hstate']; nofun)
  refine ⟨_, ?_, hlost⟩
  unfold stateMachine
  rw [hreceived]
  simp only [hstate', handleStateConnected, if_pos hcontrol, if_pos hstart, hsession, hopened,
    Bool.false_eq_true, if_false]

/-! ## The thread -/

theorem exec_ends : ∀ (rounds : List WorkerRound) {w : ExpansionWorker}, (∃ n, Inv w n) →
    Yields (fun w' => ∃ n, Inv w' n)
      (fun w' => ExecAlong Opens stateMachine w rounds ∧ (∃ n, Inv w' n) ∨
        ¬ExecAlong Opens stateMachine w rounds ∧ ∃ n, Lost w' n)
      (exec stateMachine w rounds)
  | [], w, h => h
  | round :: rounds, w, ⟨n, h⟩ => by
    rw [exec, List.foldlM_cons]
    by_cases hopens : Opens w round
    · have hstep := stateMachine_inv h hopens
      cases hw : w.stateMachine round with
      | error w' =>
        rw [hw] at hstep
        refine .inl ⟨⟨hopens, fun w'' hw'' => ?_⟩, hstep⟩
        rw [hw] at hw''
        cases hw''
      | ok w' =>
        rw [hw] at hstep
        have hrest := exec_ends rounds hstep
        refine hrest.mono (fun _ hinv => hinv) ?_
        rintro w'' (⟨halong, hinv⟩ | ⟨halong, hlost⟩)
        · refine .inl ⟨⟨hopens, fun w₁ hw₁ => ?_⟩, hinv⟩
          rw [hw] at hw₁
          cases hw₁
          exact halong
        · exact .inr ⟨fun hall => halong (hall.2 w' hw), hlost⟩
    · obtain ⟨w', hw, hlost⟩ := stateMachine_lost h hopens
      rw [hw]
      exact .inr ⟨fun hall => hopens hall.1, n, hlost⟩

/-- What is said to whoever waits for the end. -/
def lastCall (worker : ExpansionWorker) : List WorkerEffect :=
  if worker.exitReason ≠ .user ∧ worker.callback = true then [.callback] else []

theorem lastCall_eq (w : ExpansionWorker) : w.lastCall = [.callback] ∨ w.lastCall = [] := by
  unfold lastCall
  split_ifs
  · exact .inl rfl
  · exact .inr rfl

theorem finish_trace (h : w.state ≠ .rpcActive) :
    w.finish.trace = w.trace ++ .leave ::
      ([.asyncRxStop, .serialControlRelease, .insomniaExit] ++ w.lastCall) := by
  unfold finish lastCall
  simp only [ExpansionWorker.log, h, if_false]
  split_ifs <;> simp

theorem finish_trace_active (h : w.state = .rpcActive) {s : ℕ} (hsession : w.rpcSession = some s)
    (hsemaphore : w.txSemaphore = some s) :
    w.finish.trace = w.trace ++ .leave ::
      (.asyncRxStop :: closing s ++ [.serialControlRelease, .insomniaExit] ++ w.lastCall) := by
  unfold finish lastCall
  simp only [ExpansionWorker.log, h, if_true, rpcSessionClose, hsession]
  split_ifs <;> simp [closing, hsemaphore]

theorem Inv.finish (h : Inv w n) : Balanced w.finish.trace ∧ HandledBefore w.finish.trace := by
  have hpower := h.power
  have hresources := h.resources
  by_cases hstate : w.state = .rpcActive
  · obtain ⟨hsession, hsemaphore⟩ := h.session hstate
    have htrace := finish_trace_active hstate hsession hsemaphore
    rw [if_pos hstate] at hresources
    rcases lastCall_eq w with hlast | hlast
    all_goals
      rw [hlast] at htrace
      refine ⟨balanced_of_completed (n := n + 1) ?_ ?_, w.trace, _, htrace, h.inLoop, ?_⟩
      · rw [htrace]
        simp only [List.filter_append, List.filter_cons, hresources, closing, completed,
          List.append_assoc]
        rfl
      · rw [htrace]
        simp [List.count_append, closing, hpower]
      · simp [closing]
  · have htrace := finish_trace hstate
    rw [if_neg hstate, List.append_nil] at hresources
    rcases lastCall_eq w with hlast | hlast
    all_goals
      rw [hlast] at htrace
      refine ⟨balanced_of_completed (n := n) ?_ ?_, w.trace, _, htrace, h.inLoop, ?_⟩
      · rw [htrace]
        simp [List.filter_append, hresources, isResource]
      · rw [htrace]
        simp [List.count_append, hpower]
      · simp

theorem Lost.finish (h : Lost w n) : ¬Balanced w.finish.trace ∧ HandledBefore w.finish.trace := by
  have hresources := h.resources
  have htrace := finish_trace h.state
  rcases lastCall_eq w with hlast | hlast
  all_goals
    rw [hlast] at htrace
    refine ⟨fun hbalanced => ?_, w.trace, _, htrace, h.inLoop, by simp⟩
    have hfilter : w.finish.trace.filter isResource = completed n ++ [.recordOpen .rpc] := by
      rw [htrace]
      simp [List.filter_append, hresources, isResource]
    have hrecords := hbalanced.records .rpc
    rw [count_resource hfilter rfl, count_resource hfilter rfl, List.count_append,
      List.count_append, (count_completed_records n).1, (count_completed_records n).2] at hrecords
    simp at hrecords

theorem start_inv (callback sent : Bool) : Inv (start callback sent).2 0 where
  allocated := rfl
  resources := rfl
  session := nofun
  power := rfl
  inLoop := by simp [start, alloc, ExpansionWorker.log, ExpansionWorker.sendHeartbeat]

/-- While the worker runs a session is open just if it is active. When it has ended everything it
opened was closed, just if every session it asked for did open. -/
theorem worker_resources (callback sent : Bool) (rounds : List WorkerRound) :
    Yields (fun w => SessionOpen w.trace ↔ w.state = .rpcActive)
      (fun w => HandledBefore w.trace ∧ (Balanced w.trace ↔
        (sent = true → ExecAlong Opens stateMachine (start callback sent).2 rounds)))
      (expansionWorker callback sent rounds) := by
  unfold expansionWorker
  have hstart := start_inv callback sent
  cases sent with
  | false =>
    obtain ⟨hbalanced, hhandled⟩ := hstart.finish
    exact ⟨hhandled, iff_of_true hbalanced nofun⟩
  | true =>
    have hends := exec_ends rounds ⟨0, hstart⟩
    dsimp only
    rw [if_pos (show (start callback true).1 = true from rfl)]
    cases hexec : exec stateMachine (start callback true).2 rounds with
    | ok w =>
      rw [hexec] at hends
      obtain ⟨n, hinv⟩ := hends
      exact sessionOpen_iff hinv
    | error w =>
      rw [hexec] at hends
      rcases hends with ⟨halong, n, hinv⟩ | ⟨halong, n, hlost⟩
      · exact ⟨hinv.finish.2, iff_of_true hinv.finish.1 fun _ => halong⟩
      · exact ⟨hlost.finish.2, iff_of_false hlost.finish.1 fun hall => halong (hall rfl)⟩

/-- A frame of this type with a byte of contents. -/
def shortFrame (type content : UInt8) : ExpansionFrame :=
  ⟨type :: content :: List.replicate 64 0, rfl⟩

/-- A baud rate is agreed on, then a session is asked for and does not open. -/
def roundsWithoutSession : List WorkerRound :=
  [⟨.frame (shortFrame 3 0), true, true, true, 0⟩, ⟨.frame (shortFrame 4 0), true, false, true, 0⟩]

theorem record_lost : ∃ w, expansionWorker true true roundsWithoutSession = .error w ∧
    w.trace.count (.recordOpen .rpc) = 1 ∧ w.trace.count (.recordClose .rpc) = 0 := by
  refine ⟨_, rfl, ?_, ?_⟩
  · decide
  · decide

end ExpansionWorker

end KiisuFirmware
