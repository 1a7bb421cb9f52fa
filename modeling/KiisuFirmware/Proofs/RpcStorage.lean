import KiisuFirmware.RpcStorage
import KiisuFirmware.Run

/-!
# Chains of writes

Consecutive requests to write with one id are a chain. Each chain gets one answer, as long as none
goes on after it was answered and none is ended by a name that is refused.
-/

namespace KiisuFirmware

/-- A chain, with the bytes it sent and the answers it got. -/
structure WriteChain where
  commandId : UInt32
  data : List UInt8
  responses : List CommandStatus
  deriving DecidableEq

/-- A session, with the chain that has not come to its end. -/
structure StorageRun where
  system : RpcStorageSystem
  chain : Option WriteChain
  deriving DecidableEq

namespace StorageRun

def alloc : StorageRun := ⟨.alloc, none⟩

/-- The statuses that are sent for a command. -/
def answers (sent : List StorageMessage) (commandId : UInt32) : List CommandStatus :=
  (sent.filter (·.commandId = commandId)).map (·.commandStatus)

variable (run : StorageRun)

/-- The chain a request to write is part of, with what it sends and what is sent. -/
def extend (commandId : UInt32) (data : List UInt8) (sent : List StorageMessage) : WriteChain :=
  let chain := (run.chain.filter (·.commandId = commandId)).getD ⟨commandId, [], []⟩
  { chain with data := chain.data ++ data, responses := chain.responses ++ answers sent commandId }

/-- The chain that a request interrupts, with what is sent for it. -/
def interrupt (request : StorageCommand) (sent : List StorageMessage) :
    Option (WriteChain × List CommandStatus) :=
  match request.content with
  | .write _ _ _ => (run.chain.filter (·.commandId ≠ request.commandId)).map fun chain =>
    (chain, answers sent chain.commandId)
  | _ => run.chain.map fun chain =>
    (chain, answers (run.system.resetState true).1 chain.commandId)

/-- The chain that is left. -/
def next (request : StorageCommand) (sent : List StorageMessage) (system : RpcStorageSystem) :
    StorageRun :=
  match request.content with
  | .write _ hasFile data =>
    ⟨system, if request.hasNext then
      some (run.extend request.commandId (RpcStorageSystem.chunk hasFile data) sent) else none⟩
  | _ => ⟨system, none⟩

def step (fileCount md5Size : ℕ) (run : StorageRun) (action : StorageApi × StorageCommand) :
    Except RpcFault StorageRun := do
  let (sent, system) ← run.system.process fileCount md5Size action.1 action.2
  return run.next action.2 sent system

/-- A chain that ends has one answer. It is that it was interrupted, if it was not answered
before. -/
def InterruptedOnce (chain : WriteChain) (statuses : List CommandStatus) : Prop :=
  (chain.responses ++ statuses).length = 1 ∧
    (chain.responses = [] → statuses = [.errorContinuousCommandInterrupted])

/-- An answer that all is well ends the chain, and then the file holds all it sent. A chain that
ends has one answer. -/
def WrittenOnce (chain : WriteChain) (hasNext : Bool) (statuses : List CommandStatus)
    (file : WriteFile) : Prop :=
  (.ok ∈ statuses → hasNext = false ∧ file.data = chain.data) ∧
    (hasNext = false → chain.responses.length = 1)

/-- What a request does to the chains, and to the file. -/
structure Kept (fileCount md5Size : ℕ) (run : StorageRun) (action : StorageApi × StorageCommand)
    (sent : List StorageMessage) (system : RpcStorageSystem) : Prop where
  isOpen_iff : system.file.isOpen = true ↔ system.state = .writing
  interrupted : ∀ chain statuses, run.interrupt action.2 sent = some (chain, statuses) →
    InterruptedOnce chain statuses
  written : ∀ path hasFile data, action.2.content = .write path hasFile data →
    WrittenOnce (run.extend action.2.commandId (RpcStorageSystem.chunk hasFile data) sent)
      action.2.hasNext (answers sent action.2.commandId) system.file
  free : system.free.file.isOpen = false

/-- Along a run each request to write is answered, and each request keeps the chains. -/
def ChainsKept (fileCount md5Size : ℕ) :
    StorageRun → List (StorageApi × StorageCommand) → Prop :=
  ExecAlong (fun run action =>
    (∀ path hasFile data, action.2.content = .write path hasFile data →
      ∃ r, run.system.process fileCount md5Size action.1 action.2 = .ok r) ∧
    ∀ sent system, run.system.process fileCount md5Size action.1 action.2 = .ok (sent, system) →
      Kept fileCount md5Size run action sent system) (step fileCount md5Size)

/-- No chain goes on that was answered, and a name that is refused comes in no chain or in the one
that is being written. -/
def Sound (run : StorageRun) (action : StorageApi × StorageCommand) : Prop :=
  ∀ path hasFile data, action.2.content = .write path hasFile data →
    (∀ chain, run.chain = some chain → chain.commandId = action.2.commandId →
      run.system.state = .writing) ∧
    (pathContainsOnlyAscii path = false → run.system.state = .writing →
      run.system.currentCommandId = action.2.commandId)

/-- The chain that is being written is the last one and was not answered; any other was. -/
structure Inv (run : StorageRun) : Prop where
  isOpen_iff : run.system.file.isOpen = true ↔ run.system.state = .writing
  writing : run.system.state = .writing →
    run.chain = some ⟨run.system.currentCommandId, run.system.file.data, []⟩
  answered : run.system.state = .idle → ∀ chain, run.chain = some chain →
    chain.responses.length = 1

/-! ## Steps -/

/-- What comes of a request to write, where the chain has sent some bytes. -/
inductive Outcome (commandId : UInt32) (hasNext : Bool) (data : List UInt8) :
    List StorageMessage → RpcStorageSystem → Prop
  | failed {status : CommandStatus} {system : RpcStorageSystem} (hstatus : status ≠ .ok)
      (hopen : system.file.isOpen = false) (hstate : system.state = .idle) :
      Outcome commandId hasNext data [emptyMessage commandId status] system
  | more {system : RpcStorageSystem} (hnext : hasNext = true) (hopen : system.file.isOpen = true)
      (hstate : system.state = .writing) (hid : system.currentCommandId = commandId)
      (hdata : system.file.data = data) : Outcome commandId hasNext data [] system
  | done {system : RpcStorageSystem} (hnext : hasNext = false) (hopen : system.file.isOpen = false)
      (hstate : system.state = .idle) (hdata : system.file.data = data) :
      Outcome commandId hasNext data [emptyMessage commandId .ok] system

theorem resetState_spec (system : RpcStorageSystem) (sendError : Bool)
    (hopen : system.file.isOpen = true → system.state = .writing) :
    (system.resetState sendError).2.file.isOpen = false ∧
      (system.resetState sendError).2.state = .idle ∧
      (system.resetState sendError).2.file.data = system.file.data := by
  unfold RpcStorageSystem.resetState
  rcases hstate : system.state
  · refine ⟨?_, hstate, rfl⟩
    by_contra h
    have hwriting := hopen (Bool.eq_true_of_not_eq_false h)
    rw [hstate] at hwriting
    cases hwriting
  · exact ⟨rfl, rfl, rfl⟩

theorem writeStatus_ne_ok (error : FSError) : RpcStorageSystem.writeStatus error ≠ .ok := by
  unfold RpcStorageSystem.writeStatus
  split_ifs with h
  · decide
  · exact h

theorem writeChunk_spec (system : RpcStorageSystem) (api : StorageApi) (data : List UInt8) :
    ∃ error file, system.writeChunk api data = .ok (error, { system with file := file }) ∧
      file.isOpen = system.file.isOpen ∧ (error = none → file.data = system.file.data ++ data) := by
  unfold RpcStorageSystem.writeChunk
  split_ifs with hdata
  · exact ⟨none, system.file, rfl, rfl, fun _ => by rw [hdata, List.append_nil]⟩
  · refine ⟨if (data.take api.fileWrite.1).length = data.length then none else
      some api.fileWrite.2, { system.file with
        data := system.file.data ++ data.take api.fileWrite.1 }, ?_, rfl, fun herror => ?_⟩
    · simp [copyBytes, bind, Except.bind, pure, Except.pure]
    · have hlength : (data.take api.fileWrite.1).length = data.length := by
        by_contra hne
        rw [if_neg hne] at herror
        cases herror
      show system.file.data ++ data.take api.fileWrite.1 = system.file.data ++ data
      rw [List.take_of_length_le]
      rw [List.length_take] at hlength
      omega

/-- The bytes a chain has written. -/
def written (system : RpcStorageSystem) : List UInt8 :=
  if system.state = .writing then system.file.data else []

theorem openToWrite_spec {system : RpcStorageSystem} (api : StorageApi) {commandId : UInt32}
    (path : CString) (hopen : system.file.isOpen = true ↔ system.state = .writing)
    (hid : system.state = .writing → system.currentCommandId = commandId) :
    ∃ error opened, system.openToWrite api commandId path = (error, opened) ∧
      opened.state = .writing ∧ opened.currentCommandId = commandId ∧
      (error = none → opened.file = ⟨true, written system⟩) := by
  unfold RpcStorageSystem.openToWrite written
  rcases hstate : system.state
  · rcases hfile : api.fileOpen path with error | content
    · exact ⟨some error, _, rfl, rfl, rfl, fun h => by cases h⟩
    · exact ⟨none, _, rfl, rfl, rfl, fun _ => by simp⟩
  · refine ⟨none, system, rfl, hstate, hid hstate, fun _ => ?_⟩
    rw [if_pos rfl, ← hopen.2 hstate]

theorem continueWrite_spec (system : RpcStorageSystem) (api : StorageApi)
    (request : StorageCommand) (path : CString) (hasFile : Bool) (data : Option (List UInt8))
    (hopen : system.file.isOpen = true ↔ system.state = .writing)
    (hid : system.state = .writing → system.currentCommandId = request.commandId) :
    ∃ sent next, system.continueWrite api request (some path) hasFile data = .ok (sent, next) ∧
      Outcome request.commandId request.hasNext
        (written system ++ RpcStorageSystem.chunk hasFile data) sent next := by
  obtain ⟨error, opened, hcall, hstate, hcommand, hfile⟩ :=
    openToWrite_spec api path hopen hid
  unfold RpcStorageSystem.continueWrite
  simp only [allocSet, hcall, bind, Except.bind, pure, Except.pure]
  rcases error with _ | error
  · have hwritten := hfile rfl
    obtain ⟨error, file, hcall, hisOpen, hdata⟩ :=
      writeChunk_spec opened api (RpcStorageSystem.chunk hasFile data)
    rw [hwritten] at hisOpen hdata
    obtain ⟨hclosed, hidle, hsame⟩ := resetState_spec { opened with file := file } false
      fun _ => hstate
    simp only [hcall]
    rcases error with _ | error
    · simp only
      split_ifs with hnext
      · exact ⟨_, _, rfl, .more hnext hisOpen hstate hcommand (hdata rfl)⟩
      · refine ⟨_, _, rfl, ?_⟩
        rw [← hcommand]
        exact .done (Bool.eq_false_of_not_eq_true hnext) hclosed hidle (hsame.trans (hdata rfl))
    · refine ⟨_, _, rfl, ?_⟩
      rw [← hcommand]
      exact .failed (writeStatus_ne_ok error) hclosed hidle
  · obtain ⟨hclosed, hidle, -⟩ := resetState_spec opened false fun _ => hstate
    refine ⟨_, _, rfl, ?_⟩
    rw [← hcommand]
    exact .failed (writeStatus_ne_ok error) hclosed hidle

@[simp] theorem answers_nil (commandId : UInt32) : answers [] commandId = [] := rfl

@[simp] theorem answers_append (sent sent' : List StorageMessage) (commandId : UInt32) :
    answers (sent ++ sent') commandId = answers sent commandId ++ answers sent' commandId := by
  simp [answers]

@[simp] theorem answers_self (commandId : UInt32) (status : CommandStatus) :
    answers [emptyMessage commandId status] commandId = [status] := by
  simp [answers, emptyMessage]

theorem answers_other {commandId commandId' : UInt32} (h : commandId' ≠ commandId)
    (status : CommandStatus) : answers [emptyMessage commandId status] commandId' = [] := by
  simp [answers, emptyMessage, h.symm]

namespace Outcome

variable {commandId : UInt32} {hasNext : Bool} {data : List UInt8} {sent : List StorageMessage}
  {system : RpcStorageSystem}

theorem answers_other (h : Outcome commandId hasNext data sent system) {commandId' : UInt32}
    (hne : commandId' ≠ commandId) : answers sent commandId' = [] := by
  rcases h with ⟨-, -, -⟩ | ⟨-, -, -, -, -⟩ | ⟨-, -, -, -⟩
  · exact StorageRun.answers_other hne _
  · rfl
  · exact StorageRun.answers_other hne _

theorem isOpen_iff (h : Outcome commandId hasNext data sent system) :
    system.file.isOpen = true ↔ system.state = .writing := by
  rcases h with ⟨-, hopen, hstate⟩ | ⟨-, hopen, hstate, -, -⟩ | ⟨-, hopen, hstate, -⟩ <;>
    simp [hopen, hstate]

theorem writtenOnce (h : Outcome commandId hasNext data sent system) :
    WrittenOnce ⟨commandId, data, answers sent commandId⟩ hasNext (answers sent commandId)
      system.file := by
  rcases h with ⟨hstatus, -, -⟩ | ⟨hnext, -, -, -, -⟩ | ⟨hnext, -, -, hdata⟩
  · rw [answers_self]
    exact ⟨fun hok => absurd (List.mem_singleton.1 hok).symm hstatus, fun _ => rfl⟩
  · exact ⟨fun hok => absurd hok List.not_mem_nil, fun hno => by rw [hnext] at hno; cases hno⟩
  · rw [answers_self]
    exact ⟨fun _ => ⟨hnext, hdata⟩, fun _ => rfl⟩

theorem inv (h : Outcome commandId hasNext data sent system) :
    Inv ⟨system, if hasNext then some ⟨commandId, data, answers sent commandId⟩ else none⟩ := by
  refine ⟨h.isOpen_iff, fun hwriting => ?_, fun hidle chain hchain => ?_⟩
  · change system.state = .writing at hwriting
    rcases h with ⟨-, -, hstate⟩ | ⟨hnext, -, -, rfl, rfl⟩ | ⟨-, -, hstate, -⟩
    · rw [hstate] at hwriting
      cases hwriting
    · simp [hnext]
    · rw [hstate] at hwriting
      cases hwriting
  · change system.state = .idle at hidle
    change (if hasNext then some _ else none) = some chain at hchain
    rcases h with ⟨-, -, -⟩ | ⟨-, -, hstate, -, -⟩ | ⟨hnext, -, -, -⟩
    · split_ifs at hchain
      rcases Option.some.inj hchain
      simp
    · rw [hstate] at hidle
      cases hidle
    · simp [hnext] at hchain

end Outcome

theorem free_isOpen {system : RpcStorageSystem}
    (h : system.file.isOpen = true ↔ system.state = .writing) : system.free.file.isOpen = false :=
  (resetState_spec system false h.1).1

variable {fileCount md5Size : ℕ} {run : StorageRun} {api : StorageApi} {request : StorageCommand}

theorem kept_write {path : Option CString} {hasFile : Bool} {data : Option (List UInt8)}
    (hcontent : request.content = .write path hasFile data) (before : List UInt8)
    (interrupted sent : List StorageMessage) {system : RpcStorageSystem}
    (hcall : run.system.writeProcess api request path hasFile data =
      .ok (interrupted ++ sent, system))
    (houtcome : Outcome request.commandId request.hasNext
      (before ++ RpcStorageSystem.chunk hasFile data) sent system)
    (hbefore : (run.chain.filter (·.commandId = request.commandId)).getD
      ⟨request.commandId, [], []⟩ = ⟨request.commandId, before, []⟩)
    (hinterrupted : answers interrupted request.commandId = [])
    (hother : ∀ chain, run.chain = some chain → chain.commandId ≠ request.commandId →
      InterruptedOnce chain (answers interrupted chain.commandId)) :
    ∃ next, run.step fileCount md5Size (api, request) = .ok next ∧ Inv next ∧
      ∀ sent system, run.system.process fileCount md5Size api request = .ok (sent, system) →
        Kept fileCount md5Size run (api, request) sent system := by
  have hprocess : run.system.process fileCount md5Size api request =
      .ok (interrupted ++ sent, system) := by
    rw [RpcStorageSystem.process, hcontent]
    exact hcall
  have hextend : run.extend request.commandId (RpcStorageSystem.chunk hasFile data)
      (interrupted ++ sent) = ⟨request.commandId,
        before ++ RpcStorageSystem.chunk hasFile data, answers sent request.commandId⟩ := by
    simp [extend, hbefore, hinterrupted]
  refine ⟨run.next request (interrupted ++ sent) system, ?_, ?_, fun sent' system' hprocess' => ?_⟩
  · simp [step, hprocess, bind, Except.bind, pure, Except.pure]
  · have hnext : run.next request (interrupted ++ sent) system =
        ⟨system, if request.hasNext then some (run.extend request.commandId
          (RpcStorageSystem.chunk hasFile data) (interrupted ++ sent)) else none⟩ := by
      rw [next, hcontent]
    rw [hnext, hextend]
    exact houtcome.inv
  · rcases Except.ok.inj (hprocess.symm.trans hprocess')
    refine ⟨houtcome.isOpen_iff, fun chain statuses hchain => ?_,
      fun path' hasFile' data' hcontent' => ?_, free_isOpen houtcome.isOpen_iff⟩
    · simp only [interrupt, hcontent, Option.map_eq_some_iff, Option.filter_eq_some_iff,
        Prod.mk.injEq] at hchain
      obtain ⟨chain, ⟨hchain, hne⟩, rfl, rfl⟩ := hchain
      have hne' : chain.commandId ≠ request.commandId := by simpa using hne
      rw [answers_append, houtcome.answers_other hne', List.append_nil]
      exact hother chain hchain hne'
    · cases hcontent.symm.trans hcontent'
      show WrittenOnce (run.extend request.commandId (RpcStorageSystem.chunk hasFile data)
        (interrupted ++ sent)) _ _ _
      rw [hextend, answers_append, hinterrupted, List.nil_append]
      exact houtcome.writtenOnce

theorem interruptedOnce_of_idle (h : Inv run) (hidle : run.system.state = .idle)
    {chain : WriteChain} (hchain : run.chain = some chain) : InterruptedOnce chain [] := by
  have hlength := h.answered hidle chain hchain
  refine ⟨by rw [List.append_nil, hlength], fun hnil => ?_⟩
  rw [hnil] at hlength
  cases hlength

theorem step_write (h : Inv run) {path : Option CString} {hasFile : Bool}
    {data : Option (List UInt8)} (hcontent : request.content = .write path hasFile data)
    (hsound : Sound run (api, request)) :
    ∃ next, run.step fileCount md5Size (api, request) = .ok next ∧ Inv next ∧
      ∀ sent system, run.system.process fileCount md5Size api request = .ok (sent, system) →
        Kept fileCount md5Size run (api, request) sent system := by
  obtain ⟨hcontinue, hrefused⟩ := hsound path hasFile data hcontent
  change ∀ chain : WriteChain, _ → chain.commandId = request.commandId → _ at hcontinue
  -- An idle session goes on with no chain of this id.
  have hidle : run.system.state = .idle →
      (run.chain.filter (·.commandId = request.commandId)).getD ⟨request.commandId, [], []⟩ =
        ⟨request.commandId, [], []⟩ := by
    intro hstate
    rcases hchain : run.chain with _ | chain
    · rfl
    · by_cases heq : chain.commandId = request.commandId
      · rw [hcontinue chain hchain heq] at hstate
        cases hstate
      · simp [Option.filter, heq]
  have hsame : run.system.state = .writing → run.system.currentCommandId = request.commandId →
      (run.chain.filter (·.commandId = request.commandId)).getD ⟨request.commandId, [], []⟩ =
        ⟨request.commandId, run.system.file.data, []⟩ ∧
      ∀ chain, run.chain = some chain → chain.commandId ≠ request.commandId →
        InterruptedOnce chain [] := by
    intro hstate hid
    have hchain := h.writing hstate
    refine ⟨by simp [hchain, Option.filter, hid], fun chain hchain' hne => ?_⟩
    rcases Option.some.inj (hchain.symm.trans hchain')
    exact absurd hid hne
  by_cases hpath : pathContainsOnlyAscii path = true
  · obtain ⟨name, rfl⟩ : ∃ name, path = some name := by
      rcases path with _ | name
      · cases hpath
      · exact ⟨name, rfl⟩
    by_cases hreset : request.commandId ≠ run.system.currentCommandId ∧
        run.system.state = .writing
    · -- Another chain is interrupted.
      obtain ⟨hne, hstate⟩ := hreset
      have hchain := h.writing hstate
      obtain ⟨hclosed, hidle', -⟩ := resetState_spec run.system true h.isOpen_iff.1
      obtain ⟨sent, system, hcall, houtcome⟩ := continueWrite_spec (run.system.resetState true).2
        api request name hasFile data (by simp [hclosed, hidle'])
        fun hwriting => by rw [hidle'] at hwriting; cases hwriting
      rw [written, hidle', if_neg (by decide), List.nil_append] at houtcome
      have hsent : (run.system.resetState true).1 =
          [emptyMessage run.system.currentCommandId .errorContinuousCommandInterrupted] := by
        rw [RpcStorageSystem.resetState, hstate]
        rfl
      refine kept_write hcontent [] (run.system.resetState true).1 sent ?_ houtcome ?_ ?_
        fun chain hchain' _ => ?_
      · simp [RpcStorageSystem.writeProcess, hpath, hne, hstate, hcall, bind, Except.bind, pure,
          Except.pure]
      · simp [hchain, Option.filter, hne.symm]
      · rw [hsent]
        exact answers_other hne _
      · rcases Option.some.inj (hchain.symm.trans hchain')
        rw [hsent, answers_self]
        exact ⟨rfl, fun _ => rfl⟩
    · have hid : run.system.state = .writing → run.system.currentCommandId = request.commandId :=
        fun hstate => by
          by_contra hne
          exact hreset ⟨Ne.symm hne, hstate⟩
      obtain ⟨sent, system, hcall, houtcome⟩ := continueWrite_spec run.system api request name
        hasFile data h.isOpen_iff hid
      refine kept_write hcontent (written run.system) [] sent ?_ houtcome ?_ rfl
        fun chain hchain hne => ?_
      · simp [RpcStorageSystem.writeProcess, hpath, if_neg hreset, hcall, bind, Except.bind, pure,
          Except.pure]
      · rcases hstate : run.system.state
        · simpa [written, hstate] using hidle hstate
        · simpa [written, hstate] using (hsame hstate (hid hstate)).1
      · rcases hstate : run.system.state
        · exact interruptedOnce_of_idle h hstate hchain
        · exact (hsame hstate (hid hstate)).2 chain hchain hne
  · have hpath' : pathContainsOnlyAscii path = false := Bool.eq_false_of_not_eq_true hpath
    obtain ⟨hclosed, hidle', -⟩ := resetState_spec
      { run.system with currentCommandId := request.commandId } false h.isOpen_iff.1
    refine kept_write hcontent (written run.system) []
      [emptyMessage request.commandId .errorStorageInvalidName] ?_
      (.failed (by decide) hclosed hidle') ?_ rfl fun chain hchain hne => ?_
    · simp [RpcStorageSystem.writeProcess, hpath', pure, Except.pure]
    · rcases hstate : run.system.state
      · simpa [written, hstate] using hidle hstate
      · simpa [written, hstate] using (hsame hstate (hrefused hpath' hstate)).1
    · rcases hstate : run.system.state
      · exact interruptedOnce_of_idle h hstate hchain
      · exact (hsame hstate (hrefused hpath' hstate)).2 chain hchain hne

theorem step_other (h : Inv run)
    (hcontent : ∀ path hasFile data, request.content ≠ .write path hasFile data)
    {next : StorageRun} (hstep : run.step fileCount md5Size (api, request) = .ok next) :
    Inv next ∧ ∀ sent system,
      run.system.process fileCount md5Size api request = .ok (sent, system) →
        Kept fileCount md5Size run (api, request) sent system := by
  obtain ⟨hclosed, hidle, -⟩ := resetState_spec run.system true h.isOpen_iff.1
  have hprocess : ∀ sent system, run.system.process fileCount md5Size api request =
      .ok (sent, system) → system = (run.system.resetState true).2 := by
    intro sent system hcall
    unfold RpcStorageSystem.process at hcall
    split at hcall
    · next heq => exact absurd heq (hcontent _ _ _)
    · obtain ⟨sent', -, heq⟩ := bind_eq_ok hcall
      exact (Prod.mk.inj (Except.ok.inj heq)).2.symm
  have hnext : ∀ sent system, run.next request sent system = ⟨system, none⟩ := by
    intro sent system
    unfold StorageRun.next
    split
    · next heq => exact absurd heq (hcontent _ _ _)
    · rfl
  have hinterrupt : ∀ sent, run.interrupt request sent = run.chain.map fun chain =>
      (chain, answers (run.system.resetState true).1 chain.commandId) := by
    intro sent
    unfold interrupt
    split
    · next heq => exact absurd heq (hcontent _ _ _)
    · rfl
  have hisOpen : (run.system.resetState true).2.file.isOpen = true ↔
      (run.system.resetState true).2.state = .writing := by simp [hclosed, hidle]
  refine ⟨?_, fun sent system hcall => ?_⟩
  · obtain ⟨⟨sent, system⟩, hcall, heq⟩ := bind_eq_ok hstep
    rcases Except.ok.inj heq
    rw [hnext, hprocess sent system hcall]
    refine ⟨hisOpen, fun hwriting => ?_, fun _ chain hchain => by cases hchain⟩
    exact absurd (hidle.symm.trans hwriting) (by decide)
  · rw [hprocess sent system hcall]
    refine ⟨hisOpen, fun chain statuses hchain => ?_,
      fun path hasFile data hwrite => absurd hwrite (hcontent path hasFile data),
      free_isOpen hisOpen⟩
    rw [hinterrupt, Option.map_eq_some_iff] at hchain
    obtain ⟨chain, hchain, heq⟩ := hchain
    rcases Prod.mk.inj heq with ⟨rfl, rfl⟩
    rcases hstate : run.system.state
    · have hsent : (run.system.resetState true).1 = [] := by
        rw [RpcStorageSystem.resetState, hstate]
      rw [hsent]
      exact interruptedOnce_of_idle h hstate hchain
    · have hsent : (run.system.resetState true).1 =
          [emptyMessage run.system.currentCommandId .errorContinuousCommandInterrupted] := by
        rw [RpcStorageSystem.resetState, hstate]
        rfl
      rcases Option.some.inj ((h.writing hstate).symm.trans hchain)
      rw [hsent, answers_self]
      exact ⟨rfl, fun _ => rfl⟩

theorem chainsKept_of_inv : ∀ {run : StorageRun} {actions : List (StorageApi × StorageCommand)},
    Inv run → ExecAlong Sound (step fileCount md5Size) run actions →
    ChainsKept fileCount md5Size run actions
  | _, [], _, _ => trivial
  | run, (api, request) :: _, h, ⟨hsound, hactions⟩ => by
    by_cases hwrite : ∃ path hasFile data, request.content = .write path hasFile data
    · obtain ⟨path, hasFile, data, hcontent⟩ := hwrite
      obtain ⟨next, hstep, hinv, hkept⟩ := step_write h hcontent hsound
      obtain ⟨r, hprocess, -⟩ := bind_eq_ok hstep
      refine ⟨⟨fun _ _ _ _ => ⟨r, hprocess⟩, hkept⟩, fun next' hnext => ?_⟩
      rcases Except.ok.inj (hstep.symm.trans hnext) with rfl
      exact chainsKept_of_inv hinv (hactions next hnext)
    · have hcontent : ∀ path hasFile data, request.content ≠ .write path hasFile data :=
        fun path hasFile data heq => hwrite ⟨path, hasFile, data, heq⟩
      refine ⟨⟨fun path hasFile data heq => absurd heq (hcontent path hasFile data),
        fun sent system hcall => ?_⟩, fun next hnext => ?_⟩
      · have hstep : run.step fileCount md5Size (api, request) =
            .ok (run.next request sent system) := by
          simp [step, hcall, bind, Except.bind, pure, Except.pure]
        exact (step_other h hcontent hstep).2 sent system hcall
      · exact chainsKept_of_inv (step_other h hcontent hnext).1 (hactions next hnext)

theorem alloc_inv : Inv alloc :=
  ⟨by simp [alloc, RpcStorageSystem.alloc], fun h => RpcStorageState.noConfusion h,
    fun _ _ h => absurd h (by simp [alloc])⟩

/-- Every chain is answered once, in a session that goes on with no chain that was. -/
theorem chainsKept_of_sound (fileCount md5Size : ℕ) (actions : List (StorageApi × StorageCommand))
    (hactions : ExecAlong Sound (step fileCount md5Size) alloc actions) :
    ChainsKept fileCount md5Size alloc actions :=
  chainsKept_of_inv alloc_inv hactions

/-- Two bytes in two requests. -/
theorem chainsKept_twoChunks : ChainsKept 8 33 alloc
    [(.calm, ⟨1, true, .write (some ['a']) true (some [1])⟩),
      (.calm, ⟨1, false, .write (some ['a']) true (some [2])⟩)] := by
  refine chainsKept_of_sound 8 33 _ ⟨fun path hasFile data _ => ?_, fun next hnext => ?_⟩
  · exact ⟨fun chain hchain => absurd hchain (by simp [alloc]),
      fun _ hstate => RpcStorageState.noConfusion hstate⟩
  rcases Except.ok.inj hnext
  refine ⟨fun path hasFile data hcontent => ⟨fun _ _ _ => rfl, fun _ _ => rfl⟩, fun _ _ => trivial⟩

/-- A chain that is ended by a name that is refused gets no answer. -/
theorem not_chainsKept_refused : ¬∀ (fileCount md5Size : ℕ)
    (actions : List (StorageApi × StorageCommand)), ChainsKept fileCount md5Size alloc actions := by
  intro h
  obtain ⟨-, h⟩ := h 8 33 [(.calm, ⟨1, true, .write (some ['a']) true (some [1])⟩),
    (.calm, ⟨2, false, .write (some ['?']) true (some [2])⟩)]
  obtain ⟨⟨-, hkept⟩, -⟩ := h _ rfl
  have hinterrupted := (hkept _ _ rfl).interrupted _ _ rfl
  exact absurd hinterrupted.1 (by decide)

end StorageRun

end KiisuFirmware
