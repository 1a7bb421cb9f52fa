import KiisuFirmware.ExpansionProtocol
import KiisuFirmware.Run

/-!
# The expansion worker

The thread of `expansion_worker.c`, with everything it asks of the rest of the system kept in a
trace. What comes back to it is a round: what is received, and how the calls of its handler end.
-/

namespace KiisuFirmware

inductive ExpansionWorkerState
  | handShake
  | connected
  | rpcActive
  deriving DecidableEq, Repr

inductive ExpansionWorkerExitReason
  | unknown
  | user
  | error
  | timeout
  deriving DecidableEq, Repr

inductive ExpansionFrameError
  | none
  | baudRate
  deriving DecidableEq, Repr

inductive RecordName
  | rpc
  | power
  deriving DecidableEq, Repr

inductive WorkerEffect
  | insomniaEnter
  | serialControlAcquire
  | serialInit
  | asyncRxStart
  | sendHeartbeat
  | sendStatusResponse (error : ExpansionFrameError)
  | handle (frame : ExpansionFrame)
  | serialSetBr (baudRate : UInt32)
  | recordOpen (name : RecordName)
  | recordClose (name : RecordName)
  | rpcSessionOpen (session : ℕ)
  | rpcSessionClose (session : ℕ)
  | rpcSessionFeed (session : Option ℕ) (data : List UInt8)
  | semaphoreAlloc (semaphore : ℕ)
  | semaphoreRelease (semaphore : Option ℕ)
  | semaphoreFree (semaphore : Option ℕ)
  | powerEnableOtg (enable : Bool)
  | leave
  | asyncRxStop
  | serialControlRelease
  | insomniaExit
  | callback
  deriving DecidableEq

/-- What the worker knows, and its trace. Sessions and semaphores are numbered as they are made;
`allocated` is the next number. -/
structure ExpansionWorker where
  rpcSession : Option ℕ
  txSemaphore : Option ℕ
  state : ExpansionWorkerState
  exitReason : ExpansionWorkerExitReason
  callback : Bool
  allocated : ℕ
  trace : List WorkerEffect
  deriving DecidableEq

/-- What a receive ends with; where it fails it may have a reason for the worker to leave. -/
inductive WorkerReceived
  | frame (frame : ExpansionFrame)
  | failed (exitReason : Option ExpansionWorkerExitReason)

structure WorkerRound where
  received : WorkerReceived
  isBaudRateSupported : Bool
  sessionOpens : Bool
  sent : Bool
  sizeConsumed : ℕ

def ExpansionFrame.baudRate (frame : ExpansionFrame) : UInt32 :=
  (frame.memory.getD 1 0).toUInt32 ||| (frame.memory.getD 2 0).toUInt32 <<< 8 |||
    (frame.memory.getD 3 0).toUInt32 <<< 16 ||| (frame.memory.getD 4 0).toUInt32 <<< 24

namespace ExpansionWorker

def commandStartRpc : UInt8 := 0

def commandStopRpc : UInt8 := 1

def commandEnableOtg : UInt8 := 2

def commandDisableOtg : UInt8 := 3

def log (worker : ExpansionWorker) (effect : WorkerEffect) : ExpansionWorker :=
  { worker with trace := worker.trace ++ [effect] }

def sendHeartbeat (worker : ExpansionWorker) (sent : Bool) : Bool × ExpansionWorker :=
  (sent, worker.log .sendHeartbeat)

def sendStatusResponse (worker : ExpansionWorker) (error : ExpansionFrameError) (sent : Bool) :
    Bool × ExpansionWorker :=
  (sent, worker.log (.sendStatusResponse error))

def rpcSessionOpen (worker : ExpansionWorker) (opens : Bool) : Bool × ExpansionWorker :=
  let worker := worker.log (.recordOpen .rpc)
  if opens then
    let worker := { worker with rpcSession := some worker.allocated }.log
      (.rpcSessionOpen worker.allocated)
    let worker := { worker with txSemaphore := some worker.allocated }.log
      (.semaphoreAlloc worker.allocated)
    (true, { worker with allocated := worker.allocated + 1 })
  else (false, { worker with rpcSession := none })

def rpcSessionClose (worker : ExpansionWorker) : ExpansionWorker :=
  let worker :=
    match worker.rpcSession with
    | some session => (worker.log (.rpcSessionClose session)).log (.semaphoreFree worker.txSemaphore)
    | none => worker
  worker.log (.recordClose .rpc)

def powerEnableOtg (worker : ExpansionWorker) (enable : Bool) : ExpansionWorker :=
  ((worker.log (.recordOpen .power)).log (.powerEnableOtg enable)).log (.recordClose .power)

def handleStateHandshake (worker : ExpansionWorker) (round : WorkerRound)
    (rxFrame : ExpansionFrame) : Bool × ExpansionWorker :=
  if rxFrame.type ≠ some .baudRate then (false, worker)
  else if round.isBaudRateSupported then
    let worker := { worker with state := .connected }
    let sent := worker.sendStatusResponse .none round.sent
    if sent.1 then (true, sent.2.log (.serialSetBr rxFrame.baudRate)) else (false, sent.2)
  else worker.sendStatusResponse .baudRate round.sent

def handleStateConnected (worker : ExpansionWorker) (round : WorkerRound)
    (rxFrame : ExpansionFrame) : Bool × ExpansionWorker :=
  if rxFrame.type = some .control then
    if rxFrame.controlCommand = commandStartRpc then
      let opened := worker.rpcSessionOpen round.sessionOpens
      if opened.1 then
        { opened.2 with state := .rpcActive }.sendStatusResponse .none round.sent
      else (false, opened.2)
    else if rxFrame.controlCommand = commandEnableOtg then
      (worker.powerEnableOtg true).sendStatusResponse .none round.sent
    else if rxFrame.controlCommand = commandDisableOtg then
      (worker.powerEnableOtg false).sendStatusResponse .none round.sent
    else (false, worker)
  else if rxFrame.type = some .heartbeat then worker.sendHeartbeat round.sent
  else (false, worker)

def handleStateRpcActive (worker : ExpansionWorker) (round : WorkerRound)
    (rxFrame : ExpansionFrame) : Bool × ExpansionWorker :=
  if rxFrame.type = some .data then
    let sent := worker.sendStatusResponse .none round.sent
    if sent.1 then
      (decide (round.sizeConsumed = rxFrame.dataSize),
        sent.2.log (.rpcSessionFeed worker.rpcSession rxFrame.dataBytes))
    else (false, sent.2)
  else if rxFrame.type = some .control then
    if rxFrame.controlCommand = commandStopRpc then
      { worker with state := .connected }.rpcSessionClose.sendStatusResponse .none round.sent
    else (false, worker)
  else if rxFrame.type = some .status then
    if rxFrame.statusError ≠ 0 then (false, worker)
    else (true, worker.log (.semaphoreRelease worker.txSemaphore))
  else if rxFrame.type = some .heartbeat then worker.sendHeartbeat round.sent
  else (false, worker)

/-- One turn of the loop of the state machine; it is left with an error. -/
def stateMachine (worker : ExpansionWorker) (round : WorkerRound) :
    Except ExpansionWorker ExpansionWorker :=
  match round.received with
  | .failed exitReason => .error { worker with exitReason := exitReason.getD worker.exitReason }
  | .frame rxFrame =>
    let worker := worker.log (.handle rxFrame)
    let handled :=
      match worker.state with
      | .handShake => worker.handleStateHandshake round rxFrame
      | .connected => worker.handleStateConnected round rxFrame
      | .rpcActive => worker.handleStateRpcActive round rxFrame
    if handled.1 then .ok handled.2 else .error handled.2

/-- What follows the loop. -/
def finish (worker : ExpansionWorker) : ExpansionWorker :=
  let worker := (worker.log .leave).log .asyncRxStop
  let worker := if worker.state = .rpcActive then worker.rpcSessionClose else worker
  let worker := (worker.log .serialControlRelease).log .insomniaExit
  if worker.exitReason ≠ .user ∧ worker.callback = true then worker.log .callback else worker

/-- A worker as it is allocated. -/
def alloc (callback : Bool) : ExpansionWorker where
  rpcSession := none
  txSemaphore := none
  state := .handShake
  exitReason := .unknown
  callback := callback
  allocated := 0
  trace := []

/-- The worker when its loop begins, and whether it does. -/
def start (callback sent : Bool) : Bool × ExpansionWorker :=
  ((((alloc callback).log .insomniaEnter).log .serialControlAcquire).log .serialInit).log
    .asyncRxStart |>.sendHeartbeat sent

/-- The worker after some rounds, or, as an error, the one that has ended by then. -/
def expansionWorker (callback sent : Bool) (rounds : List WorkerRound) :
    Except ExpansionWorker ExpansionWorker :=
  let started := start callback sent
  if started.1 then (exec stateMachine started.2 rounds).mapError finish
  else .error started.2.finish

end ExpansionWorker

end KiisuFirmware
