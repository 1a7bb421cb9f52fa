import KiisuFirmware.RpcApp

/-!
# The loader

`loader.c` and `loader_queue.c`: the messages of the service that starts applications. What is
allocated is counted, and so is what is asked of the power service. A record of the launch queue has
a number by which it is told from the others.
-/

namespace KiisuFirmware

inductive FlipperApplicationPreloadStatus
  | invalidFile
  | notEnoughMemory
  | invalidManifest
  | apiTooOld
  | apiTooNew
  | targetMismatch
  deriving DecidableEq

inductive FlipperApplicationLoadStatus
  | unspecifiedError
  | missingImports
  deriving DecidableEq

/-- What becomes of a file that is loaded as an application. -/
inductive FapStart
  | preloadFailed (status : FlipperApplicationPreloadStatus)
  | loadFailed (status : FlipperApplicationLoadStatus)
  | plugin
  /-- With the name of its thread. -/
  | loaded (threadName : CString)
  deriving DecidableEq

/-- `LoaderStatusError`. -/
inductive LoaderError
  | unknown
  | invalidFile
  | invalidManifest
  | missingImports
  | hwMismatch
  | outdatedApp
  | outOfMemory
  | outdatedFirmware
  deriving DecidableEq

structure LoaderStatusResult where
  value : LoaderStatus
  error : LoaderError
  message : CString
  deriving DecidableEq

/-- `FlipperInternalApplication`. -/
structure InternalApplication where
  name : CString
  appid : CString
  insomniaSafe : Bool
  deriving DecidableEq

/-- The lists of the firmware, which are generated. -/
structure FlipperApps where
  internal : List InternalApplication
  /-- Names and paths. -/
  external : List (CString × CString)

/-- The thread of the application, or the marker of a lock. -/
inductive LoaderThread
  | magic
  | app (name : CString)
  deriving DecidableEq

/-- A pointer that is not set back when what it points to is freed. -/
inductive LaunchPath
  | null
  | live (path : CString)
  | freed
  deriving DecidableEq

/-- What is allocated for applications, and the requests to stay awake. -/
structure LoaderHeap where
  launchPaths : ℕ
  args : ℕ
  faps : ℕ
  threads : ℕ
  insomnia : ℕ
  deriving DecidableEq

structure LoaderAppData where
  launchPath : LaunchPath
  args : Option CString
  thread : Option LoaderThread
  insomniac : Bool
  fap : Bool
  deriving DecidableEq

structure LaunchRecord where
  number : ℕ
  nameOrPath : CString
  args : Option CString
  /-- The flag for a dialog. -/
  gui : Bool
  deriving DecidableEq

inductive LoaderEvent
  | applicationBeforeLoad
  | applicationLoadFailed
  | applicationStopped
  | noMoreAppsInQueue
  deriving DecidableEq

/-- The service, with the events it has published, the dialogs it has shown, how many records were
put into the queue, which were taken from it to be launched, and whose strings were freed. -/
structure Loader where
  app : LoaderAppData
  launchQueue : List LaunchRecord
  loaderMenu : Bool
  loaderApplications : Bool
  heap : LoaderHeap
  published : List LoaderEvent
  dialogs : List (CString × LoaderStatusResult)
  enqueued : ℕ
  launched : List ℕ
  freed : List ℕ
  deriving DecidableEq

inductive LoaderFault
  | check
  | assert
  | invalidFree
  /-- The marker of a lock is used as a thread. -/
  | invalidThread
  deriving DecidableEq

/-! ## The launch queue -/

def loaderQueueMaxSize : ℕ := 4

namespace Loader

def alloc : Loader where
  app := ⟨.null, none, none, false, false⟩
  launchQueue := []
  loaderMenu := false
  loaderApplications := false
  heap := ⟨0, 0, 0, 0, 0⟩
  published := []
  dialogs := []
  enqueued := 0
  launched := []
  freed := []

variable (loader : Loader)

def loaderQueueItemClear (record : LaunchRecord) : Loader :=
  { loader with freed := loader.freed ++ [record.number] }

def loaderQueuePush (name : CString) (args : Option CString) (gui : Bool) :
    Except LoaderFault Loader :=
  if loader.launchQueue.length = loaderQueueMaxSize then .error .check
  else .ok { loader with
    launchQueue := loader.launchQueue ++ [⟨loader.enqueued, name, args, gui⟩]
    enqueued := loader.enqueued + 1 }

def loaderQueueClear : Loader :=
  { loader with
    freed := loader.freed ++ loader.launchQueue.map LaunchRecord.number
    launchQueue := [] }

/-! ## Starting an application -/

def publish (event : LoaderEvent) : Loader :=
  { loader with published := loader.published ++ [event] }

/-- An application with a name or an id. -/
def findApplicationByName (apps : FlipperApps) (name : CString) : Option InternalApplication :=
  apps.internal.find? fun app => name = app.name || name = app.appid

def findExternalApplicationByName (apps : FlipperApps) (name : CString) : Option CString :=
  (apps.external.find? fun app => app.1 = name).map Prod.snd

/-- The thread is there; the device stays awake unless the application is safe without. -/
def startAppThread (insomniaSafe : Bool) : Loader :=
  if insomniaSafe then { loader with app := { loader.app with insomniac := false } }
  else { loader with
    app := { loader.app with insomniac := true }
    heap := { loader.heap with insomnia := loader.heap.insomnia + 1 } }

def allocThread (name : CString) : Loader :=
  { loader with
    app := { loader.app with thread := some (.app name) }
    heap := { loader.heap with threads := loader.heap.threads + 1 } }

/-- Arguments are stored if there are any. -/
def storeArgs (args : Option CString) : Loader :=
  match args with
  | none => loader
  | some args =>
    if args = [] then loader
    else { loader with
      app := { loader.app with args := some args }
      heap := { loader.heap with args := loader.heap.args + 1 } }

def startInternalApp (app : InternalApplication) (args : Option CString) :
    Except LoaderFault Loader :=
  if loader.app.args.isSome then .error .assert
  else .ok (((loader.storeArgs args).allocThread app.name).startAppThread app.insomniaSafe)

def errorFromPreloadStatus : FlipperApplicationPreloadStatus → LoaderError
  | .invalidFile => .invalidFile
  | .notEnoughMemory => .outOfMemory
  | .invalidManifest => .invalidManifest
  | .apiTooOld => .outdatedApp
  | .apiTooNew => .outdatedFirmware
  | .targetMismatch => .hwMismatch

def errorFromLoadStatus : FlipperApplicationLoadStatus → LoaderError
  | .missingImports => .missingImports
  | .unspecifiedError => .unknown

def preloadStatusToString : FlipperApplicationPreloadStatus → CString
  | .invalidFile => "Invalid file".toList
  | .notEnoughMemory => "Not enough memory".toList
  | .invalidManifest => "Invalid file manifest".toList
  | .apiTooOld => "Update Application to use with this Firmware (ApiTooOld)".toList
  | .apiTooNew => "Update Firmware to use with this Application (ApiTooNew)".toList
  | .targetMismatch => "Hardware target mismatch".toList

def loadStatusToString : FlipperApplicationLoadStatus → CString
  | .unspecifiedError => "Unknown error".toList
  | .missingImports => "Update Firmware to use with this Application (MissingImports)".toList

def successStatus : LoaderStatusResult := ⟨.ok, .unknown, "App started".toList⟩

/-- Why a file does not start. -/
def fapError (path : CString) : FapStart → LoaderStatusResult
  | .preloadFailed status => ⟨.errorInternal, errorFromPreloadStatus status,
    "Preload failed, ".toList ++ path ++ ": ".toList ++ preloadStatusToString status⟩
  | .loadFailed status => ⟨.errorInternal, errorFromLoadStatus status,
    "Load failed, ".toList ++ path ++ ": ".toList ++ loadStatusToString status⟩
  | .plugin => ⟨.errorInternal, .unknown,
    "Plugin ".toList ++ path ++ " is not runnable".toList⟩
  | .loaded _ => successStatus

def allocFap : Loader :=
  { loader with
    app := { loader.app with fap := true }
    heap := { loader.heap with faps := loader.heap.faps + 1 } }

def freeFap : Loader :=
  { loader with
    app := { loader.app with fap := false }
    heap := { loader.heap with faps := loader.heap.faps - 1 } }

def startExternalApp (path : CString) (start : FapStart) : LoaderStatusResult × Loader :=
  match start with
  | .loaded threadName =>
    (successStatus, (loader.allocFap.allocThread threadName).startAppThread false)
  | start => (fapError path start, loader.allocFap.freeFap.publish .applicationLoadFailed)

def doApplicationsShow : Loader := { loader with loaderApplications := true }

def doIsLocked : Bool := loader.app.thread.isSome

/-- "Apps". -/
def loaderApplicationsName : CString := ['A', 'p', 'p', 's']

def lockedStatus : LoaderThread → LoaderStatusResult
  | .magic => ⟨.errorAppStarted, .unknown, "Loader is locked".toList⟩
  | .app name => ⟨.errorAppStarted, .unknown,
    "Loader is locked, please close the \"".toList ++ name ++ "\" first".toList⟩

def setLaunchPath (name : CString) : Loader :=
  { loader with
    app := { loader.app with launchPath := .live name }
    heap := { loader.heap with launchPaths := loader.heap.launchPaths + 1 } }

/-- `fap` is what becomes of a file, if there is one. -/
def doStartByName (apps : FlipperApps) (fap : CString → Option FapStart) (name : CString)
    (args : Option CString) : Except LoaderFault (LoaderStatusResult × Loader) :=
  let loader := loader.publish .applicationBeforeLoad
  match loader.app.thread with
  | some thread => .ok (lockedStatus thread, loader)
  | none =>
    match findApplicationByName apps name with
    | some app => do
      let loader ← loader.startInternalApp app args
      return (successStatus, loader.setLaunchPath name)
    | none =>
      if name = loaderApplicationsName then
        .ok (successStatus, loader.doApplicationsShow.setLaunchPath name)
      else
        let name := (findExternalApplicationByName apps name).getD name
        match fap name with
        | some start =>
          let (status, loader) := loader.startExternalApp name start
          .ok (status, if status.value = .ok then loader.setLaunchPath name else loader)
        | none => .ok (⟨.errorUnknownApp, .unknown,
          "Application \"".toList ++ name ++ "\" not found".toList⟩, loader)

def showGuiError (status : LoaderStatusResult) (name : CString) : Loader :=
  { loader with dialogs := loader.dialogs ++ [(name, status)] }

/-! ## Messages -/

def doLock : Bool × Loader :=
  match loader.app.thread with
  | some _ => (false, loader)
  | none => (true, { loader with app := { loader.app with thread := some .magic } })

def doUnlock : Except LoaderFault Loader :=
  if loader.app.thread = some .magic then
    .ok { loader with app := { loader.app with thread := none } }
  else .error .check

def doEmitQueueEmptyEvent : Loader :=
  if loader.doIsLocked then loader else loader.publish .noMoreAppsInQueue

/-- The records of the queue are launched until one is successful; `fap` may depend on how many are
left. -/
def doNextDeferredLaunch (apps : FlipperApps) (fap : ℕ → CString → Option FapStart) :
    List LaunchRecord → Loader → Except LoaderFault Loader
  | [], loader => .ok { loader with launchQueue := [] }.doEmitQueueEmptyEvent
  | record :: records, loader => do
    let loader := { loader with
      launchQueue := records
      launched := loader.launched ++ [record.number] }
    let (status, loader) ←
      loader.doStartByName apps (fap records.length) record.nameOrPath record.args
    let loader ←
      if status.value = .ok then pure loader
      else
        let loader := if record.gui then loader.showGuiError status record.nameOrPath else loader
        doNextDeferredLaunch apps fap records loader
    return loader.loaderQueueItemClear record

def freeArgs : Loader :=
  match loader.app.args with
  | none => loader
  | some _ => { loader with
    app := { loader.app with args := none }
    heap := { loader.heap with args := loader.heap.args - 1 } }

def insomniaExit : Loader :=
  if loader.app.insomniac then
    { loader with heap := { loader.heap with insomnia := loader.heap.insomnia - 1 } }
  else loader

/-- The thread of a file is freed with it. -/
def freeThread : Loader :=
  let loader := if loader.app.fap then loader.freeFap else loader
  { loader with
    app := { loader.app with thread := none }
    heap := { loader.heap with threads := loader.heap.threads - 1 } }

def freeLaunchPath : Except LoaderFault Loader :=
  match loader.app.launchPath with
  | .live _ => .ok { loader with
    app := { loader.app with launchPath := .freed }
    heap := { loader.heap with launchPaths := loader.heap.launchPaths - 1 } }
  | _ => .error .invalidFree

def doAppClosed (apps : FlipperApps) (fap : ℕ → CString → Option FapStart) :
    Except LoaderFault Loader :=
  match loader.app.thread with
  | none => .error .assert
  | some .magic => .error .invalidThread
  | some (.app _) => do
    let loader ← loader.freeArgs.insomniaExit.freeThread.freeLaunchPath
    let loader := loader.publish .applicationStopped
    doNextDeferredLaunch apps fap loader.launchQueue loader

def isApplicationRunning : Bool :=
  match loader.app.thread with
  | some (.app _) => true
  | _ => false

def doGetApplicationName : Option CString :=
  match loader.app.thread with
  | some (.app name) => some name
  | _ => none

def doGetApplicationLaunchPath : Option CString :=
  if loader.isApplicationRunning then
    match loader.app.launchPath with
    | .live path => some path
    | _ => none
  else none

end Loader

inductive LoaderMessage
  | startByName (name : CString) (args : Option CString) (fap : CString → Option FapStart)
  | startByNameDetachedWithGuiError (name : CString) (args : Option CString)
    (fap : CString → Option FapStart)
  | showMenu
  | menuClosed
  | applicationsClosed
  | isLocked
  | lock
  | unlock
  | appClosed (fap : ℕ → CString → Option FapStart)
  | signal
  | getApplicationName
  | getApplicationLaunchPath
  | enqueueLaunch (name : CString) (args : Option CString) (gui : Bool)
  | clearLaunchQueue

namespace Loader

variable (loader : Loader)

/-- A start that fails tells that there is nothing more to come. -/
def afterStart (status : LoaderStatusResult) : Loader :=
  if status.value = .ok then loader else loader.doEmitQueueEmptyEvent

/-- A message of `loader_srv`; what is only asked for changes nothing. -/
def step (apps : FlipperApps) (loader : Loader) : LoaderMessage → Except LoaderFault Loader
  | .startByName name args fap => do
    let (status, loader) ← loader.doStartByName apps fap name args
    return loader.afterStart status
  | .startByNameDetachedWithGuiError name args fap => do
    let (status, loader) ← loader.doStartByName apps fap name args
    return (loader.showGuiError status name).afterStart status
  | .showMenu => .ok { loader with loaderMenu := true }
  | .menuClosed => .ok { loader with loaderMenu := false }
  | .applicationsClosed => .ok { loader with loaderApplications := false }
  | .lock => .ok loader.doLock.2
  | .unlock => loader.doUnlock
  | .appClosed fap => loader.doAppClosed apps fap
  | .enqueueLaunch name args gui => loader.loaderQueuePush name args gui
  | .clearLaunchQueue => .ok loader.loaderQueueClear
  | .isLocked | .signal | .getApplicationName | .getApplicationLaunchPath => .ok loader

end Loader

end KiisuFirmware
