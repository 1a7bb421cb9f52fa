import KiisuFirmware.Rpc
import KiisuFirmware.Run

/-!
# Applications in a remote session

`rpc_app.c`, from the allocation of an instance to its end. A request for the application is handed
to it and answered when the application confirms it.
-/

namespace KiisuFirmware

inductive RpcAppSystemEventType
  | invalid
  | sessionClose
  | appExit
  | loadFile
  | buttonPress
  | buttonRelease
  | buttonPressRelease
  | dataExchange
  deriving DecidableEq

inductive RpcAppSystemEventData
  | none
  | string (string : Option CString)
  | int32 (i32 : ℤ)
  | bytes (ptr : Option (List UInt8)) (size : ℕ)
  deriving DecidableEq

structure RpcAppSystemEvent where
  type : RpcAppSystemEventType
  data : RpcAppSystemEventData
  deriving DecidableEq

inductive LoaderStatus
  | ok
  | errorAppStarted
  | errorUnknownApp
  | errorInternal
  deriving DecidableEq

inductive AppState
  | appStarted
  | appClosed
  deriving DecidableEq

/-- What a session sends for this subsystem. -/
inductive AppMessage
  | empty (commandId : UInt32) (status : CommandStatus)
  | appState (state : AppState)
  | lockStatus (commandId : UInt32) (locked : Bool)
  | getError (commandId : UInt32) (code : UInt32) (text : Option CString)
  | dataExchange (data : Option (List UInt8))
  deriving DecidableEq

/-- The contents of the requests. -/
inductive AppRequest
  | start (name args : Option CString)
  | lockStatus
  | exit
  | loadFile (path : Option CString)
  | buttonPress (args : Option CString) (index : ℤ)
  | buttonRelease
  | buttonPressRelease (args : Option CString) (index : ℤ)
  | getError
  | dataExchange (data : Option (List UInt8))
  deriving DecidableEq

/-- An instance, with what its session has sent and the number of a callback with its context. -/
structure RpcAppSystem where
  session : List AppMessage
  callback : Option ℕ
  errorCode : UInt32
  errorText : Option CString
  lastCommandId : UInt32
  lastEventType : RpcAppSystemEventType
  deriving DecidableEq

namespace RpcAppSystem

def alloc : RpcAppSystem where
  session := []
  callback := none
  errorCode := 0
  errorText := none
  lastCommandId := 0
  lastEventType := .invalid

variable (rpcApp : RpcAppSystem)

def send (message : AppMessage) : RpcAppSystem :=
  { rpcApp with session := rpcApp.session ++ [message] }

def sendStarted : RpcAppSystem := rpcApp.send (.appState .appStarted)

def sendExited : RpcAppSystem := rpcApp.send (.appState .appClosed)

def sendErrorResponse (commandId : UInt32) (status : CommandStatus) : RpcAppSystem :=
  rpcApp.send (.empty commandId status)

def setErrorCode (errorCode : UInt32) : RpcAppSystem := { rpcApp with errorCode := errorCode }

def setErrorText (errorText : Option CString) : RpcAppSystem :=
  { rpcApp with errorText := errorText }

def errorReset : RpcAppSystem := (rpcApp.setErrorCode 0).setErrorText none

def setLastCommand (commandId : UInt32) (event : RpcAppSystemEvent) :
    Except RpcFault RpcAppSystem := do
  furiAssert (rpcApp.lastCommandId = 0)
  furiAssert (rpcApp.lastEventType = .invalid)
  return { rpcApp with lastCommandId := commandId, lastEventType := event.type }

/-! ## Starting an application -/

/-- A digit of "%lX". -/
def hexDigit (n : ℕ) : Char :=
  if n < 10 then Char.ofNat ('0'.toNat + n) else Char.ofNat ('A'.toNat + (n - 10))

/-- What is written as "RPC %08lX". -/
def contextArgs (self : UInt32) : CString :=
  ['R', 'P', 'C', ' '] ++ (List.range 8).map fun i => hexDigit (self.toNat / 16 ^ (7 - i) % 16)

def isSpace (c : Char) : Bool := c == ' ' || ('\t'.toNat ≤ c.toNat && c.toNat ≤ '\r'.toNat)

def isHexDigit (c : Char) : Bool :=
  ('0' ≤ c && c ≤ '9') || ('a' ≤ c && c ≤ 'f') || ('A' ≤ c && c ≤ 'F')

/-- Whether a number is scanned with "RPC %lX": spaces and a sign may stand before it. -/
def scansContext : CString → Bool
  | 'R' :: 'P' :: 'C' :: rest =>
    let digits := match rest.dropWhile isSpace with
      | '+' :: digits => digits
      | '-' :: digits => digits
      | digits => digits
    digits.head?.any isHexDigit
  | _ => false

/-- The arguments an application is started with, unless they are forged. -/
def startArgs (self : UInt32) : Option CString → Option (Option CString)
  | none => some none
  | some args =>
    if args = ['R', 'P', 'C'] then some (some (contextArgs self))
    else if scansContext args then none
    else some (some args)

def loaderResult : LoaderStatus → CommandStatus
  | .errorAppStarted => .errorAppSystemLocked
  | .errorInternal => .errorAppCantStart
  | .errorUnknownApp => .errorInvalidParameters
  | .ok => .ok

/-- The instance is at the address `self`; `loaderStart` is what the loader answers. -/
def startProcess (self : UInt32) (loaderStart : CString → Option CString → LoaderStatus)
    (commandId : UInt32) (name args : Option CString) : Except RpcFault RpcAppSystem := do
  furiAssert (rpcApp.lastCommandId = 0)
  furiAssert (rpcApp.lastEventType = .invalid)
  match name with
  | none => return rpcApp.send (.empty commandId .errorInvalidParameters)
  | some appName =>
    let result := match startArgs self args with
      | none => .errorInvalidParameters
      | some appArgs => loaderResult (loaderStart appName appArgs)
    return rpcApp.errorReset.send (.empty commandId result)

def lockStatusProcess (locked : Bool) (commandId : UInt32) : RpcAppSystem :=
  rpcApp.errorReset.send (.lockStatus commandId locked)

def getErrorProcess (commandId : UInt32) : RpcAppSystem :=
  rpcApp.send (.getError commandId rpcApp.errorCode rpcApp.errorText)

/-! ## Requests for the application -/

/-- A request the callback is called for, if there is one, with the event that is made of it. -/
def pass (commandId : UInt32) (event : Except RpcFault RpcAppSystemEvent) :
    Except RpcFault (RpcAppSystem × Option RpcAppSystemEvent) :=
  match rpcApp.callback with
  | some _ => do
    let event ← event
    let rpcApp ← rpcApp.errorReset.setLastCommand commandId event
    return (rpcApp, some event)
  | none => return (rpcApp.sendErrorResponse commandId .errorAppNotRunning, none)

def exitRequest (commandId : UInt32) : Except RpcFault (RpcAppSystem × Option RpcAppSystemEvent) :=
  rpcApp.pass commandId (.ok ⟨.appExit, .none⟩)

def loadFile (commandId : UInt32) (path : Option CString) :
    Except RpcFault (RpcAppSystem × Option RpcAppSystemEvent) :=
  rpcApp.pass commandId (.ok ⟨.loadFile, .string path⟩)

/-- The arguments of a button if there are any, or else its index. -/
def buttonData (args : Option CString) (index : ℤ) : Except RpcFault RpcAppSystemEventData := do
  if (← strlen args) ≠ 0 then return .string args else return .int32 index

def buttonPress (commandId : UInt32) (args : Option CString) (index : ℤ) :
    Except RpcFault (RpcAppSystem × Option RpcAppSystemEvent) :=
  rpcApp.pass commandId (do return ⟨.buttonPress, ← buttonData args index⟩)

def buttonRelease (commandId : UInt32) :
    Except RpcFault (RpcAppSystem × Option RpcAppSystemEvent) :=
  rpcApp.pass commandId (.ok ⟨.buttonRelease, .none⟩)

def buttonPressRelease (commandId : UInt32) (args : Option CString) (index : ℤ) :
    Except RpcFault (RpcAppSystem × Option RpcAppSystemEvent) :=
  rpcApp.pass commandId (do return ⟨.buttonPressRelease, ← buttonData args index⟩)

def dataExchangeProcess (commandId : UInt32) (data : Option (List UInt8)) :
    Except RpcFault (RpcAppSystem × Option RpcAppSystemEvent) :=
  rpcApp.pass commandId (.ok ⟨.dataExchange, .bytes data ((data.map List.length).getD 0)⟩)

/-! ## What the application calls -/

/-- The types of the events that can be confirmed. -/
def confirmable : List RpcAppSystemEventType :=
  [.appExit, .loadFile, .buttonPress, .buttonRelease, .buttonPressRelease, .dataExchange]

def confirm (result : Bool) : Except RpcFault RpcAppSystem := do
  furiCheck (rpcApp.lastCommandId ≠ 0)
  furiCheck (rpcApp.lastEventType ∈ confirmable)
  let status := if result then .ok else .errorAppCmdError
  return { rpcApp with lastCommandId := 0, lastEventType := .invalid }.send
    (.empty rpcApp.lastCommandId status)

/-- An instance is registered for as long as it is there. -/
def setCallback (callback : Option ℕ) : RpcAppSystem := { rpcApp with callback := callback }

def exchangeData (data : List UInt8) : RpcAppSystem :=
  rpcApp.send (.dataExchange (if data = [] then none else some data))

end RpcAppSystem

/-! ## A session and an application -/

/-- What the rest of the system says to a request. -/
structure AppAnswers where
  loaderStart : CString → Option CString → LoaderStatus
  locked : Bool

inductive AppAction
  | request (commandId : UInt32) (request : AppRequest) (answers : AppAnswers)
  | setCallback (callback : Option ℕ)
  | confirm (result : Bool)
  | setErrorCode (errorCode : UInt32)
  | setErrorText (errorText : Option CString)
  | sendStarted
  | sendExited
  | exchangeData (data : List UInt8)

/-- The instance and the events the application has been given and has not confirmed, with the ids
of the requests they were made of. -/
structure AppLink where
  rpcApp : RpcAppSystem
  unconfirmed : List (UInt32 × RpcAppSystemEvent)
  deriving DecidableEq

namespace AppLink

def alloc : AppLink := ⟨.alloc, []⟩

/-- The handler of a request. -/
def handle (rpcApp : RpcAppSystem) (self commandId : UInt32) (answers : AppAnswers) :
    AppRequest → Except RpcFault (RpcAppSystem × Option RpcAppSystemEvent)
  | .start name args => do
    return (← rpcApp.startProcess self answers.loaderStart commandId name args, none)
  | .lockStatus => return (rpcApp.lockStatusProcess answers.locked commandId, none)
  | .exit => rpcApp.exitRequest commandId
  | .loadFile path => rpcApp.loadFile commandId path
  | .buttonPress args index => rpcApp.buttonPress commandId args index
  | .buttonRelease => rpcApp.buttonRelease commandId
  | .buttonPressRelease args index => rpcApp.buttonPressRelease commandId args index
  | .getError => return (rpcApp.getErrorProcess commandId, none)
  | .dataExchange data => rpcApp.dataExchangeProcess commandId data

/-- The application confirms the event it was given first. -/
def step (self : UInt32) (link : AppLink) : AppAction → Except RpcFault AppLink
  | .request commandId request answers => do
    let (rpcApp, event) ← handle link.rpcApp self commandId answers request
    return ⟨rpcApp, link.unconfirmed ++ event.toList.map (commandId, ·)⟩
  | .setCallback callback => return { link with rpcApp := link.rpcApp.setCallback callback }
  | .confirm result => do return ⟨← link.rpcApp.confirm result, link.unconfirmed.tail⟩
  | .setErrorCode code => return { link with rpcApp := link.rpcApp.setErrorCode code }
  | .setErrorText text => return { link with rpcApp := link.rpcApp.setErrorText text }
  | .sendStarted => return { link with rpcApp := link.rpcApp.sendStarted }
  | .sendExited => return { link with rpcApp := link.rpcApp.sendExited }
  | .exchangeData data => return { link with rpcApp := link.rpcApp.exchangeData data }

end AppLink

end KiisuFirmware
