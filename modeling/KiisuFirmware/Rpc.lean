import Mathlib.Tactic

/-!
# Messages of a remote session

What the subsystems of `rpc.c` have in common: statuses, and fields of a request that may be absent,
for which there is no pointer then.
-/

namespace KiisuFirmware

/-- `PB_CommandStatus`, as far as the subsystems use it. -/
inductive CommandStatus
  | ok
  | error
  | errorDecode
  | errorNotImplemented
  | errorContinuousCommandInterrupted
  | errorInvalidParameters
  | errorStorageNotReady
  | errorStorageExist
  | errorStorageNotExist
  | errorStorageInvalidParameter
  | errorStorageDenied
  | errorStorageInvalidName
  | errorStorageInternal
  | errorStorageNotImplemented
  | errorStorageAlreadyOpen
  | errorStorageDirNotEmpty
  | errorAppCantStart
  | errorAppSystemLocked
  | errorAppNotRunning
  | errorAppCmdError
  | errorVirtualDisplayAlreadyStarted
  | errorVirtualDisplayNotStarted
  deriving DecidableEq

/-- What a handler may do that ends everything: a `furi_check` or a `furi_assert` that fails, a
pointer that is not there, and bytes that are not. -/
inductive RpcFault
  | check
  | assert
  | nullPointer
  | outOfBounds
  deriving DecidableEq

/-- A string without its terminating zero. -/
abbrev CString := List Char

def strlen : Option CString → Except RpcFault ℕ
  | none => .error .nullPointer
  | some s => .ok s.length

/-- A `furi_check`. -/
def furiCheck (condition : Bool) : Except RpcFault Unit :=
  if condition then .ok () else .error .check

/-- A `furi_assert`. -/
def furiAssert (condition : Bool) : Except RpcFault Unit :=
  if condition then .ok () else .error .assert

/-!
## The screen in a remote session

The handlers of `rpc_gui.c`. The bytes of a frame are copied from the field of a request into the
buffer of the virtual display, which has the size of the display.
-/

/-- `canvas_get_buffer_size`, for 16 by 8 tiles. -/
def canvasBufferSize : ℕ := 16 * 8 * 8

def inputKeyMax : ℕ := 6

def inputTypeMax : ℕ := 5

def inputTypePress : ℕ := 0

def inputTypeRelease : ℕ := 1

structure GuiInputEvent where
  key : ℕ
  type : ℕ
  sequenceCounter : UInt32
  deriving DecidableEq

/-- The contents of the requests. A first frame may be there without its bytes. -/
inductive GuiRequest
  | startScreenStream
  | stopScreenStream
  | sendInputEvent (key type : ℕ)
  | startVirtualDisplay (firstFrame : Option (Option (List UInt8))) (sendInput : Bool)
  | stopVirtualDisplay
  | screenFrame (data : Option (List UInt8))
  deriving DecidableEq

/-- A view port, which forwards the input or does not. -/
structure GuiViewPort where
  sendInput : Bool
  deriving DecidableEq

structure RpcGuiSystem where
  sent : List (UInt32 × CommandStatus)
  inputEvents : List GuiInputEvent
  virtualDisplayViewPort : Option GuiViewPort
  virtualDisplayBuffer : List UInt8
  virtualDisplayNotEmpty : Bool
  isStreaming : Bool
  inputKeyCounter : ℕ → UInt32
  inputCounter : UInt32

namespace RpcGuiSystem

def alloc : RpcGuiSystem := ⟨[], [], none, [], false, false, fun _ => 0, 0⟩

variable (rpcGui : RpcGuiSystem)

def send (commandId : UInt32) (status : CommandStatus) : RpcGuiSystem :=
  { rpcGui with sent := rpcGui.sent ++ [(commandId, status)] }

def startScreenStreamProcess (commandId : UInt32) : RpcGuiSystem :=
  if rpcGui.isStreaming then rpcGui.send commandId .errorVirtualDisplayAlreadyStarted
  else { rpcGui.send commandId .ok with isStreaming := true }

def stopScreenStreamProcess (commandId : UInt32) : RpcGuiSystem :=
  { rpcGui with isStreaming := false }.send commandId .ok

/-- The counter of a key that is pressed is a new one, and never zero. -/
def countPress (key : ℕ) : RpcGuiSystem :=
  let counter := rpcGui.inputCounter + 1
  let counter := if counter = 0 then counter + 1 else counter
  { rpcGui with
    inputCounter := counter
    inputKeyCounter := Function.update rpcGui.inputKeyCounter key counter }

def sendInputEventRequestProcess (commandId : UInt32) (key type : ℕ) : RpcGuiSystem :=
  if key < inputKeyMax ∧ type < inputTypeMax then
    let rpcGui := if type = inputTypePress then rpcGui.countPress key else rpcGui
    let event := ⟨key, type, rpcGui.inputKeyCounter key⟩
    let counter := if type = inputTypeRelease then Function.update rpcGui.inputKeyCounter key 0
      else rpcGui.inputKeyCounter
    { rpcGui with
      inputKeyCounter := counter
      inputEvents := rpcGui.inputEvents ++ [event] }.send commandId .ok
  else rpcGui.send commandId .errorInvalidParameters

/-- A frame is copied from where the field points to. -/
def copyFrame : Option (List UInt8) → Except RpcFault (List UInt8)
  | none => .error .nullPointer
  | some bytes =>
    if canvasBufferSize ≤ bytes.length then .ok (bytes.take canvasBufferSize)
    else .error .outOfBounds

def startVirtualDisplayProcess (commandId : UInt32)
    (firstFrame : Option (Option (List UInt8))) (sendInput : Bool) :
    Except RpcFault RpcGuiSystem :=
  match rpcGui.virtualDisplayViewPort with
  | some _ => .ok (rpcGui.send commandId .errorVirtualDisplayAlreadyStarted)
  | none => do
    let rpcGui ← match firstFrame with
      | none => pure { rpcGui with virtualDisplayBuffer := List.replicate canvasBufferSize 0 }
      | some data => do
        let buffer ← copyFrame data
        pure { rpcGui with virtualDisplayBuffer := buffer, virtualDisplayNotEmpty := true }
    return { rpcGui with virtualDisplayViewPort := some ⟨sendInput⟩ }.send commandId .ok

def stopVirtualDisplayProcess (commandId : UInt32) : RpcGuiSystem :=
  match rpcGui.virtualDisplayViewPort with
  | none => rpcGui.send commandId .errorVirtualDisplayNotStarted
  | some _ => { rpcGui with
      virtualDisplayViewPort := none
      virtualDisplayNotEmpty := false }.send commandId .ok

/-- There is no answer to a frame. -/
def virtualDisplayFrameProcess (data : Option (List UInt8)) : Except RpcFault RpcGuiSystem :=
  match rpcGui.virtualDisplayViewPort with
  | none => .ok rpcGui
  | some _ => do
    let buffer ← copyFrame data
    return { rpcGui with virtualDisplayBuffer := buffer, virtualDisplayNotEmpty := true }

def process (commandId : UInt32) : GuiRequest → Except RpcFault RpcGuiSystem
  | .startScreenStream => .ok (rpcGui.startScreenStreamProcess commandId)
  | .stopScreenStream => .ok (rpcGui.stopScreenStreamProcess commandId)
  | .sendInputEvent key type => .ok (rpcGui.sendInputEventRequestProcess commandId key type)
  | .startVirtualDisplay firstFrame sendInput =>
    rpcGui.startVirtualDisplayProcess commandId firstFrame sendInput
  | .stopVirtualDisplay => .ok (rpcGui.stopVirtualDisplayProcess commandId)
  | .screenFrame data => rpcGui.virtualDisplayFrameProcess data

end RpcGuiSystem

end KiisuFirmware
