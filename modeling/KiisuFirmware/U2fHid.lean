import KiisuFirmware.BitLib
import KiisuFirmware.Cursor

/-!
# The HID transport of the U2F token

`u2f_hid.c`: packets of 64 bytes are put together to requests, which a worker thread executes. The
endpoint holds one packet until the worker has read it, and the timer of the channel lock and the
USB stack wake up the worker with flags.
-/

namespace KiisuFirmware

/-- The token behind the transport, and the buffer that it reads messages from and writes answers
to, which keeps its size. -/
structure U2fToken (U : Type) where
  msgParse : U → List UInt8 → ℕ → ℕ × List UInt8 × U
  wink : U → U
  setState : U → Bool → U
  length_msgParse : ∀ instance_ payload len,
    (msgParse instance_ payload len).2.1.length = payload.length

structure U2fHid (U : Type) where
  seqIdLast : UInt8
  reqBufPtr : ℕ
  reqLenLeft : ℕ
  lockCid : UInt32
  lock : Bool
  u2fInstance : U
  cid : UInt32
  len : ℕ
  cmd : UInt8
  payload : List UInt8

namespace U2fHid

def HID_U2F_PACKET_LEN : ℕ := 64
def U2F_HID_MAX_PAYLOAD_LEN : ℕ := (HID_U2F_PACKET_LEN - 7) + 128 * (HID_U2F_PACKET_LEN - 5)
def U2F_HID_TYPE_MASK : UInt8 := 0x80
def U2F_HID_TYPE_INIT : UInt8 := 0x80
def U2F_HID_PING : UInt8 := 0x81
def U2F_HID_MSG : UInt8 := 0x83
def U2F_HID_LOCK : UInt8 := 0x84
def U2F_HID_INIT : UInt8 := 0x86
def U2F_HID_WINK : UInt8 := 0x88
def U2F_HID_ERROR : UInt8 := 0xBF
def U2F_HID_ERR_INVALID_CMD : UInt8 := 0x01
def U2F_HID_BROADCAST_CID : UInt32 := 0xFFFFFFFF

/-- What the worker does: it executes a request, hands a message to the token, sends a packet, or
starts the timer of the lock. -/
inductive Action
  | request (cid : UInt32) (cmd : UInt8) (payload : List UInt8)
  | msg (cid : UInt32) (payload : List UInt8)
  | send (packet : List UInt8)
  | startTimer (ticks : ℕ)
  deriving DecidableEq

variable {U : Type} (token : U2fToken U)

def cidBytes (cid : UInt32) : List UInt8 := bitLibNumToBytesLe cid.toNat 4

/-- The packets that continue an answer, each with the bytes that are left or as many as fit. -/
def continuation (cid : UInt32) : ℕ → UInt8 → List UInt8 → List Action
  | 0, _, _ => []
  | _ + 1, _, [] => []
  | packets + 1, seqCnt, data =>
    let chunk := data.take (HID_U2F_PACKET_LEN - 5)
    let packet := cidBytes cid ++ [seqCnt] ++ chunk ++
      List.replicate (HID_U2F_PACKET_LEN - 5 - chunk.length) 0
    .send packet :: continuation cid packets (seqCnt + 1) (data.drop (HID_U2F_PACKET_LEN - 5))

def sendResponse (hid : U2fHid U) : List Action :=
  let data := hid.payload.take hid.len
  let chunk := data.take (HID_U2F_PACKET_LEN - 7)
  let packet := cidBytes hid.cid ++ [hid.cmd, (hid.len / 256).toUInt8, hid.len.toUInt8] ++ chunk ++
    List.replicate (HID_U2F_PACKET_LEN - 7 - chunk.length) 0
  .send packet :: continuation hid.cid data.length 0 (data.drop (HID_U2F_PACKET_LEN - 7))

def sendError (hid : U2fHid U) (error : UInt8) : U2fHid U × List Action :=
  let hid := { hid with len := 1, cmd := U2F_HID_ERROR, payload := overwrite hid.payload 0 [error] }
  (hid, sendResponse hid)

/-- Whether the request is accepted, and what is done for it. -/
def parseRequest (random : UInt32) (hid : U2fHid U) : Bool × U2fHid U × List Action :=
  if hid.cmd = U2F_HID_PING then (true, hid, sendResponse hid)
  else if hid.cmd = U2F_HID_MSG then
    if hid.lock = true ∧ hid.cid ≠ hid.lockCid then (false, hid, [])
    else
      let (respLen, payload, u2fInstance) := token.msgParse hid.u2fInstance hid.payload hid.len
      let message := Action.msg hid.cid (hid.payload.take hid.len)
      if respLen > 0 then
        let hid := { hid with u2fInstance, payload, len := respLen }
        (true, hid, message :: sendResponse hid)
      else (false, { hid with u2fInstance, payload }, [message])
  else if hid.cmd = U2F_HID_LOCK then
    if hid.len ≠ 1 then (false, hid, [])
    else
      let lockTimeout := hid.payload.getD 0 0
      if lockTimeout = 0 then (true, { hid with lock := false, lockCid := 0 }, [])
      else (true, { hid with lock := true, lockCid := hid.cid },
        [.startTimer (lockTimeout.toNat * 1000)])
  else if hid.cmd = U2F_HID_INIT then
    if hid.len ≠ 8 ∨ hid.cid ≠ U2F_HID_BROADCAST_CID ∨ hid.lock = true then (false, hid, [])
    else
      let hid :=
        { hid with
          len := 17
          payload := overwrite hid.payload 8 (cidBytes random ++ [2, 1, 0, 1, 1]) }
      (true, hid, sendResponse hid)
  else if hid.cmd = U2F_HID_WINK then
    if hid.len ≠ 0 then (false, hid, [])
    else
      let hid := { hid with u2fInstance := token.wink hid.u2fInstance, len := 0 }
      (true, hid, sendResponse hid)
  else (false, hid, [])

/-- A copy into the payload, which must not run over its end. -/
def memcpyPayload (hid : U2fHid U) (at_ : ℕ) (bytes : List UInt8) : Except String (U2fHid U) :=
  if at_ + bytes.length ≤ U2F_HID_MAX_PAYLOAD_LEN then
    .ok { hid with payload := overwrite hid.payload at_ bytes }
  else .error "write outside of the payload"

/-- A request of which nothing is missing is executed. -/
def execute (random : UInt32) (hid : U2fHid U) : U2fHid U × List Action :=
  if hid.reqLenLeft = 0 then
    let request := Action.request hid.cid hid.cmd (hid.payload.take hid.len)
    let (accepted, hid, actions) := parseRequest token random hid
    if accepted then (hid, request :: actions)
    else
      let (hid, answer) := sendError hid U2F_HID_ERR_INVALID_CMD
      (hid, request :: (actions ++ answer))
  else (hid, [])

def packetCid (packet : List UInt8) : UInt32 := (bitLibBytesToNumLe (packet.take 4)).toUInt32

/-- What the worker does with the packet that it has read. -/
def receive (random : UInt32) (packet : List UInt8) (hid : U2fHid U) :
    Except String (U2fHid U × List Action) :=
  let lenCur := packet.length
  if lenCur = 0 then .ok (hid, [])
  else if packet.getD 4 0 &&& U2F_HID_TYPE_MASK = U2F_HID_TYPE_INIT then
    if lenCur < 7 then .ok ({ hid with reqLenLeft := 0 }, [])
    else
      let hid := { hid with len := (packet.getD 5 0).toNat * 256 + (packet.getD 6 0).toNat }
      if hid.len > U2F_HID_MAX_PAYLOAD_LEN then .ok ({ hid with reqLenLeft := 0 }, [])
      else
        let (reqLenLeft, lenCur) :=
          if hid.len > lenCur - 7 then (hid.len - (lenCur - 7), lenCur - 7) else (0, hid.len)
        let hid :=
          { hid with
            reqLenLeft
            cid := packetCid packet
            cmd := packet.getD 4 0
            seqIdLast := 0
            reqBufPtr := lenCur }
        if lenCur > 0 then do
          let hid ← hid.memcpyPayload 0 ((packet.drop 7).take lenCur)
          return execute token random hid
        else .ok (execute token random hid)
  else if lenCur < 5 then .ok ({ hid with reqLenLeft := 0 }, [])
  else if hid.reqLenLeft > 0 ∧ packetCid packet = hid.cid ∧ packet.getD 4 0 = hid.seqIdLast then do
    let (reqLenLeft, lenCur) :=
      if hid.reqLenLeft > lenCur - 5 then (hid.reqLenLeft - (lenCur - 5), lenCur - 5)
      else (0, hid.reqLenLeft)
    let hid ← { hid with reqLenLeft }.memcpyPayload hid.reqBufPtr ((packet.drop 5).take lenCur)
    return execute token random
      { hid with reqBufPtr := hid.reqBufPtr + lenCur, seqIdLast := hid.seqIdLast + 1 }
  else .ok (execute token random hid)

end U2fHid

/-- The flags that the worker is woken up with. -/
structure WorkerFlags where
  stop : Bool
  connect : Bool
  disconnect : Bool
  request : Bool
  unlock : Bool
  deriving DecidableEq

/-- The worker goes on when one of the flags that it waits for is set. It is given all flags that
are set, and those that it waits for are cleared. -/
def WorkerFlags.wait (flags : WorkerFlags) : Option (WorkerFlags × WorkerFlags) :=
  if flags.stop || flags.connect || flags.disconnect || flags.request then
    some (flags, ⟨false, false, false, false, flags.unlock⟩)
  else none

/-- The worker and what surrounds it: the packet that has not been read yet, and whether the timer
of the lock runs. -/
structure U2fHidSystem (U : Type) where
  hid : U2fHid U
  flags : WorkerFlags
  endpoint : Option (Vector UInt8 64)
  lockTimer : Bool
  stopped : Bool

namespace U2fHidSystem

open U2fHid

/-- What can happen: a packet is received, the timer of the lock fires, the host connects or
disconnects, the token is left, or the worker has its turn, with a random number. -/
inductive Event
  | packet (bytes : Vector UInt8 64)
  | lockTimeout
  | connect
  | disconnect
  | stop
  | worker (random : UInt32)

variable {U : Type} (token : U2fToken U)

/-- The token is told when the host has connected or disconnected. -/
def setState (flags : WorkerFlags) (u2fInstance : U) : U :=
  let u2fInstance := if flags.connect then token.setState u2fInstance true else u2fInstance
  if flags.disconnect then token.setState u2fInstance false else u2fInstance

/-- The packet that has been received, if the worker has been woken up for one. -/
def getRequest (flags : WorkerFlags) (random : UInt32) (endpoint : Option (Vector UInt8 64))
    (hid : U2fHid U) : Except String (U2fHid U × List Action) :=
  if flags.request then receive token random ((endpoint.map (·.toList)).getD []) hid
  else .ok (hid, [])

/-- The state of the connection, the packet, and then the lock. -/
def handle (flags : WorkerFlags) (random : UInt32) (system : U2fHidSystem U) :
    Except String (List Action × U2fHidSystem U) := do
  let hid := { system.hid with u2fInstance := setState token flags system.hid.u2fInstance }
  let (hid, actions) ← getRequest token flags random system.endpoint hid
  return (actions, { system with
    hid := if flags.unlock then { hid with lock := false, lockCid := 0 } else hid
    endpoint := if flags.request then none else system.endpoint
    lockTimer := system.lockTimer || actions.any (· matches .startTimer _) })

/-- One turn of the worker, if it is not waiting. -/
def worker (random : UInt32) (system : U2fHidSystem U) :
    Except String (List Action × U2fHidSystem U) :=
  if system.stopped then .ok ([], system)
  else
    match system.flags.wait with
    | none => .ok ([], system)
    | some (flags, left) =>
      if flags.stop then .ok ([], { system with flags := left, stopped := true, lockTimer := false })
      else handle token flags random { system with flags := left }

/-- A packet has to wait while the last one has not been read, and the timer fires only if it
runs. -/
def step (system : U2fHidSystem U) : Event → Except String (List Action × U2fHidSystem U)
  | .packet bytes =>
    if system.endpoint.isSome || system.stopped then .ok ([], system)
    else .ok ([], { system with
      endpoint := some bytes, flags := { system.flags with request := true } })
  | .lockTimeout =>
    if system.lockTimer then
      .ok ([], { system with
        lockTimer := false, flags := { system.flags with unlock := true } })
    else .ok ([], system)
  | .connect => .ok ([], { system with flags := { system.flags with connect := true } })
  | .disconnect => .ok ([], { system with flags := { system.flags with disconnect := true } })
  | .stop => .ok ([], { system with flags := { system.flags with stop := true } })
  | .worker random => worker token random system

/-- Memory that has just been allocated is zero. -/
def start (u2fInstance : U) : U2fHidSystem U where
  hid :=
    { seqIdLast := 0
      reqBufPtr := 0
      reqLenLeft := 0
      lockCid := 0
      lock := false
      u2fInstance
      cid := 0
      len := 0
      cmd := 0
      payload := List.replicate U2F_HID_MAX_PAYLOAD_LEN 0 }
  flags := ⟨false, false, false, false, false⟩
  endpoint := none
  lockTimer := false
  stopped := false

end U2fHidSystem

end KiisuFirmware
