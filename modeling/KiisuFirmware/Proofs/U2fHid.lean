import KiisuFirmware.Run
import KiisuFirmware.U2fHid

/-!
# What the HID transport of the U2F token executes

A request is executed when the last packet of a message arrives, and a message for the token only
where the lock is not held by another channel, as long as no packet continues a message that has
been executed, nobody but its holder asks for the lock, and what comes after the timer of the lock
has fired does not meet the flag that is never cleared.
-/

namespace KiisuFirmware

namespace U2fHid

structure Request where
  cid : UInt32
  cmd : UInt8
  payload : List UInt8
  deriving DecidableEq

/-- A message of which something is missing. -/
structure Message where
  cid : UInt32
  cmd : UInt8
  len : ℕ
  data : List UInt8
  seq : UInt8

def Message.complete (message : Message) : Option Message × Option Request :=
  if message.data.length = message.len then (none, some ⟨message.cid, message.cmd, message.data⟩)
  else (some message, none)

def isInit (packet : List UInt8) : Prop := packet.getD 4 0 &&& U2F_HID_TYPE_MASK = U2F_HID_TYPE_INIT

instance (packet : List UInt8) : Decidable (isInit packet) := instDecidableEqUInt8 _ _

/-- The message that is put together after a packet, and the request that is complete with it. -/
def assemble (pending : Option Message) (packet : List UInt8) : Option Message × Option Request :=
  if isInit packet then
    let len := (packet.getD 5 0).toNat * 256 + (packet.getD 6 0).toNat
    if len > U2F_HID_MAX_PAYLOAD_LEN then (none, none)
    else Message.complete ⟨packetCid packet, packet.getD 4 0, len, (packet.drop 7).take len, 0⟩
  else
    match pending with
    | none => (none, none)
    | some message =>
      if packetCid packet = message.cid ∧ packet.getD 4 0 = message.seq then
        { message with
          data := message.data ++ (packet.drop 5).take (message.len - message.data.length)
          seq := message.seq + 1 }.complete
      else (some message, none)

/-- A request for the lock of the channel, or to give it back. -/
def Request.IsLock (request : Request) : Prop :=
  request.cmd = U2F_HID_LOCK ∧ request.payload.length = 1

instance (request : Request) : Decidable request.IsLock := instDecidableAnd

/-- The lock is taken and given back by requests of its holder, or taken when nobody has it. -/
def nextOwner (owner : Option UInt32) : Option Request → Option UInt32
  | none => owner
  | some request =>
    if request.IsLock ∧ (owner = none ∨ owner = some request.cid) then
      if request.payload.getD 0 0 = 0 then none else some request.cid
    else owner

def requests (actions : List Action) : List Request :=
  actions.filterMap fun
    | .request cid cmd payload => some ⟨cid, cmd, payload⟩
    | _ => none

/-- The message that is being put together, who has the lock, and who had it when the packet that
has not been read yet was received. -/
structure Transport where
  pending : Option Message
  owner : Option UInt32
  ownerThen : Option UInt32

end U2fHid

open U2fHid

variable {U : Type}

namespace U2fHidSystem

/-- The packet that the worker reads in its turn. -/
def packetRead (system : U2fHidSystem U) : Event → Option (List UInt8)
  | .worker _ => if system.stopped || system.flags.stop then none else system.endpoint.map (·.toList)
  | _ => none

end U2fHidSystem

namespace U2fHid

/-- The request that is complete after an event. -/
def Transport.request (transport : Transport) (system : U2fHidSystem U)
    (event : U2fHidSystem.Event) : Option Request :=
  (system.packetRead event).bind fun packet => (assemble transport.pending packet).2

/-- What is to become of messages and of the lock. -/
def Transport.step (transport : Transport) (system : U2fHidSystem U) (event : U2fHidSystem.Event) :
    Transport :=
  match event with
  | .packet _ =>
    if system.endpoint.isSome || system.stopped then transport
    else { transport with ownerThen := transport.owner }
  | .lockTimeout => if system.lockTimer then { transport with owner := none } else transport
  | event =>
    match system.packetRead event with
    | none => transport
    | some packet =>
      { transport with
        pending := (assemble transport.pending packet).1
        owner := nextOwner transport.owner (transport.request system event) }

end U2fHid

/-- The system, and what is to become of it. -/
structure U2fHidSession (U : Type) where
  system : U2fHidSystem U
  transport : Transport

namespace U2fHidSession

variable (token : U2fToken U)

def start (u2fInstance : U) : U2fHidSession U := ⟨.start u2fInstance, ⟨none, none, none⟩⟩

def step (session : U2fHidSession U) (event : U2fHidSystem.Event) :
    Except String (U2fHidSession U) := do
  let (_, system) ← session.system.step token event
  return ⟨system, session.transport.step session.system event⟩

/-- What the transport owes: it writes inside of the payload, it executes what is complete and
nothing else, and it hands messages to the token if no other channel has the lock, and then always
if no other channel had it when the packet was received. -/
structure Lawful (session : U2fHidSession U) (event : U2fHidSystem.Event) : Prop where
  inside : ∃ r, session.system.step token event = .ok r
  executed : ∀ actions system, session.system.step token event = .ok (actions, system) →
    requests actions = (session.transport.request session.system event).toList
  locked : ∀ actions system, session.system.step token event = .ok (actions, system) →
    ∀ cid payload, .msg cid payload ∈ actions →
      session.transport.owner = none ∨ session.transport.owner = some cid
  unlocked : ∀ actions system, session.system.step token event = .ok (actions, system) →
    ∀ request, session.transport.request session.system event = some request →
      request.cmd = U2F_HID_MSG →
      (session.transport.ownerThen = none ∨ session.transport.ownerThen = some request.cid) →
      .msg request.cid request.payload ∈ actions

/-- No packet continues a message that is not there, a request for the lock is not that of another
channel than the one that has it, and after the timer of the lock has fired nobody asks for it, and
no other channel's message that came later finds it still taken. -/
structure Sound (session : U2fHidSession U) (event : U2fHidSystem.Event) : Prop where
  stray : ∀ packet, session.system.packetRead event = some packet → ¬isInit packet →
    session.transport.pending ≠ none
  holder : ∀ request, session.transport.request session.system event = some request →
    request.IsLock →
    session.transport.owner = none ∨ session.transport.owner = some request.cid
  stale : session.system.flags.unlock = true →
    ∀ request, session.transport.request session.system event = some request →
      (request.IsLock → request.payload.getD 0 0 = 0) ∧
      (request.cmd = U2F_HID_MSG → session.system.hid.lock = true →
        request.cid ≠ session.system.hid.lockCid → session.transport.ownerThen ≠ none)

end U2fHidSession

namespace U2fHid

section Execution

variable {token : U2fToken U} {random : UInt32} {hid hid' : U2fHid U} {request : Request}
  {actions : List Action}

theorem continuation_sends (cid : UInt32) :
    ∀ (packets : ℕ) (seqCnt : UInt8) (data : List UInt8), ∀ a ∈ continuation cid packets seqCnt data,
      ∃ packet, a = .send packet
  | 0, _, _, a, h => (List.not_mem_nil h).elim
  | _ + 1, _, [], a, h => (List.not_mem_nil h).elim
  | packets + 1, seqCnt, b :: data, a, h => by
    rcases List.mem_cons.1 h with rfl | h
    · exact ⟨_, rfl⟩
    · exact continuation_sends cid packets _ _ a h

theorem sendResponse_sends {a : Action} (h : a ∈ sendResponse hid) : ∃ packet, a = .send packet := by
  rcases List.mem_cons.1 h with rfl | h
  · exact ⟨_, rfl⟩
  · exact continuation_sends _ _ _ _ a h

theorem requests_eq_nil (h : ∀ a ∈ actions, ∃ packet, a = .send packet) : requests actions = [] := by
  refine List.filterMap_eq_nil_iff.2 fun a ha => ?_
  obtain ⟨packet, rfl⟩ := h a ha
  rfl

@[simp] theorem requests_sendResponse (hid : U2fHid U) : requests (sendResponse hid) = [] :=
  requests_eq_nil fun _ => sendResponse_sends

@[simp] theorem msg_not_mem_sendResponse {cid : UInt32} {payload : List UInt8} :
    Action.msg cid payload ∉ sendResponse hid := fun h => by
  obtain ⟨packet, hpacket⟩ := sendResponse_sends h
  cases hpacket

/-- The request is complete, and nothing else is. -/
structure Holds (hid : U2fHid U) (request : Request) : Prop where
  left : hid.reqLenLeft = 0
  size : hid.payload.length = U2F_HID_MAX_PAYLOAD_LEN
  cid : hid.cid = request.cid
  cmd : hid.cmd = request.cmd
  len : hid.len = request.payload.length
  payload : hid.payload.take hid.len = request.payload

/-- What the execution of a request does to the transport. -/
structure Executed (hid : U2fHid U) (request : Request) (hid' : U2fHid U) (actions : List Action) :
    Prop where
  left : hid'.reqLenLeft = 0
  size : hid'.payload.length = U2F_HID_MAX_PAYLOAD_LEN
  requests : requests actions = []
  message : ∀ cid payload, .msg cid payload ∈ actions ↔
    request.cmd = U2F_HID_MSG ∧ (hid.lock = true → request.cid = hid.lockCid) ∧
      cid = request.cid ∧ payload = request.payload
  lock : (hid'.lock, hid'.lockCid) =
    if request.IsLock then
      if request.payload.getD 0 0 = 0 then (false, 0) else (true, request.cid)
    else (hid.lock, hid.lockCid)

theorem Executed.other (h : Holds hid request) (hmsg : request.cmd ≠ U2F_HID_MSG)
    (hlock : ¬request.IsLock) (hleft : hid'.reqLenLeft = hid.reqLenLeft)
    (hsize : hid'.payload.length = hid.payload.length) (hlock' : hid'.lock = hid.lock)
    (hcid : hid'.lockCid = hid.lockCid) (hactions : ∀ a ∈ actions, ∃ packet, a = .send packet) :
    Executed hid request hid' actions where
  left := hleft.trans h.left
  size := hsize.trans h.size
  requests := requests_eq_nil hactions
  message cid payload := iff_of_false
    (fun hmem => by
      obtain ⟨packet, hpacket⟩ := hactions _ hmem
      cases hpacket)
    fun hm => hmsg hm.1
  lock := by rw [if_neg hlock, hlock', hcid]

theorem length_bitLibNumToBytesLe (value length : ℕ) :
    (bitLibNumToBytesLe value length).length = length := by
  simp [bitLibNumToBytesLe]

theorem msg_executed (h : Holds hid request) (hmsg : hid.cmd = U2F_HID_MSG) :
    Executed hid request (parseRequest token random hid).2.1 (parseRequest token random hid).2.2 := by
  have hnl : ¬request.IsLock := fun hl => absurd hl.1 (by rw [← h.cmd, hmsg]; decide)
  rw [parseRequest, if_neg (by rw [hmsg]; decide), if_pos hmsg]
  by_cases hlocked : hid.lock = true ∧ hid.cid ≠ hid.lockCid
  · rw [if_pos hlocked]
    refine ⟨h.left, h.size, rfl, fun cid payload => iff_of_false (by simp) fun hm => ?_, by
      rw [if_neg hnl]⟩
    exact hlocked.2 (h.cid.trans (hm.2.1 hlocked.1))
  · rw [if_neg hlocked]
    have hfree : hid.lock = true → request.cid = hid.lockCid := fun hl =>
      not_not.1 fun hne => hlocked ⟨hl, by rwa [h.cid]⟩
    have hsize := (token.length_msgParse hid.u2fInstance hid.payload hid.len).trans h.size
    have hmessage : ∀ cid payload,
        Action.msg cid payload = .msg hid.cid (hid.payload.take hid.len) ↔
          request.cmd = U2F_HID_MSG ∧ (hid.lock = true → request.cid = hid.lockCid) ∧
            cid = request.cid ∧ payload = request.payload := by
      intro cid payload
      rw [h.cid, h.payload, ← h.cmd]
      simp only [hmsg, Action.msg.injEq, true_and]
      exact ⟨fun hm => ⟨hfree, hm⟩, fun hm => hm.2⟩
    rcases hparse : token.msgParse hid.u2fInstance hid.payload hid.len with ⟨respLen, payload, inst⟩
    rw [hparse] at hsize
    by_cases hresp : respLen > 0
    · simp only [hresp, if_true]
      refine ⟨h.left, hsize, requests_sendResponse _, fun cid payload => ?_, by rw [if_neg hnl]⟩
      rw [List.mem_cons, or_iff_left msg_not_mem_sendResponse]
      exact hmessage cid payload
    · simp only [hresp, if_false]
      refine ⟨h.left, hsize, rfl, fun cid payload => ?_, by rw [if_neg hnl]⟩
      rw [List.mem_singleton]
      exact hmessage cid payload

theorem lock_executed (h : Holds hid request) (hlock : hid.cmd = U2F_HID_LOCK) :
    Executed hid request (parseRequest token random hid).2.1 (parseRequest token random hid).2.2 := by
  have hne : request.cmd ≠ U2F_HID_MSG := by rw [← h.cmd, hlock]; decide
  rw [parseRequest, if_neg (by rw [hlock]; decide), if_neg (by rw [hlock]; decide), if_pos hlock]
  by_cases hlen : hid.len ≠ 1
  · rw [if_pos hlen]
    exact .other h hne (fun hl => hlen (h.len.trans hl.2)) rfl rfl rfl rfl (by simp)
  · have hl : request.IsLock := ⟨h.cmd.symm.trans hlock, h.len.symm.trans (not_not.1 hlen)⟩
    have hbyte : request.payload.getD 0 0 = hid.payload.getD 0 0 := by
      rw [← h.payload, not_not.1 hlen]
      rcases hid.payload with _ | ⟨b, payload⟩ <;> rfl
    rw [if_neg hlen]
    by_cases hoff : hid.payload.getD 0 0 = 0
    · simp only [hoff, if_true]
      refine ⟨h.left, h.size, rfl, fun cid payload => iff_of_false (by simp) fun hm => hne hm.1, ?_⟩
      rw [if_pos hl, hbyte, if_pos hoff]
    · simp only [hoff, if_false]
      refine ⟨h.left, h.size, rfl, fun cid payload => iff_of_false (by simp) fun hm => hne hm.1, ?_⟩
      rw [if_pos hl, hbyte, if_neg hoff, h.cid]

theorem parseRequest_executed (h : Holds hid request) :
    Executed hid request (parseRequest token random hid).2.1 (parseRequest token random hid).2.2 := by
  by_cases hmsg : hid.cmd = U2F_HID_MSG
  · exact msg_executed h hmsg
  by_cases hlock : hid.cmd = U2F_HID_LOCK
  · exact lock_executed h hlock
  have hne : request.cmd ≠ U2F_HID_MSG := h.cmd ▸ hmsg
  have hnl : ¬request.IsLock := fun hl => hlock (h.cmd.trans hl.1)
  rw [parseRequest, if_neg hmsg, if_neg hlock]
  by_cases hping : hid.cmd = U2F_HID_PING
  · rw [if_pos hping]
    exact .other h hne hnl rfl rfl rfl rfl fun _ => sendResponse_sends
  rw [if_neg hping]
  by_cases hinit : hid.cmd = U2F_HID_INIT
  · rw [if_pos hinit]
    by_cases hrefused : hid.len ≠ 8 ∨ hid.cid ≠ U2F_HID_BROADCAST_CID ∨ hid.lock = true
    · rw [if_pos hrefused]
      exact .other h hne hnl rfl rfl rfl rfl (by simp)
    · rw [if_neg hrefused]
      refine .other h hne hnl rfl ?_ rfl rfl fun _ => sendResponse_sends
      show (overwrite hid.payload 8 _).length = _
      rw [length_overwrite (by rw [h.size]; decide), h.size, List.length_append, cidBytes,
        length_bitLibNumToBytesLe]
      decide
  rw [if_neg hinit]
  by_cases hwink : hid.cmd = U2F_HID_WINK
  · rw [if_pos hwink]
    by_cases hlen : hid.len ≠ 0
    · rw [if_pos hlen]
      exact .other h hne hnl rfl rfl rfl rfl (by simp)
    · rw [if_neg hlen]
      exact .other h hne hnl rfl rfl rfl rfl fun _ => sendResponse_sends
  rw [if_neg hwink]
  exact .other h hne hnl rfl rfl rfl rfl (by simp)

theorem Executed.sendError {error : UInt8} (h : Executed hid request hid' actions) :
    Executed hid request (sendError hid' error).1 (actions ++ (sendError hid' error).2) where
  left := h.left
  size := by
    show (overwrite hid'.payload 0 [error]).length = _
    rw [length_overwrite (Nat.zero_le _), h.size, List.length_singleton]
    decide
  requests := by
    rw [U2fHid.requests, List.filterMap_append]
    exact List.append_eq_nil_iff.2 ⟨h.requests, requests_sendResponse _⟩
  message cid payload := by
    rw [List.mem_append, U2fHid.sendError, or_iff_left msg_not_mem_sendResponse]
    exact h.message cid payload
  lock := h.lock

theorem execute_executed (h : Holds hid request) :
    ∃ actions, (execute token random hid).2 =
        .request request.cid request.cmd request.payload :: actions ∧
      Executed hid request (execute token random hid).1 actions := by
  have hparse := @parseRequest_executed _ token random _ _ h
  rw [execute, if_pos h.left, h.cid, h.cmd, h.payload]
  rcases hr : parseRequest token random hid with ⟨accepted, hid', actions⟩
  rw [hr] at hparse
  cases accepted with
  | true => exact ⟨actions, rfl, hparse⟩
  | false => exact ⟨_, rfl, hparse.sendError⟩

end Execution

section Assembly

variable {token : U2fToken U} {random : UInt32} {hid hid' : U2fHid U} {pending : Option Message}
  {packet : List UInt8}

/-- The message that is being put together is in the payload. -/
def Matches (hid : U2fHid U) : Option Message → Prop
  | none => hid.reqLenLeft = 0
  | some message => 0 < hid.reqLenLeft ∧ message.data.length + hid.reqLenLeft = message.len ∧
      message.len ≤ U2F_HID_MAX_PAYLOAD_LEN ∧ hid.cid = message.cid ∧ hid.cmd = message.cmd ∧
      hid.len = message.len ∧ hid.seqIdLast = message.seq ∧
      hid.reqBufPtr = message.data.length ∧ hid.payload.take message.data.length = message.data

/-- What a packet leads to: the worker has only taken note of it, or it executes what is complete. -/
def Received (token : U2fToken U) (random : UInt32) (hid : U2fHid U)
    (result : Option Message × Option Request) (r : Except String (U2fHid U × List Action)) : Prop :=
  ∃ hid₁ : U2fHid U, hid₁.payload.length = U2F_HID_MAX_PAYLOAD_LEN ∧ hid₁.lock = hid.lock ∧
    hid₁.lockCid = hid.lockCid ∧
    match result.2 with
    | none => r = .ok (hid₁, []) ∧ Matches hid₁ result.1
    | some request => r = .ok (execute token random hid₁) ∧ Holds hid₁ request ∧ result.1 = none

theorem received_complete {message : Message} {hid₁ : U2fHid U}
    (hsize : hid₁.payload.length = U2F_HID_MAX_PAYLOAD_LEN) (hlock : hid₁.lock = hid.lock)
    (hlockCid : hid₁.lockCid = hid.lockCid)
    (hleft : message.data.length + hid₁.reqLenLeft = message.len)
    (hmax : message.len ≤ U2F_HID_MAX_PAYLOAD_LEN) (hcid : hid₁.cid = message.cid)
    (hcmd : hid₁.cmd = message.cmd) (hlen : hid₁.len = message.len)
    (hseq : hid₁.seqIdLast = message.seq) (hptr : hid₁.reqBufPtr = message.data.length)
    (hdata : hid₁.payload.take message.data.length = message.data) :
    Received token random hid message.complete (.ok (execute token random hid₁)) := by
  refine ⟨hid₁, hsize, hlock, hlockCid, ?_⟩
  unfold Message.complete
  by_cases hall : message.data.length = message.len
  · rw [if_pos hall]
    refine ⟨rfl, ⟨by omega, hsize, hcid, hcmd, hlen.trans hall.symm, ?_⟩, rfl⟩
    rw [hlen, ← hall]
    exact hdata
  · rw [if_neg hall]
    have hpos : 0 < hid₁.reqLenLeft := by omega
    refine ⟨?_, hpos, hleft, hmax, hcid, hcmd, hlen, hseq, hptr, hdata⟩
    rw [execute, if_neg (by omega)]

theorem memcpyPayload_ok {at_ : ℕ} {bytes : List UInt8}
    (h : at_ + bytes.length ≤ U2F_HID_MAX_PAYLOAD_LEN) :
    hid.memcpyPayload at_ bytes = .ok { hid with payload := overwrite hid.payload at_ bytes } :=
  if_pos h

theorem receive_init (hpacket : packet.length = 64)
    (hsize : hid.payload.length = U2F_HID_MAX_PAYLOAD_LEN) (hinit : isInit packet) :
    Received token random hid (assemble pending packet) (receive token random packet hid) := by
  have hinit' : packet.getD 4 0 &&& U2F_HID_TYPE_MASK = U2F_HID_TYPE_INIT := hinit
  unfold assemble receive
  dsimp only
  rw [if_pos hinit, if_neg (show ¬packet.length = 0 by omega), if_pos hinit',
    if_neg (show ¬packet.length < 7 by omega)]
  generalize (packet.getD 5 0).toNat * 256 + (packet.getD 6 0).toNat = len
  by_cases hlong : len > U2F_HID_MAX_PAYLOAD_LEN
  · rw [if_pos hlong, if_pos hlong]
    exact ⟨{ hid with len, reqLenLeft := 0 }, hsize, rfl, rfl, rfl, rfl⟩
  · rw [if_neg hlong, if_neg hlong]
    have hmax : 57 ≤ U2F_HID_MAX_PAYLOAD_LEN := by decide
    -- the bytes of this packet, and how many are missing
    obtain ⟨n, left, hsplit, hn, hle, hbytes⟩ : ∃ n left,
        (if len > packet.length - 7 then (len - (packet.length - 7), packet.length - 7)
          else (0, len)) = (left, n) ∧ n + left = len ∧ n ≤ 57 ∧
        (packet.drop 7).take n = (packet.drop 7).take len := by
      by_cases hmore : len > packet.length - 7
      · refine ⟨packet.length - 7, _, if_pos hmore, by omega, by omega, ?_⟩
        rw [List.take_of_length_le (by simp), List.take_of_length_le (by simp; omega)]
      · exact ⟨len, 0, if_neg hmore, rfl, by omega, rfl⟩
    rw [hsplit, ← hbytes]
    have hlength : ((packet.drop 7).take n).length = n := by
      rw [List.length_take, List.length_drop]
      omega
    by_cases hzero : n > 0
    · simp only [hzero, if_true]
      rw [memcpyPayload_ok (by omega)]
      refine received_complete ?_ rfl rfl (by simp only [hlength]; exact hn) (not_lt.1 hlong) rfl rfl
        rfl rfl hlength.symm ?_
      · rw [length_overwrite (Nat.zero_le _), hsize]
        omega
      · have htake := take_overwrite_length (Nat.zero_le hid.payload.length) ((packet.drop 7).take n)
        simpa using htake
    · simp only [hzero, if_false]
      obtain rfl : n = 0 := by omega
      exact received_complete hsize rfl rfl (by simpa using hn) (not_lt.1 hlong) rfl rfl rfl rfl
        rfl rfl

theorem receive_cont (hpacket : packet.length = 64)
    (hsize : hid.payload.length = U2F_HID_MAX_PAYLOAD_LEN) (hinit : ¬isInit packet)
    (hpending : pending ≠ none) (h : Matches hid pending) :
    Received token random hid (assemble pending packet) (receive token random packet hid) := by
  have hinit' : ¬packet.getD 4 0 &&& U2F_HID_TYPE_MASK = U2F_HID_TYPE_INIT := hinit
  obtain ⟨message, rfl⟩ := Option.ne_none_iff_exists'.1 hpending
  obtain ⟨hpos, hleft, hmax, hcid, hcmd, hlen, hseq, hptr, hdata⟩ := h
  unfold assemble receive
  dsimp only
  rw [if_neg hinit, if_neg (show ¬packet.length = 0 by omega), if_neg hinit',
    if_neg (show ¬packet.length < 5 by omega)]
  by_cases hmine : packetCid packet = message.cid ∧ packet.getD 4 0 = message.seq
  · rw [if_pos hmine, if_pos ⟨hpos, by rw [hcid, hseq]; exact hmine⟩]
    obtain ⟨n, left, hsplit, hn, hle, hbytes⟩ : ∃ n left,
        (if hid.reqLenLeft > packet.length - 5 then
          (hid.reqLenLeft - (packet.length - 5), packet.length - 5)
          else (0, hid.reqLenLeft)) = (left, n) ∧ n + left = hid.reqLenLeft ∧ n ≤ 59 ∧
        (packet.drop 5).take n = (packet.drop 5).take (message.len - message.data.length) := by
      by_cases hmore : hid.reqLenLeft > packet.length - 5
      · refine ⟨packet.length - 5, _, if_pos hmore, by omega, by omega, ?_⟩
        rw [List.take_of_length_le (by simp), List.take_of_length_le (by simp; omega)]
      · exact ⟨hid.reqLenLeft, 0, if_neg hmore, rfl, by omega, congrArg (List.take · _) (by omega)⟩
    rw [hsplit, ← hbytes]
    have hlength : ((packet.drop 5).take n).length = n := by
      rw [List.length_take, List.length_drop]
      omega
    have hptr' : hid.reqBufPtr ≤ hid.payload.length := by omega
    dsimp only
    rw [memcpyPayload_ok (by omega)]
    refine received_complete ?_ rfl rfl ?_ hmax hcid hcmd hlen (congrArg (· + 1) hseq) ?_ ?_
    · dsimp only
      rw [length_overwrite hptr', hsize]
      omega
    · simp only [List.length_append, hlength]
      omega
    · simp only [List.length_append, hlength]
      omega
    · have htake := take_overwrite_length hptr' ((packet.drop 5).take n)
      rw [hptr] at htake
      simpa [hdata, hptr] using htake
  · rw [if_neg hmine, if_neg (by rw [hcid, hseq]; exact fun h => hmine h.2)]
    refine ⟨hid, hsize, rfl, rfl, ?_, hpos, hleft, hmax, hcid, hcmd, hlen, hseq, hptr, hdata⟩
    rw [execute, if_neg (by omega)]

end Assembly

end U2fHid

namespace U2fHidSession

variable {token : U2fToken U} {session : U2fHidSession U} {event : U2fHidSystem.Event}

/-- What the transport knows is what is to become of it. -/
structure Related (session : U2fHidSession U) : Prop where
  size : session.system.hid.payload.length = U2F_HID_MAX_PAYLOAD_LEN
  pending : Matches session.system.hid session.transport.pending
  owner : session.transport.owner =
    if session.system.flags.unlock = false ∧ session.system.hid.lock = true then
      some session.system.hid.lockCid
    else none
  request : session.system.endpoint.isSome → session.system.stopped = true ∨
    session.system.flags.request = true
  ownerThen : session.system.endpoint.isSome → (session.system.flags.unlock = false →
      session.transport.ownerThen = session.transport.owner) ∧
    ∀ cid, session.transport.ownerThen = some cid → session.system.hid.lock = true →
      session.system.hid.lockCid = cid

theorem Related.start (u2fInstance : U) : Related (start u2fInstance) :=
  ⟨List.length_replicate, rfl, rfl, nofun, nofun⟩

/-- What an event does. -/
structure Turned (session : U2fHidSession U) (event : U2fHidSystem.Event) (actions : List Action)
    (system : U2fHidSystem U) : Prop where
  related : Related ⟨system, session.transport.step session.system event⟩
  executed : requests actions = (session.transport.request session.system event).toList
  locked : ∀ cid payload, .msg cid payload ∈ actions →
    session.transport.owner = none ∨ session.transport.owner = some cid
  unlocked : ∀ request, session.transport.request session.system event = some request →
    request.cmd = U2F_HID_MSG →
    (session.transport.ownerThen = none ∨ session.transport.ownerThen = some request.cid) →
    .msg request.cid request.payload ∈ actions

theorem Turned.idle {system : U2fHidSystem U} (hread : session.system.packetRead event = none)
    (h : Related ⟨system, session.transport.step session.system event⟩) :
    Turned session event [] system where
  related := h
  executed := by rw [Transport.request, hread]; rfl
  locked _ _ hmem := (List.not_mem_nil hmem).elim
  unlocked request hrequest := by
    rw [Transport.request, hread] at hrequest
    cases hrequest

theorem nextOwner_eq {owner : Option UInt32} {request : Request} {hid hid' : U2fHid U}
    {actions : List Action} {unlock : Bool}
    (howner : owner = if unlock = false ∧ hid.lock = true then some hid.lockCid else none)
    (hholder : request.IsLock → owner = none ∨ owner = some request.cid)
    (hstale : unlock = true → request.IsLock → request.payload.getD 0 0 = 0)
    (h : Executed hid request hid' actions) :
    nextOwner owner (some request) =
      if unlock = false ∧ hid'.lock = true then some hid'.lockCid else none := by
  have hlock := h.lock
  unfold nextOwner
  dsimp only
  by_cases hl : request.IsLock
  · rw [if_pos ⟨hl, hholder hl⟩]
    rw [if_pos hl] at hlock
    by_cases hoff : request.payload.getD 0 0 = 0
    · rw [if_pos hoff] at hlock ⊢
      rw [(Prod.mk.inj hlock).1]
      simp
    · rw [if_neg hoff] at hlock ⊢
      have hunlock : unlock = false := by
        rcases unlock with _ | _
        · rfl
        · exact absurd (hstale rfl hl) hoff
      rw [(Prod.mk.inj hlock).1, (Prod.mk.inj hlock).2, hunlock]
      simp
  · rw [if_neg fun h => hl h.1, howner]
    rw [if_neg hl] at hlock
    rw [(Prod.mk.inj hlock).1, (Prod.mk.inj hlock).2]

theorem step_worker_none {random : UInt32} {transport : Transport} {system : U2fHidSystem U}
    (h : system.packetRead (.worker random) = none) :
    transport.step system (.worker random) = transport := by
  simp only [Transport.step, h]

theorem step_worker_some {random : UInt32} {transport : Transport} {system : U2fHidSystem U}
    {packet : List UInt8} (h : system.packetRead (.worker random) = some packet) :
    transport.step system (.worker random) =
      { transport with
        pending := (assemble transport.pending packet).1
        owner := nextOwner transport.owner (assemble transport.pending packet).2 } := by
  simp only [Transport.step, Transport.request, h, Option.bind_some]

/-- What is read in a turn of the worker leads to this. -/
structure Read (session : U2fHidSession U) (event : U2fHidSystem.Event) (hid : U2fHid U)
    (actions : List Action) : Prop where
  size : hid.payload.length = U2F_HID_MAX_PAYLOAD_LEN
  pending : Matches hid (session.transport.step session.system event).pending
  owner : (session.transport.step session.system event).owner =
    if session.system.flags.unlock = false ∧ hid.lock = true then some hid.lockCid else none
  executed : requests actions = (session.transport.request session.system event).toList
  locked : ∀ cid payload, .msg cid payload ∈ actions →
    session.transport.owner = none ∨ session.transport.owner = some cid
  unlocked : ∀ request, session.transport.request session.system event = some request →
    request.cmd = U2F_HID_MSG →
    (session.transport.ownerThen = none ∨ session.transport.ownerThen = some request.cid) →
    .msg request.cid request.payload ∈ actions

theorem Related.read_none {random : UInt32} (h : Related session)
    (hread : session.system.packetRead (.worker random) = none) :
    Read session (.worker random) session.system.hid [] where
  size := h.size
  pending := by
    rw [step_worker_none hread]
    exact h.pending
  owner := by
    rw [step_worker_none hread]
    exact h.owner
  executed := by rw [Transport.request, hread]; rfl
  locked _ _ hmem := (List.not_mem_nil hmem).elim
  unlocked request hrequest := by
    rw [Transport.request, hread] at hrequest
    cases hrequest

theorem Related.read_part {random : UInt32} {packet : List UInt8} {hid₁ : U2fHid U}
    (h : Related session) (hread : session.system.packetRead (.worker random) = some packet)
    (hpart : (assemble session.transport.pending packet).2 = none)
    (hsize : hid₁.payload.length = U2F_HID_MAX_PAYLOAD_LEN)
    (hlock : hid₁.lock = session.system.hid.lock)
    (hlockCid : hid₁.lockCid = session.system.hid.lockCid)
    (hmatches : Matches hid₁ (assemble session.transport.pending packet).1) :
    Read session (.worker random) hid₁ [] where
  size := hsize
  pending := by
    rw [step_worker_some hread]
    exact hmatches
  owner := by
    rw [step_worker_some hread, hpart, hlock, hlockCid]
    exact h.owner
  executed := by rw [Transport.request, hread, Option.bind_some, hpart]; rfl
  locked _ _ hmem := (List.not_mem_nil hmem).elim
  unlocked request hrequest := by
    rw [Transport.request, hread, Option.bind_some, hpart] at hrequest
    cases hrequest

theorem Related.read_request {random : UInt32} {packet : List UInt8} {hid₁ : U2fHid U}
    {request : Request} (h : Related session) (hsound : session.Sound (.worker random))
    (hread : session.system.packetRead (.worker random) = some packet)
    (hendpoint : session.system.endpoint.isSome)
    (hrequest : (assemble session.transport.pending packet).2 = some request)
    (hnone : (assemble session.transport.pending packet).1 = none)
    (hlock : hid₁.lock = session.system.hid.lock)
    (hlockCid : hid₁.lockCid = session.system.hid.lockCid) (hholds : Holds hid₁ request) :
    Read session (.worker random) (execute token random hid₁).1 (execute token random hid₁).2 := by
  have hcomplete : session.transport.request session.system (.worker random) = some request := by
    rw [Transport.request, hread, Option.bind_some, hrequest]
  obtain ⟨actions, hactions, hexecuted⟩ := @execute_executed _ token random _ _ hholds
  have howner := h.owner
  rw [← hlock, ← hlockCid] at howner
  have hmsg : ∀ cid payload, Action.msg cid payload ∈ (execute token random hid₁).2 ↔
      Action.msg cid payload ∈ actions := fun cid payload => by
    rw [hactions, List.mem_cons, or_iff_right (by simp)]
  refine ⟨hexecuted.size, ?_, ?_, ?_, fun cid payload hmem => ?_, fun request' hrequest' hm hthen => ?_⟩
  · rw [step_worker_some hread, hnone]
    exact hexecuted.left
  · rw [step_worker_some hread, hrequest]
    exact nextOwner_eq howner (hsound.holder request hcomplete)
      (fun hunlock => (hsound.stale hunlock request hcomplete).1) hexecuted
  · rw [hcomplete, hactions]
    exact congrArg (request :: ·) hexecuted.requests
  · obtain ⟨-, hfree, rfl, -⟩ := (hexecuted.message cid payload).1 ((hmsg _ _).1 hmem)
    rw [howner]
    split_ifs with hl
    · exact .inr (congrArg some (hfree hl.2).symm)
    · exact .inl rfl
  · rw [hcomplete] at hrequest'
    cases hrequest'
    refine (hmsg _ _).2 ((hexecuted.message _ _).2 ⟨hm, fun hl => ?_, rfl, rfl⟩)
    -- the lock is not held by another channel, or it would have been when the packet came
    by_contra hne
    obtain ⟨hthen_owner, hthen_lock⟩ := h.ownerThen hendpoint
    rw [hlock] at hl
    rw [hlockCid] at hne
    rcases hunlock : session.system.flags.unlock with _ | _
    · rw [hthen_owner hunlock, h.owner, if_pos ⟨hunlock, hl⟩] at hthen
      rcases hthen with hthen | hthen
      · cases hthen
      · exact hne (Option.some.inj hthen).symm
    · have hheld := (hsound.stale hunlock request hcomplete).2 hm hl hne
      rcases hthen with hthen | hthen
      · exact hheld hthen
      · exact hne (hthen_lock _ hthen hl).symm

theorem Related.read {random : UInt32} {inst : U} (h : Related session)
    (hsound : session.Sound (.worker random)) (hstopped : session.system.stopped = false)
    (hstop : session.system.flags.stop = false) :
    ∃ hid actions,
      U2fHidSystem.getRequest token session.system.flags random session.system.endpoint
        { session.system.hid with u2fInstance := inst } = .ok (hid, actions) ∧
      Read session (.worker random) hid actions := by
  have hread : session.system.packetRead (.worker random) =
      session.system.endpoint.map (·.toList) := by
    simp [U2fHidSystem.packetRead, hstopped, hstop]
  unfold U2fHidSystem.getRequest
  rcases hendpoint : session.system.endpoint with _ | packet
  · rw [hendpoint] at hread
    have hidle := h.read_none hread
    have hidle' : Read session (.worker random) { session.system.hid with u2fInstance := inst } [] :=
      ⟨hidle.size, hidle.pending, hidle.owner, hidle.executed, hidle.locked, hidle.unlocked⟩
    by_cases hrequest : session.system.flags.request = true
    · rw [if_pos hrequest]
      exact ⟨_, _, rfl, hidle'⟩
    · rw [if_neg hrequest]
      exact ⟨_, _, rfl, hidle'⟩
  · have hsome : session.system.endpoint.isSome := by rw [hendpoint]; rfl
    have hrequest : session.system.flags.request = true :=
      (h.request hsome).resolve_left (by simp [hstopped])
    rw [hendpoint] at hread
    rw [if_pos hrequest]
    have hreceived : Received token random { session.system.hid with u2fInstance := inst }
        (assemble session.transport.pending packet.toList)
        (receive token random packet.toList { session.system.hid with u2fInstance := inst }) := by
      by_cases hinit : isInit packet.toList
      · exact receive_init (by simp) h.size hinit
      · refine receive_cont (by simp) h.size hinit (hsound.stray _ hread hinit) ?_
        exact h.pending
    obtain ⟨hid₁, hsize, hlock, hlockCid, hrest⟩ := hreceived
    rcases hresult : (assemble session.transport.pending packet.toList).2 with _ | request
    · rw [hresult] at hrest
      exact ⟨hid₁, [], hrest.1, h.read_part hread hresult hsize hlock hlockCid hrest.2⟩
    · rw [hresult] at hrest
      exact ⟨_, _, hrest.1, h.read_request hsound hread hsome hresult hrest.2.2 hlock hlockCid
        hrest.2.1⟩

theorem Related.handle {random : UInt32} (h : Related session)
    (hsound : session.Sound (.worker random)) (hstopped : session.system.stopped = false)
    (hstop : session.system.flags.stop = false) (left : WorkerFlags)
    (hleft : left.unlock = session.system.flags.unlock) :
    ∃ actions system, { session.system with flags := left }.handle token session.system.flags random =
        .ok (actions, system) ∧ Turned session (.worker random) actions system := by
  obtain ⟨hid, actions, hok, hread⟩ := @Related.read _ token session random
    (U2fHidSystem.setState token session.system.flags session.system.hid.u2fInstance) h hsound
    hstopped hstop
  have hendpoint : (if session.system.flags.request = true then none else session.system.endpoint) =
      none := by
    rcases hsome : session.system.endpoint with _ | packet
    · exact ite_self _
    · exact if_pos ((h.request (by rw [hsome]; rfl)).resolve_left (by simp [hstopped]))
  unfold U2fHidSystem.handle
  dsimp only
  rw [hok]
  refine ⟨_, _, rfl, ⟨?_, ?_, ?_, ?_, ?_⟩, hread.executed, hread.locked, hread.unlocked⟩
  · dsimp only
    split_ifs <;> exact hread.size
  · dsimp only
    split_ifs <;> exact hread.pending
  · dsimp only
    rw [hread.owner, hleft]
    rcases hunlock : session.system.flags.unlock with _ | _ <;> simp
  · dsimp only
    rw [hendpoint]
    exact nofun
  · dsimp only
    rw [hendpoint]
    exact nofun

theorem Related.worker {random : UInt32} (h : Related session)
    (hsound : session.Sound (.worker random)) :
    ∃ actions system, session.system.worker token random = .ok (actions, system) ∧
      Turned session (.worker random) actions system := by
  unfold U2fHidSystem.worker
  by_cases hstopped : session.system.stopped = true
  · rw [if_pos hstopped]
    have hread : session.system.packetRead (.worker random) = none := by
      simp [U2fHidSystem.packetRead, hstopped]
    refine ⟨_, _, rfl, .idle hread ?_⟩
    rw [step_worker_none hread]
    exact h
  · rw [if_neg hstopped]
    by_cases hwait : (session.system.flags.stop || session.system.flags.connect ||
        session.system.flags.disconnect || session.system.flags.request) = true
    · rw [WorkerFlags.wait, if_pos hwait]
      dsimp only
      by_cases hstop : session.system.flags.stop = true
      · rw [if_pos hstop]
        have hread : session.system.packetRead (.worker random) = none := by
          simp [U2fHidSystem.packetRead, hstop]
        refine ⟨_, _, rfl, .idle hread ?_⟩
        rw [step_worker_none hread]
        exact ⟨h.size, h.pending, h.owner, fun _ => .inl rfl, h.ownerThen⟩
      · rw [if_neg hstop]
        exact h.handle hsound (by simpa using hstopped) (by simpa using hstop) _ rfl
    · rw [WorkerFlags.wait, if_neg hwait]
      have hnone : session.system.endpoint = none := by
        by_contra hsome
        have hrequest := (h.request (Option.isSome_iff_ne_none.2 hsome)).resolve_left hstopped
        simp [hrequest] at hwait
      have hread : session.system.packetRead (.worker random) = none := by
        simp [U2fHidSystem.packetRead, hnone]
      refine ⟨_, _, rfl, .idle hread ?_⟩
      rw [step_worker_none hread]
      exact h

theorem Related.step (h : Related session) (hsound : session.Sound event) :
    ∃ actions system, session.system.step token event = .ok (actions, system) ∧
      Turned session event actions system := by
  cases event with
  | packet bytes =>
    rw [U2fHidSystem.step]
    by_cases hbusy : (session.system.endpoint.isSome || session.system.stopped) = true
    · rw [if_pos hbusy]
      refine ⟨_, _, rfl, .idle rfl ?_⟩
      rw [Transport.step, if_pos hbusy]
      exact h
    · rw [if_neg hbusy]
      refine ⟨_, _, rfl, .idle rfl ?_⟩
      rw [Transport.step, if_neg hbusy]
      refine ⟨h.size, h.pending, h.owner, fun _ => .inr rfl, fun _ => ⟨fun _ => rfl, ?_⟩⟩
      intro cid hcid hlock
      rw [show session.transport.owner = _ from h.owner] at hcid
      split_ifs at hcid
      exact Option.some.inj hcid
  | lockTimeout =>
    rw [U2fHidSystem.step]
    by_cases htimer : session.system.lockTimer = true
    · rw [if_pos htimer]
      refine ⟨_, _, rfl, .idle rfl ?_⟩
      rw [Transport.step, if_pos htimer]
      exact ⟨h.size, h.pending, rfl, h.request, fun hsome =>
        ⟨nofun, (h.ownerThen hsome).2⟩⟩
    · rw [if_neg htimer]
      refine ⟨_, _, rfl, .idle rfl ?_⟩
      rw [Transport.step, if_neg htimer]
      exact h
  | connect => exact ⟨_, _, rfl, .idle rfl ⟨h.size, h.pending, h.owner, h.request, h.ownerThen⟩⟩
  | disconnect => exact ⟨_, _, rfl, .idle rfl ⟨h.size, h.pending, h.owner, h.request, h.ownerThen⟩⟩
  | stop => exact ⟨_, _, rfl, .idle rfl ⟨h.size, h.pending, h.owner, h.request, h.ownerThen⟩⟩
  | worker random => exact h.worker hsound

/-- In a run whose steps are sound the transport does what it owes. -/
theorem transport_lawful (token : U2fToken U) (u2fInstance : U)
    (events : List U2fHidSystem.Event)
    (hsound : ExecAlong Sound (step token) (start u2fInstance) events) :
    ExecAlong (Lawful token) (step token) (start u2fInstance) events := by
  have hstart := Related.start u2fInstance
  generalize start u2fInstance = session at hsound hstart
  induction events generalizing session with
  | nil => trivial
  | cons event events ih =>
    obtain ⟨actions, system, hstep, hturned⟩ := @Related.step _ token _ _ hstart hsound.1
    refine ⟨⟨⟨_, hstep⟩, ?_, ?_, ?_⟩, fun session' hsession => ?_⟩
    · intro actions' system' hstep'
      cases hstep.symm.trans hstep'
      exact hturned.executed
    · intro actions' system' hstep'
      cases hstep.symm.trans hstep'
      exact hturned.locked
    · intro actions' system' hstep'
      cases hstep.symm.trans hstep'
      exact hturned.unlocked
    · have hnext := hsound.2 session' hsession
      unfold U2fHidSession.step at hsession
      rw [hstep] at hsession
      cases hsession
      exact ih _ hnext hturned.related

/-- A token that answers every message with one byte. -/
def byteToken : U2fToken Unit := ⟨fun _ payload _ => (1, payload, ()), fun _ => (), fun _ _ => (),
  fun _ _ _ => rfl⟩

/-- A packet of channel 1 without anything in it. -/
def emptyPacket (cmd : UInt8) : Vector UInt8 64 :=
  Vector.ofFn fun i => if i.val = 0 then 1 else if i.val = 4 then cmd else 0

/-- An empty message is received and executed. -/
theorem transport_lawful_message :
    ExecAlong (Lawful byteToken) (step byteToken) (start ())
      [.packet (emptyPacket U2F_HID_MSG), .worker 0] := by
  refine transport_lawful byteToken () _ ⟨⟨nofun, nofun, nofun⟩, fun session hsession => ?_⟩
  cases hsession
  refine ⟨⟨fun packet hpacket hinit => absurd ?_ hinit, fun request hrequest hlock => ?_, nofun⟩,
    fun _ _ => trivial⟩
  · cases hpacket
    decide
  · cases hrequest
    exact absurd hlock (by decide)

set_option maxRecDepth 20000 in
/-- A packet that continues nothing executes what the last message has left once more. -/
theorem not_transport_lawful_stray : ¬∀ (token : U2fToken Unit) (events : List U2fHidSystem.Event),
    ExecAlong (Lawful token) (step token) (start ()) events := by
  intro h
  have hrun := h byteToken
    [.packet (emptyPacket U2F_HID_MSG), .worker 0, .packet (emptyPacket 0), .worker 0]
  have hlast := (((hrun.2 _ rfl).2 _ rfl).2 _ rfl).1
  have hexecuted := hlast.executed _ _ rfl
  cases hexecuted

end U2fHidSession

end KiisuFirmware
