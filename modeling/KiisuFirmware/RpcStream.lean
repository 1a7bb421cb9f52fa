import KiisuFirmware.Run

/-!
# The input stream of a remote session

`rpc.c`: bytes are fed to a stream, from which the thread of the session reads to decode messages.
A feed first puts bytes into the stream and then sets a flag. The thread may be anywhere in a read
when that happens. What it decodes from the bytes is not modelled: it reads, and then has a message
or fails.
-/

namespace KiisuFirmware

def rpcBufferSize : ℕ := 1024

/-- Where the loop of `rpc_pb_stream_read` is. -/
inductive ReadPlace
  | receive
  | wait
  /-- With the flags that were set. -/
  | woken (newData disconnect : Bool)
  deriving DecidableEq

/-- A read, with what is in its buffer. -/
structure StreamRead where
  count : ℕ
  received : List UInt8
  place : ReadPlace
  deriving DecidableEq

/-- A session, with the flags of its thread. -/
structure RpcSession where
  stream : List UInt8
  newData : Bool
  disconnect : Bool
  terminate : Bool
  decodeError : Bool
  read : Option StreamRead
  deriving DecidableEq

namespace RpcSession

def opened : RpcSession := ⟨[], false, false, false, false, none⟩

variable (session : RpcSession)

/-- What the stream takes of a feed. -/
def send (bytes : List UInt8) : RpcSession := { session with stream := session.stream ++ bytes }

def setNewData : RpcSession := { session with newData := true }

def close : RpcSession := { session with disconnect := true }

/-- A read begins; it fails at once in a session that is terminated. -/
def beginRead (count : ℕ) : Option (Option (List UInt8)) × RpcSession :=
  if session.terminate then (some none, session)
  else (none, { session with read := some ⟨count, [], .receive⟩ })

/-- A step of a read, with the bytes if it succeeds. -/
def advance : Option (Option (List UInt8)) × RpcSession :=
  match session.read with
  | none => (none, session)
  | some read =>
    match read.place with
    | .receive =>
      let n := read.count - read.received.length
      let received := read.received ++ session.stream.take n
      let session := { session with stream := session.stream.drop n }
      -- never go out till the disconnect comes
      let received := if session.decodeError then [] else received
      if read.count = received.length then (some (some received), { session with read := none })
      else (none, { session with read := some ⟨read.count, received, .wait⟩ })
    | .wait =>
      if session.newData || session.disconnect then
        (none, { session with
          newData := false
          disconnect := false
          read := some { read with place := .woken session.newData session.disconnect } })
      else (none, session)
    | .woken _ disconnect =>
      if disconnect then
        if session.stream = [] then
          (some none, { session with terminate := true, read := none })
        else
          (none, { session with
            disconnect := true
            read := some { read with place := .receive } })
      else (none, { session with read := some { read with place := .receive } })

/-- The thread sleeps until a flag is set. -/
def blocked : Bool :=
  match session.read with
  | some ⟨_, _, .wait⟩ => !(session.newData || session.disconnect)
  | _ => false

/-- What is done about a message that cannot be decoded. -/
def decodeFailed : RpcSession :=
  let session := { session with stream := [] }
  if session.terminate then session else { session with decodeError := true }

end RpcSession

/-! ## Feeding and decoding -/

/-- What is known of a message that was decoded. -/
inductive DecodedContent
  | handled
  /-- There is no content. -/
  | unset
  | notImplemented
  deriving DecidableEq

inductive StreamAction
  /-- The part of a chunk that the stream takes. -/
  | send (bytes : List UInt8)
  /-- The flag of a feed. -/
  | notify
  | close
  /-- The decoder reads. -/
  | read (count : ℕ)
  /-- The thread goes on with a read. -/
  | advance
  /-- The decoder has a message. -/
  | decoded (content : DecodedContent)
  /-- The decoder fails. -/
  | failed

/-- A session, with what was fed and read, whether it was closed, and what the decoder has done:
how many reads for a message, whether one failed, and whether the thread is at its end. -/
structure StreamRun where
  session : RpcSession
  feeding : Bool
  closed : Bool
  accepted : List UInt8
  returned : List UInt8
  reads : ℕ
  readFailed : Bool
  stopped : Bool
  deriving DecidableEq

/-- What comes of an action: a read that returns, and a message that is handled. -/
inductive StreamOutput
  | none
  | success (bytes : List UInt8)
  | failure
  | message
  deriving DecidableEq

namespace StreamRun

def opened : StreamRun := ⟨.opened, false, false, [], [], 0, false, false⟩

variable (run : StreamRun)

/-- A step of a read is over, and the read may be. -/
def readStep (result : Option (Option (List UInt8)) × RpcSession) : StreamOutput × StreamRun :=
  let run := { run with session := result.2 }
  match result.1 with
  | none => (.none, run)
  | some none => (.failure, { run with reads := run.reads + 1, readFailed := true })
  | some (some bytes) =>
    (.success bytes, { run with returned := run.returned ++ bytes, reads := run.reads + 1 })

/-- The end of a turn of `rpc_session_worker`. -/
def endTurn (session : RpcSession) : StreamRun :=
  { run with session := session, reads := 0, readFailed := false, stopped := session.terminate }

def step : StreamAction → StreamOutput × StreamRun
  | .send bytes => (.none, { run with
      session := run.session.send bytes
      feeding := true
      accepted := run.accepted ++ bytes })
  | .notify => (.none, { run with session := run.session.setNewData, feeding := false })
  | .close => (.none, { run with session := run.session.close, closed := true })
  | .read count => run.readStep (run.session.beginRead count)
  | .advance => run.readStep run.session.advance
  | .decoded .handled => (.message, run.endTurn run.session)
  | .decoded .unset => (.none, run.endTurn run.session.decodeFailed)
  | .decoded .notImplemented => (.none, run.endTurn run.session)
  | .failed => (.none, run.endTurn run.session.decodeFailed)

end StreamRun

end KiisuFirmware
