import KiisuFirmware.EventLoopTimer

/-!
# The event loop

`event_loop.c`, as the interleaving of the loop's own thread with everybody else. The loop's
thread is somewhere in `furi_event_loop_run` (`LoopPhase`) and moves from there to the next place
where another thread may come in between; in a callback, and while the loop does not run, it
calls the API. Other threads and interrupts change the objects, notify the loop of it, raise
thread flags and stop the loop at any time.

Items live in the heap: an item is known by the address its block has, here a number that is
never given out twice, and looking into an item that is not allocated is a fault. The `log` and
`raised` are not in the source, they remember what has happened.
-/

namespace KiisuFirmware

/-! ## Events -/

def eventIn : UInt32 := 0x1

def eventOut : UInt32 := 0x2

def eventMask : UInt32 := 0x3

def eventFlagEdge : UInt32 := 0x4

def eventFlagOnce : UInt32 := 0x8

inductive LoopFault
  /-- A `furi_check` failed. -/
  | check
  /-- `furi_crash`, other than in a `get_level`. -/
  | crash
  /-- `furi_crash` in the `get_level` of an object. -/
  | levelCrash
  | useAfterFree
  /-- The action is not one the loop's thread can take where it is. -/
  | blocked
  | timer (fault : TimerFault)
  deriving DecidableEq, Repr

/-- A contract's `get_level`, given the level of either direction. -/
def getLevelOf (levelIn levelOut : Bool) (event : UInt32) : Except LoopFault Bool :=
  if event = eventIn then .ok levelIn
  else if event = eventOut then .ok levelOut
  else .error .levelCrash

def streamBufferGetLevel (bytesAvailable spacesAvailable : ℕ) : UInt32 → Except LoopFault Bool :=
  getLevelOf (bytesAvailable != 0) (spacesAvailable != 0)

def messageQueueGetLevel (count space : ℕ) : UInt32 → Except LoopFault Bool :=
  getLevelOf (count != 0) (space != 0)

def semaphoreGetLevel (count space : ℕ) : UInt32 → Except LoopFault Bool :=
  getLevelOf (count != 0) (space != 0)

def eventFlagValidBits : UInt32 := 0x00FFFFFF

def eventFlagGetLevel (flags : UInt32) : UInt32 → Except LoopFault Bool :=
  getLevelOf (flags &&& eventFlagValidBits != 0)
    (flags &&& eventFlagValidBits != eventFlagValidBits)

def mutexGetLevel (owned : Bool) : UInt32 → Except LoopFault Bool :=
  getLevelOf (!owned) (!owned)

/-- What `get_level` looks at in an object that can be subscribed to. -/
inductive LoopObject
  | streamBuffer (bytesAvailable spacesAvailable : ℕ)
  | messageQueue (count space : ℕ)
  | semaphore (count space : ℕ)
  | eventFlag (flags : UInt32)
  | mutex (owned : Bool)

def LoopObject.getLevel : LoopObject → UInt32 → Except LoopFault Bool
  | .streamBuffer bytesAvailable spacesAvailable =>
    streamBufferGetLevel bytesAvailable spacesAvailable
  | .messageQueue count space => messageQueueGetLevel count space
  | .semaphore count space => semaphoreGetLevel count space
  | .eventFlag flags => eventFlagGetLevel flags
  | .mutex owned => mutexGetLevel owned

/-! ## Items, links, flags -/

/-- A subscription; it is without an owner once it is to be freed later. -/
structure LoopItem where
  owned : Bool
  event : UInt32
  object : ℕ
  deriving DecidableEq

def LoopItem.isOnce (item : LoopItem) : Bool := item.event &&& eventFlagOnce != 0

def LoopItem.isEdge (item : LoopItem) : Bool := item.event &&& eventFlagEdge != 0

structure LoopLink where
  itemIn : Option ℕ
  itemOut : Option ℕ

/-- The bits of the loop's notification value. -/
inductive LoopFlag
  | event
  | stop
  | timer
  | pending
  | threadFlag
  deriving DecidableEq, Repr

/-- A set of them. -/
abbrev LoopFlags := LoopFlag → Bool

namespace LoopFlags

def none : LoopFlags := fun _ => false

def any (a : LoopFlags) : Bool :=
  a .event || a .stop || a .timer || a .pending || a .threadFlag

def or (a b : LoopFlags) : LoopFlags := fun flag => a flag || b flag

def set (a : LoopFlags) (flag : LoopFlag) : LoopFlags := fun f => a f || f == flag

def clear (a : LoopFlags) (flag : LoopFlag) : LoopFlags := fun f => a f && f != flag

end LoopFlags

inductive ProcessStatus
  | complete
  | incomplete
  | freeLater
  deriving DecidableEq, Repr

/-- Which callback the loop's thread is in, and what it has to come back to. -/
inductive LoopCallback
  /-- The one of an item, which is processed by level or by edge. -/
  | item (flags : LoopFlags) (item : ℕ) (level : Bool)
  | pending
  | threadFlags
  /-- The one of a timer or of the tick. -/
  | time

/-- Where the loop's thread is; `flags` is what it has to restore. -/
inductive LoopPhase
  /-- Not in `furi_event_loop_run`. -/
  | outside
  /-- About to sleep. -/
  | wait
  | fetched (flags : LoopFlags)
  /-- An item was taken off the waiting list. -/
  | popped (flags : LoopFlags) (item : ℕ)
  /-- The item was unsubscribed if that is to happen once, and is to become the current one. -/
  | processing (flags : LoopFlags) (item : ℕ)
  | callback (callback : LoopCallback)
  /-- The item was processed with this outcome. -/
  | processed (flags : LoopFlags) (item : ℕ) (status : ProcessStatus)
  | syncFlags (flags : LoopFlags)
  | restoreFlags (flags : LoopFlags)
  | pendingCallbacks

inductive LoopEvent
  /-- The processing of an item begins, and its event is this. -/
  | processed (item : ℕ) (event : UInt32)
  /-- The loop itself removes the subscription. -/
  | removed (item : ℕ)
  | called (item : ℕ)
  deriving DecidableEq

structure EventLoop where
  objects : ℕ → LoopObject
  links : ℕ → LoopLink
  items : ℕ → Option LoopItem
  nextItem : ℕ
  tree : ℕ → Option ℕ
  waitingList : List ℕ
  currentItem : Option ℕ
  timers : TimerStore
  pendingQueue : List ℕ
  threadFlagsSubscribed : Bool
  notified : LoopFlags
  stopped : Bool
  phase : LoopPhase
  /-- A thread flag was raised and no callback was called for it since. -/
  raised : Bool
  log : List LoopEvent

namespace EventLoop

/-- A new loop, over objects that no loop is linked to. -/
def init (objects : ℕ → LoopObject) (clock : UInt32) : EventLoop where
  objects := objects
  links _ := ⟨none, none⟩
  items _ := none
  nextItem := 0
  tree _ := none
  waitingList := []
  currentItem := none
  timers := .init clock
  pendingQueue := []
  threadFlagsSubscribed := false
  notified := .none
  stopped := false
  phase := .outside
  raised := false
  log := []

variable (loop : EventLoop)

def notify (flag : LoopFlag) : EventLoop := { loop with notified := loop.notified.set flag }

def goTo (phase : LoopPhase) : EventLoop := { loop with phase }

/-- What an item holds, if it is allocated. -/
def deref (item : ℕ) : Except LoopFault LoopItem :=
  match loop.items item with
  | some contents => .ok contents
  | none => .error .useAfterFree

/-! ## Items -/

def itemAlloc (object : ℕ) (event : UInt32) : EventLoop :=
  { loop with
    items := Function.update loop.items loop.nextItem (some ⟨true, event, object⟩)
    nextItem := loop.nextItem + 1 }

def itemFree (item : ℕ) : EventLoop :=
  { loop with items := Function.update loop.items item none }

def itemFreeLater (item : ℕ) (contents : LoopItem) : EventLoop :=
  { loop with items := Function.update loop.items item (some { contents with owned := false }) }

def itemIsWaiting (item : ℕ) : Bool := decide (item ∈ loop.waitingList)

def itemNotify (item : ℕ) : Except LoopFault EventLoop :=
  (loop.deref item).bind fun contents =>
  if !contents.owned then .error .check
  else
    let waitingList :=
      if loop.itemIsWaiting item then loop.waitingList else loop.waitingList ++ [item]
    .ok ({ loop with waitingList }.notify .event)

def linkNotify (object : ℕ) (event : UInt32) : Except LoopFault EventLoop :=
  if event &&& eventIn ≠ 0 then
    match (loop.links object).itemIn with
    | some item => loop.itemNotify item
    | none => .ok loop
  else if event &&& eventOut ≠ 0 then
    match (loop.links object).itemOut with
    | some item => loop.itemNotify item
    | none => .ok loop
  else .error .crash

/-! ## Subscriptions -/

/-- The link's place for a direction: the item there, and the link with another one there. -/
def linkPlace (link : LoopLink) (eventNoFlags : UInt32) :
    Option (Option ℕ × (Option ℕ → LoopLink)) :=
  if eventNoFlags = eventIn then some (link.itemIn, fun item => { link with itemIn := item })
  else if eventNoFlags = eventOut then
    some (link.itemOut, fun item => { link with itemOut := item })
  else none

def subscribe (object : ℕ) (event : UInt32) : Except LoopFault EventLoop :=
  if loop.tree object ≠ none then .error .check
  else
    let item := loop.nextItem
    let loop := loop.itemAlloc object event
    let loop := { loop with tree := Function.update loop.tree object (some item) }
    let eventNoFlags := event &&& eventMask
    match linkPlace (loop.links object) eventNoFlags with
    | none => .error .crash
    | some (old, put) =>
      if old ≠ none then .error .check
      else
        let loop := { loop with links := Function.update loop.links object (put (some item)) }
        if event &&& eventFlagEdge = 0 then
          ((loop.objects object).getLevel eventNoFlags).bind fun level =>
          if level then loop.itemNotify item else .ok loop
        else .ok loop

def unsubscribe (object : ℕ) : Except LoopFault EventLoop :=
  match loop.tree object with
  | none => .error .check
  | some item =>
    let loop := { loop with tree := Function.update loop.tree object none }
    (loop.deref item).bind fun contents =>
    if !contents.owned then .error .check
    else
      match linkPlace (loop.links object) (contents.event &&& eventMask) with
      | none => .error .crash
      | some (old, put) =>
        if old ≠ some item then .error .check
        else
          let loop := { loop with links := Function.update loop.links object (put none) }
          let waitingList :=
            if loop.itemIsWaiting item then loop.waitingList.erase item else loop.waitingList
          let loop := { loop with waitingList }
          if loop.currentItem = some item then .ok (loop.itemFreeLater item contents)
          else .ok (loop.itemFree item)

def subscribeThreadFlags : Except LoopFault EventLoop :=
  if loop.threadFlagsSubscribed then .error .check
  else .ok { loop with threadFlagsSubscribed := true }

def unsubscribeThreadFlags : Except LoopFault EventLoop :=
  if loop.threadFlagsSubscribed then .ok { loop with threadFlagsSubscribed := false }
  else .error .check

/-! ## Deferred calls and timers -/

def pendCallback (callback : ℕ) : EventLoop :=
  { loop with pendingQueue := callback :: loop.pendingQueue }.notify .pending

/-- A call of the timer API; a request for a timer notifies the loop. -/
def timerCall (call : TimerAction) : Except LoopFault EventLoop :=
  match loop.timers.step call with
  | .error fault => .error (.timer fault)
  | .ok timers =>
    match call with
    | .alloc _ => .ok { loop with timers }
    | .start .. | .restart _ | .stop _ | .free _ => .ok ({ loop with timers }.notify .timer)
    | _ => .error .blocked

/-! ## The loop -/

/-- The `get_level` of an item, which is handed the whole of its event. -/
def itemGetLevel (item : ℕ) : Except LoopFault Bool :=
  (loop.deref item).bind fun contents =>
  (loop.objects contents.object).getLevel contents.event

/-- A callback is called. -/
def call (callback : LoopCallback) : EventLoop := loop.goTo (.callback callback)

def record (event : LoopEvent) : EventLoop := { loop with log := loop.log ++ [event] }

/-- `furi_event_loop_run` after the sleep, by the flags it ended with. -/
def dispatch (flags : LoopFlags) : Except LoopFault EventLoop :=
  if flags .stop then .ok { loop.goTo .outside with stopped := true }
  else if flags .event then
    match loop.waitingList with
    | [] => .ok (loop.goTo (.restoreFlags (flags.clear .event)))
    | item :: waitingList =>
      .ok ({ loop with waitingList }.goTo (.popped (flags.clear .event) item))
  else if flags .timer then
    match loop.timers.processTimerQueue with
    | .error fault => .error (.timer fault)
    | .ok timers => .ok ({ loop with timers }.goTo (.restoreFlags (flags.clear .timer)))
  else if flags .pending then .ok (loop.goTo .pendingCallbacks)
  else if flags .threadFlag then
    if loop.threadFlagsSubscribed then .ok ({ loop with raised := false }.call .threadFlags)
    else .ok (loop.goTo .wait)
  else .error .crash

/-- The beginning of `furi_event_loop_process_event`. -/
def processOnce (flags : LoopFlags) (item : ℕ) : Except LoopFault EventLoop :=
  (loop.deref item).bind fun contents =>
  let loop := loop.record (.processed item contents.event)
  if contents.isOnce then
    (loop.unsubscribe contents.object).map fun loop =>
      (loop.record (.removed item)).goTo (.processing flags item)
  else .ok (loop.goTo (.processing flags item))

/-- Up to the callback, if it is called. -/
def processEvent (flags : LoopFlags) (item : ℕ) : Except LoopFault EventLoop :=
  let loop := { loop with currentItem := some item }
  (loop.deref item).bind fun contents =>
  if contents.isEdge then
    .ok ((loop.record (.called item)).call (.item flags item false))
  else
    (loop.itemGetLevel item).map fun level =>
      if level then (loop.record (.called item)).call (.item flags item true)
      else loop.goTo (.processed flags item .complete)

/-- From the end of the callback on. -/
def returnFrom : LoopCallback → Except LoopFault EventLoop
  | .item flags item false => .ok (loop.goTo (.processed flags item .complete))
  | .item flags item true =>
    (loop.itemGetLevel item).map fun level =>
      loop.goTo (.processed flags item (if level then .incomplete else .complete))
  | .pending =>
    .ok ({ loop with pendingQueue := loop.pendingQueue.dropLast }.goTo .pendingCallbacks)
  | .threadFlags => .ok (loop.goTo .wait)
  | .time => .ok (loop.goTo .wait)

/-- The end of `furi_event_loop_process_event` and what its status leads to. -/
def finishEvent (flags : LoopFlags) (item : ℕ) (status : ProcessStatus) :
    Except LoopFault EventLoop :=
  let loop := { loop with currentItem := none }
  (loop.deref item).bind fun contents =>
  match if !contents.owned then .freeLater else status with
  | .complete => .ok (loop.goTo (.syncFlags flags))
  | .incomplete => (loop.itemNotify item).map fun loop => loop.goTo (.syncFlags flags)
  | .freeLater => .ok ((loop.itemFree item).goTo (.syncFlags flags))

/-- The next thing the loop's thread does by itself. -/
def advance : Except LoopFault EventLoop :=
  match loop.phase with
  | .wait =>
    if loop.notified.any then
      .ok ({ loop with notified := .none }.goTo (.fetched loop.notified))
    else .error .blocked
  | .fetched flags => loop.dispatch flags
  | .popped flags item => loop.processOnce flags item
  | .processing flags item => loop.processEvent flags item
  | .processed flags item status => loop.finishEvent flags item status
  | .syncFlags flags =>
    let loop := if loop.waitingList ≠ [] then loop.notify .event else loop
    .ok (loop.goTo (.restoreFlags flags))
  | .restoreFlags flags =>
    .ok ({ loop with notified := loop.notified.or flags }.goTo .wait)
  | .pendingCallbacks =>
    if loop.pendingQueue ≠ [] then .ok (loop.call .pending) else .ok (loop.goTo .wait)
  | .outside | .callback _ => .error .blocked

/-- The sleep ends without a notification: the front timer's time is up, or the tick's. -/
def timeout (tick : Bool) : Except LoopFault EventLoop :=
  match loop.phase with
  | .wait =>
    if loop.notified.any then .error .blocked
    else
      match loop.timers.processExpiredTimers with
      | .error fault => .error (.timer fault)
      | .ok (true, timers) => .ok ({ loop with timers }.call .time)
      | .ok (false, timers) =>
        if tick then .ok ({ loop with timers }.call .time) else .ok { loop with timers }
  | _ => .error .blocked

/-- Whether the loop's thread is in code of the user, which may call the API. -/
def inUserCode : Bool :=
  match loop.phase with
  | .outside | .callback _ => true
  | _ => false

end EventLoop

inductive LoopAction
  /-- Another thread changes an object, or the loop's own in its code. -/
  | change (object : ℕ) (contents : LoopObject)
  /-- An object tells the loop that it has changed in some direction. -/
  | linkNotify (object : ℕ) (event : UInt32)
  | raiseThreadFlag
  | stop
  | tick (ticks : ℕ)
  | subscribe (object : ℕ) (event : UInt32)
  | unsubscribe (object : ℕ)
  | subscribeThreadFlags
  | unsubscribeThreadFlags
  | pendCallback (callback : ℕ)
  | timerCall (call : TimerAction)
  /-- `furi_event_loop_run` is called. -/
  | run
  /-- The callback returns. -/
  | callbackReturns
  | advance
  | timeout (tick : Bool)

namespace EventLoop

/-- What only the loop's thread may call, in code of the user. -/
def api (loop : EventLoop) (result : Except LoopFault EventLoop) : Except LoopFault EventLoop :=
  if loop.inUserCode then result else .error .blocked

def step (loop : EventLoop) : LoopAction → Except LoopFault EventLoop
  | .change object contents =>
    .ok { loop with objects := Function.update loop.objects object contents }
  | .linkNotify object event => loop.linkNotify object event
  | .raiseThreadFlag => .ok ({ loop with raised := true }.notify .threadFlag)
  | .stop => .ok (loop.notify .stop)
  | .tick ticks =>
    .ok { loop with timers :=
      { loop.timers with clock := loop.timers.clock + UInt32.ofNat ticks } }
  | .subscribe object event => loop.api (loop.subscribe object event)
  | .unsubscribe object => loop.api (loop.unsubscribe object)
  | .subscribeThreadFlags => loop.api loop.subscribeThreadFlags
  | .unsubscribeThreadFlags => loop.api loop.unsubscribeThreadFlags
  | .pendCallback callback => loop.api (.ok (loop.pendCallback callback))
  | .timerCall call => loop.api (loop.timerCall call)
  | .run =>
    match loop.phase with
    | .outside => .ok (loop.goTo .wait)
    | _ => .error .blocked
  | .callbackReturns =>
    match loop.phase with
    | .callback callback => loop.returnFrom callback
    | _ => .error .blocked
  | .advance => loop.advance
  | .timeout tick => loop.timeout tick

end EventLoop

end KiisuFirmware
