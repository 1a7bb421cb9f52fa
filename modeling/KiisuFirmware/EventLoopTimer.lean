import Mathlib.Tactic
import KiisuFirmware.Run

/-!
# Event loop timers

`event_loop_timer.c`. A timer is known by the address its block has, here a number that is never
given out twice; a block that is not allocated reads as zeros, as the heap leaves it. The clock
counts ticks and wraps.
-/

namespace KiisuFirmware

inductive TimerRequest
  | none
  | start
  | stop
  | free
  deriving DecidableEq, Repr

structure Timer where
  interval : UInt32
  startTime : UInt32
  nextInterval : UInt32
  request : TimerRequest
  active : Bool
  periodic : Bool
  deriving DecidableEq

/-- How the loop can end other than by being stopped. -/
inductive TimerFault
  /-- A `furi_check` of the API failed. -/
  | check
  /-- A pointer to a timer that is not allocated was passed. -/
  | dangling
  /-- A request that is none was found in the queue. -/
  | crash
  | divisionByZero
  deriving DecidableEq, Repr

namespace Timer

/-- A block as the heap hands it out. -/
def zeroed : Timer := ⟨0, 0, 0, .none, false, false⟩

variable (timer : Timer) (clock : UInt32)

def getElapsedTime : UInt32 := clock - timer.startTime

def getRemainingTime : UInt32 :=
  if timer.getElapsedTime clock < timer.interval then
    timer.interval - timer.getElapsedTime clock
  else 0

def isExpired : Bool := decide (timer.interval ≤ timer.getElapsedTime clock)

end Timer

/-- The timers of an event loop. -/
structure TimerStore where
  clock : UInt32
  timers : ℕ → Option Timer
  nextTimer : ℕ
  timerList : List ℕ
  timerQueue : List ℕ

namespace TimerStore

/-- Without timers, whatever the clock says. -/
def init (clock : UInt32) : TimerStore := ⟨clock, fun _ => none, 0, [], []⟩

variable (store : TimerStore)

/-- What is in the block of a timer. -/
def get (timer : ℕ) : Timer := (store.timers timer).getD .zeroed

def set (timer : ℕ) (contents : Option Timer) : TimerStore :=
  { store with timers := Function.update store.timers timer contents }

def remaining (timer : ℕ) : UInt32 := (store.get timer).getRemainingTime store.clock

/-- The timer pushed after the last of the list that expires no later, which is looked for from
the back; `before` is what is in front of the place reached, last first. -/
def pushByRemaining (timer : ℕ) : (before : List ℕ) → List ℕ → List ℕ
  | [], after => timer :: after
  | tmp :: before, after =>
    if store.remaining tmp ≤ store.remaining timer then
      before.reverse ++ tmp :: timer :: after
    else pushByRemaining timer before (tmp :: after)

def schedule (timer : ℕ) : TimerStore :=
  { store with timerList := store.pushByRemaining timer store.timerList.reverse [] }

def enqueueRequest (timer : ℕ) (request : TimerRequest) : Except TimerFault TimerStore :=
  match store.timers timer with
  | none => .error .dangling
  | some t =>
    if t.request = .free then .error .check
    else
      let timerQueue :=
        if t.request ≠ .none then store.timerQueue.erase timer else store.timerQueue
      .ok { store.set timer (some { t with request }) with timerQueue := timerQueue ++ [timer] }

/-- `furi_event_loop_get_timer_wait_time`, none for ever. -/
def getWaitTime : Option UInt32 := store.timerList.head?.map store.remaining

/-- One round of `furi_event_loop_process_timer_queue`, with the timer already off the queue. -/
def processRequest (timer : ℕ) : Except TimerFault TimerStore :=
  let t := store.get timer
  let store := if t.active then { store with timerList := store.timerList.erase timer } else store
  match t.request with
  | .start =>
    .ok ((store.set timer (some { t with
      active := true, interval := t.nextInterval, startTime := store.clock,
      request := .none })).schedule timer)
  | .stop => .ok (store.set timer (some { t with active := false, request := .none }))
  | .free => .ok (store.set timer none)
  | .none => .error .crash

/-- The rounds, of which there are as many as requests. -/
def processRequests : ℕ → TimerStore → Except TimerFault TimerStore
  | 0, store => .ok store
  | rounds + 1, store =>
    match store.timerQueue with
    | [] => .ok store
    | timer :: timerQueue =>
      ({ store with timerQueue }.processRequest timer).bind (processRequests rounds)

def processTimerQueue : Except TimerFault TimerStore :=
  processRequests store.timerQueue.length store

/-- `furi_event_loop_process_expired_timers` up to the callback, and whether it is called. -/
def processExpiredTimers : Except TimerFault (Bool × TimerStore) :=
  match store.timerList with
  | [] => .ok (false, store)
  | timer :: timerList =>
    let t := store.get timer
    if t.isExpired store.clock then
      if t.periodic then
        if t.interval = 0 then .error .divisionByZero
        else
          let numEvents := t.getElapsedTime store.clock / t.interval
          .ok (true, ({ store with timerList }.set timer (some { t with
            startTime := t.startTime + t.interval * numEvents })).schedule timer)
      else
        .ok (true, { store with timerList }.set timer (some { t with active := false }))
    else .ok (false, store)

/-! ## The API -/

def allocTimer (periodic : Bool) : TimerStore :=
  { store.set store.nextTimer (some { Timer.zeroed with periodic }) with
    nextTimer := store.nextTimer + 1 }

def startTimer (timer : ℕ) (interval : UInt32) : Except TimerFault TimerStore :=
  (store.set timer ((store.timers timer).map fun t => { t with nextInterval := interval }))
    |>.enqueueRequest timer .start

def restartTimer (timer : ℕ) : Except TimerFault TimerStore :=
  (store.set timer ((store.timers timer).map fun t => { t with nextInterval := t.interval }))
    |>.enqueueRequest timer .start

def stopTimer (timer : ℕ) : Except TimerFault TimerStore := store.enqueueRequest timer .stop

def freeTimer (timer : ℕ) : Except TimerFault TimerStore := store.enqueueRequest timer .free

end TimerStore

/-- What can happen to the timers: a call of the API, from a callback or not, ticks going by, or
one of the two things the loop does with them. -/
inductive TimerAction
  | alloc (periodic : Bool)
  | start (timer : ℕ) (interval : UInt32)
  | restart (timer : ℕ)
  | stop (timer : ℕ)
  | free (timer : ℕ)
  | tick (ticks : ℕ)
  | processTimerQueue
  | processExpiredTimers

def TimerStore.step (store : TimerStore) : TimerAction → Except TimerFault TimerStore
  | .alloc periodic => .ok (store.allocTimer periodic)
  | .start timer interval => store.startTimer timer interval
  | .restart timer => store.restartTimer timer
  | .stop timer => store.stopTimer timer
  | .free timer => store.freeTimer timer
  | .tick ticks => .ok { store with clock := store.clock + UInt32.ofNat ticks }
  | .processTimerQueue => store.processTimerQueue
  | .processExpiredTimers => store.processExpiredTimers.map Prod.snd

end KiisuFirmware
