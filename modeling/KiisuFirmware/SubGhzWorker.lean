import KiisuFirmware.Protocol
import KiisuFirmware.Run

/-!
# The worker of the receiver

`subghz_worker.c`: the callback of the timer sends what has been received through a stream, and the
thread glues what is too short to the level before it. How a send ends is told with the call, as the
stream may be full.
-/

namespace KiisuFirmware

/-- What goes through the stream: a level, or that something before it has been lost. -/
abbrev WorkerItem : Type := Option LevelDuration

/-- The bits that a duration has in a `LevelDuration`. -/
def levelDurationBits (duration : ℕ) : ℕ := duration % 2 ^ 30

structure SubGhzWorker where
  stream : List WorkerItem
  overrun : Bool
  filterLevelDuration : LevelDuration
  filterDuration : ℕ
  deriving DecidableEq

inductive WorkerInput
  | rx (level : Bool) (duration : ℕ) (sent : Bool)
  | receive
  deriving DecidableEq

/-- What the thread takes from the stream, and what it passes to the pair callback. -/
structure WorkerOutput where
  received : Option WorkerItem
  pair : Option LevelDuration
  deriving DecidableEq

namespace SubGhzWorker

/-- A new worker with this filter. -/
def alloc (filterDuration : ℕ) : SubGhzWorker where
  stream := []
  overrun := false
  filterLevelDuration := ⟨false, 0⟩
  filterDuration := filterDuration

variable (worker : SubGhzWorker)

def rxCallback (level : Bool) (duration : ℕ) (sent : Bool) : SubGhzWorker :=
  let item := if worker.overrun then none else some ⟨level, levelDurationBits duration⟩
  if sent then
    { worker with stream := worker.stream ++ [item], overrun := false }
  else
    { worker with overrun := true }

/-- What the thread does with a level. -/
def filter (item : LevelDuration) : Option LevelDuration × SubGhzWorker :=
  let held := worker.filterLevelDuration
  if item.duration < worker.filterDuration ∨ held.level = item.level then
    (none, { worker with filterLevelDuration :=
      { held with duration := levelDurationBits (held.duration + item.duration) } })
  else
    (some held, { worker with filterLevelDuration := item })

/-- A turn of the thread. -/
def threadCallback : WorkerOutput × SubGhzWorker :=
  match worker.stream with
  | [] => (⟨none, none⟩, worker)
  | none :: stream => (⟨some none, none⟩, { worker with stream := stream })
  | some item :: stream =>
    let (pair, worker) := filter { worker with stream := stream } item
    (⟨some (some item), pair⟩, worker)

def step : WorkerInput → WorkerOutput × SubGhzWorker
  | .rx level duration sent => (⟨none, none⟩, worker.rxCallback level duration sent)
  | .receive => worker.threadCallback

end SubGhzWorker

/-- The levels that the thread has taken from the stream. -/
def receivedLevels (outputs : List WorkerOutput) : List LevelDuration :=
  (outputs.filterMap WorkerOutput.received).reduceOption

def passedPairs (outputs : List WorkerOutput) : List LevelDuration :=
  outputs.filterMap WorkerOutput.pair

def totalDuration (levels : List LevelDuration) : ℕ := (levels.map LevelDuration.duration).sum

end KiisuFirmware
