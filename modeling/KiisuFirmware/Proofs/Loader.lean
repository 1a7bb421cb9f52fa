import KiisuFirmware.Loader
import KiisuFirmware.Run

/-!
# What the loader holds

Whatever is allocated for an application is there while one is running and at no other time, and the
records of the launch queue are taken in order and freed once. The menu of the applications is the
one thing that can be started without an application.
-/

namespace KiisuFirmware

namespace Loader

variable (loader : Loader)

/-- One of each kind that an application has, for as long as it is running. -/
structure Balanced : Prop where
  launchPaths : loader.heap.launchPaths = loader.isApplicationRunning.toNat
  launchPath : loader.isApplicationRunning = true → ∃ path, loader.app.launchPath = .live path
  args : loader.heap.args = loader.app.args.isSome.toNat
  args_running : loader.app.args.isSome = true → loader.isApplicationRunning = true
  faps : loader.heap.faps = loader.app.fap.toNat
  fap_running : loader.app.fap = true → loader.isApplicationRunning = true
  threads : loader.heap.threads = loader.isApplicationRunning.toNat
  insomnia : loader.heap.insomnia = (loader.isApplicationRunning && loader.app.insomniac).toNat

/-- The records were launched in the order in which they came, and each that came is in the queue or
was freed, once. -/
structure Queued : Prop where
  launched : (loader.launched ++ loader.launchQueue.map LaunchRecord.number).Pairwise (· < ·)
  launched_lt : ∀ number ∈ loader.launched, number < loader.enqueued
  freed : (loader.freed ++ loader.launchQueue.map LaunchRecord.number).Perm
    (List.range loader.enqueued)

/-- The last application is closed, and nothing follows. -/
def AllClosed (next : Loader) : Prop :=
  next.launchQueue = [] ∧ ∃ events, next.published = loader.published ++ events ∧
    .noMoreAppsInQueue ∈ events

/-- A message that can come: an unlock from who has the lock, and a close from the thread of the
application. -/
def Enabled : LoaderMessage → Prop
  | .unlock => loader.app.thread = some .magic
  | .appClosed _ => loader.isApplicationRunning = true
  | _ => True

/-- What a message does. Only a queue that is full stops the service. -/
structure Kept (apps : FlipperApps) (loader : Loader) (message : LoaderMessage) : Prop where
  ends : (∃ next, loader.step apps message = .ok next) ∨
    (∃ name args gui, message = .enqueueLaunch name args gui) ∧
      loader.launchQueue.length = loaderQueueMaxSize
  balanced : ∀ next, loader.step apps message = .ok next → next.Balanced
  queued : ∀ next, loader.step apps message = .ok next → next.Queued
  closed : ∀ next fap, message = .appClosed fap → loader.step apps message = .ok next →
    next.isApplicationRunning = true ∨ loader.AllClosed next

/-- A name that stands for the menu. -/
def Shows (apps : FlipperApps) (name : CString) : Prop :=
  findApplicationByName apps name = none ∧ name = loaderApplicationsName

/-- A name an application starts with. -/
def Starts (apps : FlipperApps) (fap : CString → Option FapStart) (name : CString) : Prop :=
  (findApplicationByName apps name).isSome = true ∨
    ∃ threadName, fap ((findExternalApplicationByName apps name).getD name) =
      some (.loaded threadName)

/-- None of the records is the menu, up to the first one that an application starts with. -/
def LaunchesOnly (apps : FlipperApps) (fap : ℕ → CString → Option FapStart) :
    List LaunchRecord → Prop
  | [] => True
  | record :: records => ¬Shows apps record.nameOrPath ∧
    (Starts apps (fap records.length) record.nameOrPath ∨ LaunchesOnly apps fap records)

/-- The menu is not started, neither by a message nor from the queue. -/
def Sound (apps : FlipperApps) (loader : Loader) : LoaderMessage → Prop
  | .startByName name _ _ | .startByNameDetachedWithGuiError name _ _ =>
    loader.app.thread = none → ¬Shows apps name
  | .appClosed fap => LaunchesOnly apps fap loader.launchQueue
  | _ => True

/-! ## Starting -/

/-- Nothing but what is held for an application is different. -/
structure SameQueue (next : Loader) : Prop where
  launchQueue : next.launchQueue = loader.launchQueue
  enqueued : next.enqueued = loader.enqueued
  launched : next.launched = loader.launched
  freed : next.freed = loader.freed
  published : ∃ events, next.published = loader.published ++ events

variable {loader} {apps : FlipperApps}

theorem SameQueue.refl : SameQueue loader loader := ⟨rfl, rfl, rfl, rfl, [], by simp⟩

theorem SameQueue.trans {next last : Loader} (h : SameQueue loader next) (h' : SameQueue next last) :
    SameQueue loader last := by
  obtain ⟨events, hevents⟩ := h.published
  obtain ⟨events', hevents'⟩ := h'.published
  exact ⟨h'.launchQueue.trans h.launchQueue, h'.enqueued.trans h.enqueued,
    h'.launched.trans h.launched, h'.freed.trans h.freed, events ++ events',
    by rw [hevents', hevents, List.append_assoc]⟩

theorem Queued.of_same {next : Loader} (h : loader.Queued) (hsame : SameQueue loader next) :
    next.Queued := by
  refine ⟨?_, by rw [hsame.launched, hsame.enqueued]; exact h.launched_lt, ?_⟩
  · rw [hsame.launched, hsame.launchQueue]
    exact h.launched
  · rw [hsame.freed, hsame.launchQueue, hsame.enqueued]
    exact h.freed

theorem Balanced.of_same {next : Loader} (h : loader.Balanced) (happ : next.app = loader.app)
    (hheap : next.heap = loader.heap) : next.Balanced := by
  have hrunning : next.isApplicationRunning = loader.isApplicationRunning := by
    rw [isApplicationRunning, happ, isApplicationRunning]
  exact ⟨by rw [hheap, hrunning, h.launchPaths], by rw [hrunning, happ]; exact h.launchPath,
    by rw [hheap, happ, h.args], by rw [happ, hrunning]; exact h.args_running,
    by rw [hheap, happ, h.faps], by rw [happ, hrunning]; exact h.fap_running,
    by rw [hheap, hrunning, h.threads], by rw [hheap, happ, hrunning, h.insomnia]⟩

theorem Balanced.of_idle (h : loader.Balanced) (hidle : loader.app.thread = none) :
    loader.heap = ⟨0, 0, 0, 0, 0⟩ ∧ loader.app.args = none ∧ loader.app.fap = false := by
  have hrunning : loader.isApplicationRunning = false := by rw [isApplicationRunning, hidle]
  have hargs : loader.app.args = none := by
    rcases hargs : loader.app.args with _ | args
    · rfl
    · exact absurd (h.args_running (by rw [hargs]; rfl)) (by rw [hrunning]; decide)
  have hfap : loader.app.fap = false := by
    by_contra hno
    exact absurd (h.fap_running (Bool.eq_true_of_not_eq_false hno)) (by rw [hrunning]; decide)
  refine ⟨?_, hargs, hfap⟩
  have h1 := h.launchPaths
  have h2 := h.args
  have h3 := h.faps
  have h4 := h.threads
  have h5 := h.insomnia
  rw [hrunning] at h1 h4 h5
  rw [hargs] at h2
  rw [hfap] at h3
  rcases hheap : loader.heap with ⟨_, _, _, _, _⟩
  rw [hheap] at h1 h2 h3 h4 h5
  simp_all

theorem balanced_started (hheap : loader.heap = ⟨0, 0, 0, 0, 0⟩) (hargs : loader.app.args = none)
    (hfap : loader.app.fap = false) (threadName name : CString) (insomniaSafe : Bool)
    (args : Option CString) :
    ((((loader.storeArgs args).allocThread threadName).startAppThread insomniaSafe).setLaunchPath
      name).Balanced := by
  have hstored : (loader.storeArgs args).heap =
      ⟨0, (loader.storeArgs args).app.args.isSome.toNat, 0, 0, 0⟩ ∧
      (loader.storeArgs args).app.fap = false := by
    unfold storeArgs
    rcases args with _ | args
    · simp [hheap, hargs, hfap]
    · dsimp only
      split_ifs <;> simp [hheap, hargs, hfap]
  obtain ⟨hheap', hfap'⟩ := hstored
  rcases insomniaSafe <;> constructor <;>
    simp [setLaunchPath, startAppThread, allocThread, hheap', hfap', isApplicationRunning]

theorem sameQueue_publish (event : LoaderEvent) : SameQueue loader (loader.publish event) :=
  ⟨rfl, rfl, rfl, rfl, [event], rfl⟩

theorem sameQueue_emit : SameQueue loader loader.doEmitQueueEmptyEvent := by
  unfold doEmitQueueEmptyEvent
  split_ifs
  · exact .refl
  · exact sameQueue_publish _

theorem Balanced.emit (h : loader.Balanced) : loader.doEmitQueueEmptyEvent.Balanced := by
  unfold doEmitQueueEmptyEvent
  split_ifs
  · exact h
  · exact h.of_same rfl rfl

theorem sameQueue_started (threadName name : CString) (insomniaSafe : Bool)
    (args : Option CString) :
    SameQueue loader ((((loader.storeArgs args).allocThread threadName).startAppThread
      insomniaSafe).setLaunchPath name) := by
  rcases args with _ | args
  · rcases insomniaSafe <;> exact ⟨rfl, rfl, rfl, rfl, [], by simp [setLaunchPath,
      startAppThread, allocThread, storeArgs]⟩
  · have hstored : SameQueue loader (loader.storeArgs (some args)) := by
      unfold storeArgs
      dsimp only
      split_ifs
      · exact .refl
      · exact ⟨rfl, rfl, rfl, rfl, [], by simp⟩
    refine hstored.trans ?_
    rcases insomniaSafe <;> exact ⟨rfl, rfl, rfl, rfl, [], by simp [setLaunchPath,
      startAppThread, allocThread]⟩

theorem running_started (threadName name : CString) (insomniaSafe : Bool) :
    (((loader.allocThread threadName).startAppThread insomniaSafe).setLaunchPath
      name).isApplicationRunning = true := by
  rcases insomniaSafe <;> rfl

theorem balanced_fap (hheap : loader.heap = ⟨0, 0, 0, 0, 0⟩) (hargs : loader.app.args = none)
    (threadName name : CString) :
    (((loader.allocFap.allocThread threadName).startAppThread false).setLaunchPath
      name).Balanced := by
  constructor <;> simp [setLaunchPath, startAppThread, allocThread, allocFap, hheap, hargs,
    isApplicationRunning]

/-- A start either has an application running, or tells why not and holds nothing. -/
structure Started (loader : Loader) (status : LoaderStatusResult) (next : Loader) : Prop where
  balanced : next.Balanced
  same : SameQueue loader next
  running : status.value = .ok → next.isApplicationRunning = true
  failed : status.value ≠ .ok → next.app.thread = loader.app.thread

theorem fapError_ne_ok (path : CString) {start : FapStart}
    (h : ∀ threadName, start ≠ .loaded threadName) : (fapError path start).value ≠ .ok := by
  rcases start with _ | _ | _ | threadName
  · simp [fapError]
  · simp [fapError]
  · simp [fapError]
  · exact absurd rfl (h threadName)

theorem startExternalApp_spec (hbalanced : loader.Balanced) (hidle : loader.app.thread = none)
    (path name : CString) (start : FapStart) :
    Started loader (loader.startExternalApp path start).1
      (if (loader.startExternalApp path start).1.value = .ok then
        (loader.startExternalApp path start).2.setLaunchPath name
      else (loader.startExternalApp path start).2) := by
  obtain ⟨hheap, hargs, hfap⟩ := hbalanced.of_idle hidle
  by_cases hloaded : ∃ threadName, start = .loaded threadName
  · obtain ⟨threadName, rfl⟩ := hloaded
    exact ⟨balanced_fap hheap hargs threadName name, ⟨rfl, rfl, rfl, rfl, [], by
      simp [startExternalApp, successStatus, setLaunchPath, startAppThread, allocThread, allocFap]⟩,
      fun _ => rfl, fun h => absurd rfl h⟩
  · have herror : (loader.startExternalApp path start) =
        (fapError path start, loader.allocFap.freeFap.publish .applicationLoadFailed) := by
      rcases start with _ | _ | _ | threadName
      · rfl
      · rfl
      · rfl
      · exact absurd ⟨threadName, rfl⟩ hloaded
    have hno := fapError_ne_ok path fun threadName h => hloaded ⟨threadName, h⟩
    rw [herror, if_neg hno]
    refine ⟨hbalanced.of_same ?_ ?_, ⟨rfl, rfl, rfl, rfl, [.applicationLoadFailed], rfl⟩,
      fun h => absurd h hno, fun _ => rfl⟩
    · rcases happ : loader.app with ⟨_, _, _, _, fap⟩
      rw [happ] at hfap
      simp [publish, freeFap, allocFap, happ, hfap.symm]
    · simp [publish, freeFap, allocFap]

/-- No application is started under the name of the menu, so each start that succeeds has one
running. -/
theorem doStartByName_spec (hbalanced : loader.Balanced) (fap : CString → Option FapStart)
    (name : CString) (args : Option CString)
    (hshows : loader.app.thread = none → ¬Shows apps name) :
    ∃ status next, loader.doStartByName apps fap name args = .ok (status, next) ∧
      Started loader status next ∧
      (loader.app.thread = none → Starts apps fap name → status.value = .ok) := by
  have hbefore : (loader.publish .applicationBeforeLoad).Balanced := hbalanced.of_same rfl rfl
  have hsame : SameQueue loader (loader.publish .applicationBeforeLoad) := sameQueue_publish _
  unfold doStartByName
  dsimp only
  rcases hthread : (loader.publish .applicationBeforeLoad).app.thread with _ | thread
  · obtain ⟨hheap, hargs, hfap⟩ := hbefore.of_idle hthread
    have hidle : loader.app.thread = none := hthread
    rcases hfind : findApplicationByName apps name with _ | app
    · have hmenu : name ≠ loaderApplicationsName := fun h => hshows hidle ⟨hfind, h⟩
      dsimp only
      rw [if_neg hmenu]
      rcases hstart : fap ((findExternalApplicationByName apps name).getD name) with _ | start
      · refine ⟨_, _, rfl, ⟨hbefore, hsame, fun h => absurd h (by simp), fun _ => rfl⟩,
          fun _ h => ?_⟩
        rcases h with h | ⟨threadName, h⟩
        · rw [hfind] at h
          exact absurd h (by simp)
        · rw [hstart] at h
          exact absurd h (by simp)
      · have hspec := startExternalApp_spec hbefore hthread
          ((findExternalApplicationByName apps name).getD name)
          ((findExternalApplicationByName apps name).getD name) start
        refine ⟨_, _, rfl, ⟨hspec.balanced, hsame.trans hspec.same, hspec.running,
          hspec.failed⟩, fun _ h => ?_⟩
        rcases h with h | ⟨threadName, h⟩
        · rw [hfind] at h
          exact absurd h (by simp)
        · rw [hstart] at h
          cases h
          rfl
    · refine ⟨successStatus, _, ?_, ⟨balanced_started hheap hargs hfap app.name name
        app.insomniaSafe args, hsame.trans (sameQueue_started app.name name app.insomniaSafe args),
        fun _ => running_started app.name name app.insomniaSafe, fun h => absurd rfl h⟩,
        fun _ _ => rfl⟩
      dsimp only
      rw [startInternalApp, hargs]
      rfl
  · refine ⟨lockedStatus thread, _, rfl, ⟨hbefore, hsame, fun h => ?_, fun _ => rfl⟩, fun h => ?_⟩
    · rcases thread with _ | _ <;> exact absurd h (by simp [lockedStatus])
    · exact absurd (hthread.symm.trans h) (by simp)

/-! ## The queue when an application is closed -/

/-- Records are taken from the front until an application is running, or until there are none left
and that is published. -/
structure Launched (loader : Loader) (records : List LaunchRecord) (next : Loader) : Prop where
  balanced : next.Balanced
  enqueued : next.enqueued = loader.enqueued
  taken : ∃ popped, records = popped ++ next.launchQueue ∧
    next.launched = loader.launched ++ popped.map LaunchRecord.number ∧
    next.freed.Perm (loader.freed ++ popped.map LaunchRecord.number)
  closed : ∃ events, next.published = loader.published ++ events ∧
    (next.isApplicationRunning = true ∨ next.launchQueue = [] ∧ .noMoreAppsInQueue ∈ events)

theorem Launched.clear {records : List LaunchRecord} {record : LaunchRecord} {before next : Loader}
    (h : Launched before records next) (henqueued : before.enqueued = loader.enqueued)
    (hlaunched : before.launched = loader.launched ++ [record.number])
    (hfreed : before.freed = loader.freed)
    (hpublished : ∃ events, before.published = loader.published ++ events) :
    Launched loader (record :: records) (next.loaderQueueItemClear record) := by
  obtain ⟨popped, hrecords, hnext, hperm⟩ := h.taken
  obtain ⟨events, hevents, hclosed⟩ := h.closed
  obtain ⟨earlier, hearlier⟩ := hpublished
  refine ⟨h.balanced.of_same rfl rfl, h.enqueued.trans henqueued,
    ⟨record :: popped, by rw [hrecords]; rfl, ?_, ?_⟩, earlier ++ events, ?_, ?_⟩
  · change next.launched = _
    rw [hnext, hlaunched, List.map_cons, List.append_assoc, List.singleton_append]
  · change (next.freed ++ [record.number]).Perm _
    rw [hfreed] at hperm
    refine (hperm.append_right _).trans ?_
    rw [List.append_assoc, List.map_cons]
    exact (List.perm_append_singleton _ _).append_left _
  · change next.published = _
    rw [hevents, hearlier, List.append_assoc]
  · rcases hclosed with hrunning | ⟨hempty, hmem⟩
    · exact .inl hrunning
    · exact .inr ⟨hempty, List.mem_append_right _ hmem⟩

/-- By recursion over the queue: a start that fails leaves nothing behind, and the rest follows. -/
theorem doNextDeferredLaunch_spec (fap : ℕ → CString → Option FapStart) :
    ∀ (records : List LaunchRecord) (loader : Loader), loader.Balanced →
      loader.app.thread = none → LaunchesOnly apps fap records →
      ∃ next, doNextDeferredLaunch apps fap records loader = .ok next ∧
        Launched loader records next
  | [], loader, hbalanced, hidle, _ => by
    have hlocked : ({ loader with launchQueue := [] } : Loader).doIsLocked = false := by
      rw [doIsLocked]
      simp [hidle]
    refine ⟨_, rfl, ?_⟩
    rw [doEmitQueueEmptyEvent, if_neg (by rw [hlocked]; simp)]
    exact ⟨hbalanced.of_same rfl rfl, rfl, ⟨[], rfl, by simp [publish], by simp [publish]⟩,
      [.noMoreAppsInQueue], rfl, .inr ⟨rfl, by simp⟩⟩
  | record :: records, loader, hbalanced, hidle, hlaunches => by
    obtain ⟨hshows, hrest⟩ := hlaunches
    -- The record is taken before its application is started.
    have htaken : ({ loader with
        launchQueue := records
        launched := loader.launched ++ [record.number] } : Loader).Balanced :=
      hbalanced.of_same rfl rfl
    obtain ⟨status, started, hstart, hspec, hstarts⟩ := doStartByName_spec htaken
      (fap records.length) record.nameOrPath record.args fun _ => hshows
    simp only [doNextDeferredLaunch, hstart, pure, Except.pure, bind, Except.bind]
    by_cases hok : status.value = .ok
    · rw [if_pos hok]
      obtain ⟨events, hevents⟩ := hspec.same.published
      have hrunning := hspec.running hok
      have hlaunched : Launched { loader with
          launchQueue := records
          launched := loader.launched ++ [record.number] } records started := by
        refine ⟨hspec.balanced, hspec.same.enqueued,
          ⟨[], hspec.same.launchQueue.symm, ?_, ?_⟩, events, hevents, .inl hrunning⟩
        · rw [hspec.same.launched, List.map_nil, List.append_nil]
        · rw [hspec.same.freed, List.map_nil, List.append_nil]
      exact ⟨_, rfl, hlaunched.clear rfl rfl rfl ⟨[], by simp⟩⟩
    · rw [if_neg hok]
      have hthread : started.app.thread = none := (hspec.failed hok).trans hidle
      have hlaunches : LaunchesOnly apps fap records := by
        rcases hrest with hrest | hrest
        · exact absurd (hstarts hidle hrest) hok
        · exact hrest
      obtain ⟨shown, hshown, happ, hheap, hsame⟩ : ∃ shown : Loader,
          (if record.gui = true then started.showGuiError status record.nameOrPath
            else started) = shown ∧ shown.app = started.app ∧ shown.heap = started.heap ∧
          SameQueue started shown := by
        refine ⟨_, rfl, ?_⟩
        split_ifs
        · exact ⟨rfl, rfl, rfl, rfl, rfl, rfl, [], by simp [showGuiError]⟩
        · exact ⟨rfl, rfl, .refl⟩
      rw [hshown]
      obtain ⟨next, hnext, hlaunched⟩ := doNextDeferredLaunch_spec fap records shown
        (hspec.balanced.of_same happ hheap) (by rw [happ]; exact hthread) hlaunches
      have hall := hspec.same.trans hsame
      rw [hnext]
      exact ⟨_, rfl, hlaunched.clear hall.enqueued hall.launched hall.freed hall.published⟩

theorem freeLaunchPath_spec (hbalanced : loader.Balanced)
    (hrunning : loader.isApplicationRunning = true) :
    ∃ idle, loader.freeArgs.insomniaExit.freeThread.freeLaunchPath = .ok idle ∧ idle.Balanced ∧
      idle.app.thread = none ∧ SameQueue loader idle := by
  obtain ⟨path, hpath⟩ := hbalanced.launchPath hrunning
  have h1 := hbalanced.launchPaths
  have h2 := hbalanced.args
  have h3 := hbalanced.faps
  have h4 := hbalanced.threads
  have h5 := hbalanced.insomnia
  rcases loader with ⟨⟨launchPath, args, thread, insomniac, fap⟩, queue, menu, applications,
    ⟨launchPaths, argsCount, faps, threads, insomnia⟩, published, dialogs, enqueued, launched, freed⟩
  simp only [hrunning, Bool.toNat_true, Bool.true_and] at h1 h2 h3 h4 h5 hpath
  subst h1 h2 h3 h4 h5 hpath
  rcases args with _ | args <;> rcases insomniac <;> rcases fap <;>
    exact ⟨_, rfl, by constructor <;> simp [isApplicationRunning, freeArgs, insomniaExit, freeThread,
      freeFap], rfl, rfl, rfl, rfl, rfl, [], by simp [freeArgs, insomniaExit, freeThread, freeFap]⟩

theorem doAppClosed_spec (hbalanced : loader.Balanced)
    (hrunning : loader.isApplicationRunning = true) (fap : ℕ → CString → Option FapStart)
    (hlaunches : LaunchesOnly apps fap loader.launchQueue) :
    ∃ next, loader.doAppClosed apps fap = .ok next ∧ Launched loader loader.launchQueue next := by
  obtain ⟨idle, hidle, hbalanced', hthread, hsame⟩ := freeLaunchPath_spec hbalanced hrunning
  have hstopped : SameQueue idle (idle.publish .applicationStopped) := sameQueue_publish _
  obtain ⟨next, hnext, hlaunched⟩ := doNextDeferredLaunch_spec fap loader.launchQueue
    (idle.publish .applicationStopped) (hbalanced'.of_same rfl rfl) hthread hlaunches
  have hall := hsame.trans hstopped
  refine ⟨next, ?_, hlaunched.balanced, hlaunched.enqueued.trans hall.enqueued, ?_, ?_⟩
  · unfold doAppClosed
    rcases happ : loader.app.thread with _ | ⟨_ | name⟩
    · rw [isApplicationRunning, happ] at hrunning
      exact absurd hrunning (by simp)
    · rw [isApplicationRunning, happ] at hrunning
      exact absurd hrunning (by simp)
    · dsimp only
      rw [hidle]
      change doNextDeferredLaunch apps fap (idle.publish .applicationStopped).launchQueue _ = _
      rw [hall.launchQueue]
      exact hnext
  · obtain ⟨popped, hqueue, hnumbers, hfreed⟩ := hlaunched.taken
    rw [hall.launched] at hnumbers
    rw [hall.freed] at hfreed
    exact ⟨popped, hqueue, hnumbers, hfreed⟩
  · obtain ⟨events, hevents, hclosed⟩ := hlaunched.closed
    obtain ⟨earlier, hearlier⟩ := hall.published
    refine ⟨earlier ++ events, by rw [hevents, hearlier, List.append_assoc], ?_⟩
    rcases hclosed with hrunning' | ⟨hempty, hmem⟩
    · exact .inl hrunning'
    · exact .inr ⟨hempty, List.mem_append_right _ hmem⟩

theorem Queued.of_launched {next : Loader} (h : loader.Queued)
    (hlaunched : Launched loader loader.launchQueue next) : next.Queued := by
  obtain ⟨popped, hqueue, hnumbers, hfreed⟩ := hlaunched.taken
  have hmap : loader.launchQueue.map LaunchRecord.number =
      popped.map LaunchRecord.number ++ next.launchQueue.map LaunchRecord.number := by
    rw [hqueue, List.map_append]
  have hlt : ∀ number ∈ loader.launchQueue.map LaunchRecord.number, number < loader.enqueued := by
    intro number hmem
    exact List.mem_range.1 (h.freed.mem_iff.1 (List.mem_append_right _ hmem))
  refine ⟨?_, fun number hmem => ?_, ?_⟩
  · rw [hnumbers, List.append_assoc, ← hmap]
    exact h.launched
  · rw [hlaunched.enqueued]
    rw [hnumbers, List.mem_append] at hmem
    rcases hmem with hmem | hmem
    · exact h.launched_lt number hmem
    · exact hlt number (by rw [hmap]; exact List.mem_append_left _ hmem)
  · rw [hlaunched.enqueued]
    refine (hfreed.append_right _).trans ?_
    rw [List.append_assoc, ← hmap]
    exact h.freed

theorem Queued.push (h : loader.Queued) (name : CString) (args : Option CString) (gui : Bool) :
    Queued { loader with
      launchQueue := loader.launchQueue ++ [⟨loader.enqueued, name, args, gui⟩]
      enqueued := loader.enqueued + 1 } := by
  refine ⟨?_, fun number hmem => (h.launched_lt number hmem).trans (Nat.lt_succ_self _), ?_⟩
  · change (loader.launched ++ (loader.launchQueue ++ _).map LaunchRecord.number).Pairwise _
    rw [List.map_append, ← List.append_assoc, List.pairwise_append]
    refine ⟨h.launched, by simp, fun number hmem last hlast => ?_⟩
    simp only [List.map_cons, List.map_nil, List.mem_singleton] at hlast
    rw [hlast]
    rcases List.mem_append.1 hmem with hmem | hmem
    · exact h.launched_lt number hmem
    · exact List.mem_range.1 (h.freed.mem_iff.1 (List.mem_append_right _ hmem))
  · change (loader.freed ++ (loader.launchQueue ++ _).map LaunchRecord.number).Perm _
    rw [List.map_append, ← List.append_assoc, List.range_succ]
    exact h.freed.append_right _

theorem Queued.clear (h : loader.Queued) : loader.loaderQueueClear.Queued := by
  refine ⟨?_, h.launched_lt, ?_⟩
  · exact h.launched.sublist (by simp [loaderQueueClear])
  · simpa [loaderQueueClear] using h.freed

/-! ## Messages -/

theorem started_step {status : LoaderStatusResult} {next : Loader} (hqueued : loader.Queued)
    (h : Started loader status next) : (next.afterStart status).Balanced ∧
      (next.afterStart status).Queued := by
  unfold afterStart
  split_ifs
  · exact ⟨h.balanced, hqueued.of_same h.same⟩
  · exact ⟨h.balanced.emit, hqueued.of_same (h.same.trans sameQueue_emit)⟩

theorem lock_step (hbalanced : loader.Balanced) (hqueued : loader.Queued) :
    loader.doLock.2.Balanced ∧ loader.doLock.2.Queued := by
  unfold doLock
  rcases hthread : loader.app.thread with _ | thread
  · obtain ⟨hheap, hargs, hfap⟩ := hbalanced.of_idle hthread
    refine ⟨?_, hqueued.of_same ⟨rfl, rfl, rfl, rfl, [], by simp⟩⟩
    constructor <;> simp [isApplicationRunning, hheap, hargs, hfap]
  · exact ⟨hbalanced, hqueued⟩

theorem unlock_step (hbalanced : loader.Balanced) (hqueued : loader.Queued)
    (hlocked : loader.app.thread = some .magic) :
    ∃ next, loader.doUnlock = .ok next ∧ next.Balanced ∧ next.Queued := by
  refine ⟨_, if_pos hlocked, ?_, hqueued.of_same ⟨rfl, rfl, rfl, rfl, [], by simp⟩⟩
  have hrunning : loader.isApplicationRunning = false := by rw [isApplicationRunning, hlocked]
  have h1 := hbalanced.launchPaths
  have h4 := hbalanced.threads
  have h5 := hbalanced.insomnia
  rw [hrunning] at h1 h4 h5
  refine ⟨h1, nofun, hbalanced.args, fun h => ?_, hbalanced.faps, fun h => ?_, h4, h5⟩
  · exact hrunning.symm.trans (hbalanced.args_running h)
  · exact hrunning.symm.trans (hbalanced.fap_running h)

theorem Kept.of_ok {message : LoaderMessage} {next : Loader}
    (hstep : loader.step apps message = .ok next) (hkept : next.Balanced ∧ next.Queued)
    (hmessage : ∀ fap, message ≠ .appClosed fap) : Kept apps loader message := by
  refine ⟨.inl ⟨next, hstep⟩, fun next' h => ?_, fun next' h => ?_,
    fun _ fap h => absurd h (hmessage fap)⟩
  · rw [hstep] at h
    cases h
    exact hkept.1
  · rw [hstep] at h
    cases h
    exact hkept.2

theorem kept_of_sound (hbalanced : loader.Balanced) (hqueued : loader.Queued)
    (message : LoaderMessage) (henabled : loader.Enabled message)
    (hsound : Sound apps loader message) : Kept apps loader message := by
  have hsame : SameQueue loader loader := .refl
  rcases message with ⟨name, args, fap⟩ | ⟨name, args, fap⟩ | _ | _ | _ | _ | _ | _ | fap | _ | _ | _ |
    ⟨name, args, gui⟩ | _
  · obtain ⟨status, next, hstart, hstarted, -⟩ := doStartByName_spec hbalanced fap name args hsound
    exact .of_ok (by rw [step, hstart]; rfl) (started_step hqueued hstarted) (by simp)
  · obtain ⟨status, next, hstart, hstarted, -⟩ := doStartByName_spec hbalanced fap name args hsound
    have hshown : Started loader status (next.showGuiError status name) :=
      ⟨hstarted.balanced.of_same rfl rfl,
        hstarted.same.trans ⟨rfl, rfl, rfl, rfl, [], (List.append_nil _).symm⟩,
        hstarted.running, hstarted.failed⟩
    exact .of_ok (by rw [step, hstart]; rfl) (started_step hqueued hshown) (by simp)
  · exact .of_ok rfl ⟨hbalanced.of_same rfl rfl, hqueued.of_same ⟨rfl, rfl, rfl, rfl, hsame.5⟩⟩
      (by simp)
  · exact .of_ok rfl ⟨hbalanced.of_same rfl rfl, hqueued.of_same ⟨rfl, rfl, rfl, rfl, hsame.5⟩⟩
      (by simp)
  · exact .of_ok rfl ⟨hbalanced.of_same rfl rfl, hqueued.of_same ⟨rfl, rfl, rfl, rfl, hsame.5⟩⟩
      (by simp)
  · exact .of_ok rfl ⟨hbalanced, hqueued⟩ (by simp)
  · exact .of_ok rfl (lock_step hbalanced hqueued) (by simp)
  · obtain ⟨next, hunlock, hkept⟩ := unlock_step hbalanced hqueued henabled
    exact .of_ok hunlock hkept (by simp)
  · obtain ⟨next, hclose, hlaunched⟩ := doAppClosed_spec hbalanced henabled fap hsound
    have hstep : loader.step apps (.appClosed fap) = .ok next := hclose
    refine ⟨.inl ⟨next, hstep⟩, fun next' h => ?_, fun next' h => ?_, fun next' fap' heq h => ?_⟩
    · rw [hstep] at h
      cases h
      exact hlaunched.balanced
    · rw [hstep] at h
      cases h
      exact hqueued.of_launched hlaunched
    · cases heq
      rw [hstep] at h
      cases h
      obtain ⟨events, hevents, hclosed⟩ := hlaunched.closed
      exact hclosed.imp id fun h => ⟨h.1, events, hevents, h.2⟩
  · exact .of_ok rfl ⟨hbalanced, hqueued⟩ (by simp)
  · exact .of_ok rfl ⟨hbalanced, hqueued⟩ (by simp)
  · exact .of_ok rfl ⟨hbalanced, hqueued⟩ (by simp)
  · by_cases hfull : loader.launchQueue.length = loaderQueueMaxSize
    · have hstep : loader.step apps (.enqueueLaunch name args gui) = .error .check := if_pos hfull
      refine ⟨.inr ⟨⟨name, args, gui, rfl⟩, hfull⟩, fun _ h => ?_, fun _ h => ?_, fun _ _ h => ?_⟩
      · rw [hstep] at h
        exact absurd h (by simp)
      · rw [hstep] at h
        exact absurd h (by simp)
      · exact absurd h (by simp)
    · exact .of_ok (if_neg hfull) ⟨hbalanced.of_same rfl rfl, hqueued.push name args gui⟩ (by simp)
  · exact .of_ok rfl ⟨hbalanced.of_same rfl rfl, hqueued.clear⟩ (by simp)

theorem balanced_alloc : alloc.Balanced := by
  constructor <;> simp [alloc, isApplicationRunning]

theorem queued_alloc : alloc.Queued := by
  constructor <;> simp [alloc]

theorem kept_along : ∀ (messages : List LoaderMessage) (loader : Loader), loader.Balanced →
    loader.Queued →
    ExecAlong (fun loader message => Enabled loader message ∧ Sound apps loader message)
      (step apps) loader messages → ExecAlong (Kept apps) (step apps) loader messages
  | [], _, _, _, _ => trivial
  | message :: messages, loader, hbalanced, hqueued, ⟨⟨henabled, hsound⟩, hrest⟩ => by
    have hkept := kept_of_sound hbalanced hqueued message henabled hsound
    refine ⟨hkept, fun next hnext => ?_⟩
    exact kept_along messages next (hkept.balanced next hnext) (hkept.queued next hnext)
      (hrest next hnext)

/-- Where the menu is not started, what is held is held for the application that is running, and the
queue goes on until it is empty. -/
theorem keptAlong_of_sound (apps : FlipperApps) (messages : List LoaderMessage)
    (h : ExecAlong (fun loader message => Enabled loader message ∧ Sound apps loader message)
      (step apps) alloc messages) : ExecAlong (Kept apps) (step apps) alloc messages :=
  kept_along messages alloc balanced_alloc queued_alloc h

/-- An application, and the same one again from the queue. -/
theorem keptAlong_again : ExecAlong (Kept ⟨[⟨['A'], ['A'], true⟩], []⟩)
    (step ⟨[⟨['A'], ['A'], true⟩], []⟩) alloc
    [.startByName ['A'] none fun _ => none, .enqueueLaunch ['A'] none false,
      .appClosed fun _ _ => none, .appClosed fun _ _ => none] := by
  have hshows : ¬Shows ⟨[⟨['A'], ['A'], true⟩], []⟩ ['A'] := fun h => by
    have hname : ['A'] = loaderApplicationsName := h.2
    simp [loaderApplicationsName] at hname
  refine keptAlong_of_sound _ _ ⟨⟨trivial, fun _ => hshows⟩, fun next hnext => ?_⟩
  rcases Except.ok.inj hnext
  refine ⟨⟨trivial, trivial⟩, fun next hnext => ?_⟩
  rcases Except.ok.inj hnext
  refine ⟨⟨rfl, hshows, .inl (.inl rfl)⟩, fun next hnext => ?_⟩
  rcases Except.ok.inj hnext
  refine ⟨⟨rfl, trivial⟩, fun next hnext => ?_⟩
  rcases Except.ok.inj hnext
  trivial

/-- The menu is launched from the queue, and nothing tells that there is no more to come. -/
theorem not_keptAlong_menu : ¬∀ (apps : FlipperApps) (messages : List LoaderMessage),
    ExecAlong Enabled (step apps) alloc messages →
      ExecAlong (Kept apps) (step apps) alloc messages := by
  intro h
  have henabled : ExecAlong Enabled (step ⟨[⟨['A'], ['A'], true⟩], []⟩) alloc
      [.startByName ['A'] none fun _ => none, .enqueueLaunch loaderApplicationsName none false,
        .appClosed fun _ _ => none] := by
    refine ⟨trivial, fun next hnext => ?_⟩
    rcases Except.ok.inj hnext
    refine ⟨trivial, fun next hnext => ?_⟩
    rcases Except.ok.inj hnext
    exact ⟨rfl, fun _ _ => trivial⟩
  obtain ⟨-, hrest⟩ := h _ _ henabled
  obtain ⟨-, hrest⟩ := hrest _ rfl
  obtain ⟨hkept, -⟩ := hrest _ rfl
  rcases hkept.closed _ _ rfl rfl with hrunning | ⟨-, events, hevents, hmem⟩
  · exact absurd hrunning (by decide)
  · have hno : LoaderEvent.noMoreAppsInQueue ∉
        [LoaderEvent.applicationBeforeLoad] ++ events := by
      rw [show [LoaderEvent.applicationBeforeLoad] ++ events = _ from hevents.symm]
      decide
    exact hno (List.mem_append_right _ hmem)

end Loader

end KiisuFirmware
