import KiisuFirmware.EventLoop
import KiisuFirmware.Proofs.EventLoopTimer

/-!
# Nothing the event loop is notified of is lost

Whatever is waiting for the loop is covered (`Covered`): its bit is set in the notification
value, or the loop's thread still holds it, to serve it or to restore it (`holds`). Every step
keeps this but one: the branch that serves the deferred calls does not restore the flags it was
fetched with, so a thread flag that was fetched together with them is gone.
-/

namespace KiisuFirmware

namespace TimerStore

variable {store : TimerStore}

theorem processRequest_queue (store : TimerStore) (timer : ℕ) :
    Yields (fun s => s.timerQueue = store.timerQueue) (fun _ => True)
      (store.processRequest timer) := by
  have hstore : ∀ t : Timer, (if t.active then
      { store with timerList := store.timerList.erase timer } else store).timerQueue =
      store.timerQueue := by
    intro t
    split_ifs <;> rfl
  simp only [processRequest]
  cases (store.get timer).request with
  | none => trivial
  | start => exact hstore _
  | stop => exact hstore _
  | free => exact hstore _

theorem processRequests_queue : ∀ (rounds : ℕ) (store : TimerStore),
    store.timerQueue.length = rounds →
    Yields (fun s => s.timerQueue = []) (fun _ => True) (processRequests rounds store)
  | 0, store, hrounds => List.eq_nil_of_length_eq_zero hrounds
  | rounds + 1, store, hrounds => by
    unfold processRequests
    cases hqueue : store.timerQueue with
    | nil =>
      rw [hqueue, List.length_nil] at hrounds
      omega
    | cons timer queue =>
      rw [hqueue, List.length_cons, Nat.add_right_cancel_iff] at hrounds
      refine (processRequest_queue _ timer).bind ?_
      intro s hs
      exact processRequests_queue rounds s (by rw [hs]; exact hrounds)

theorem processExpiredTimers_queue (store : TimerStore) :
    Yields (fun r => r.2.timerQueue = store.timerQueue) (fun _ => True)
      store.processExpiredTimers := by
  unfold processExpiredTimers
  cases store.timerList with
  | nil => rfl
  | cons timer list =>
    simp only
    split_ifs <;> trivial

end TimerStore

namespace EventLoop

variable {loop loop' : EventLoop}

/-! ## What the operations on items do -/

/-- The item is put on the waiting list. -/
def listed (loop : EventLoop) (item : ℕ) : EventLoop :=
  { loop with
    waitingList := if loop.itemIsWaiting item then loop.waitingList
      else loop.waitingList ++ [item] }.notify .event

/-- The object has a new subscription. -/
def subscribed (loop : EventLoop) (object : ℕ) (event : UInt32)
    (put : Option ℕ → LoopLink) : EventLoop :=
  { loop with
    items := Function.update loop.items loop.nextItem (some ⟨true, event, object⟩)
    nextItem := loop.nextItem + 1
    tree := Function.update loop.tree object (some loop.nextItem)
    links := Function.update loop.links object (put (some loop.nextItem)) }

/-- The subscription of the object is gone; its item is kept if it is the current one. -/
def unsubscribed (loop : EventLoop) (object item : ℕ) (contents : LoopItem)
    (put : Option ℕ → LoopLink) : EventLoop :=
  { loop with
    items := Function.update loop.items item
      (if loop.currentItem = some item then some { contents with owned := false } else none)
    tree := Function.update loop.tree object none
    links := Function.update loop.links object (put none)
    waitingList := loop.waitingList.erase item }

theorem deref_yields (loop : EventLoop) (item : ℕ) :
    Yields (fun contents => loop.items item = some contents)
      (fun fault => fault = .useAfterFree ∧ loop.items item = none) (loop.deref item) := by
  unfold deref
  cases hitem : loop.items item with
  | none => exact ⟨rfl, rfl⟩
  | some contents => rfl

theorem itemNotify_yields (loop : EventLoop) (item : ℕ) :
    Yields (fun loop' => (∃ contents, loop.items item = some contents ∧ contents.owned = true) ∧
        loop' = loop.listed item)
      (fun fault => fault ≠ .levelCrash ∧ (fault = .useAfterFree → loop.items item = none))
      (loop.itemNotify item) := by
  have hderef := deref_yields loop item
  unfold itemNotify
  cases hcontents : loop.deref item with
  | error fault =>
    rw [hcontents] at hderef
    obtain ⟨rfl, hnone⟩ := hderef
    exact ⟨by decide, fun _ => hnone⟩
  | ok contents =>
    rw [hcontents] at hderef
    simp only [Except.bind]
    by_cases howned : contents.owned = true
    · simp only [howned, Bool.not_true, Bool.false_eq_true, if_false]
      exact ⟨⟨contents, hderef, howned⟩, rfl⟩
    · simp only [howned, Bool.not_false, if_true]
      exact ⟨by decide, by intro h; cases h⟩

theorem linkNotify_yields (loop : EventLoop) (object : ℕ) (event : UInt32) :
    Yields (fun loop' => loop' = loop ∨ ∃ item, ((loop.links object).itemIn = some item ∨
        (loop.links object).itemOut = some item) ∧ loop' = loop.listed item)
      (fun fault => fault ≠ .levelCrash ∧ (fault = .useAfterFree →
        ∃ item, ((loop.links object).itemIn = some item ∨
          (loop.links object).itemOut = some item) ∧ loop.items item = none))
      (loop.linkNotify object event) := by
  unfold linkNotify
  split_ifs
  · cases hplace : (loop.links object).itemIn with
    | none => exact .inl rfl
    | some item =>
      refine (itemNotify_yields loop item).mono ?_ ?_
      · exact fun loop' h => .inr ⟨item, .inl rfl, h.2⟩
      · exact fun fault h => ⟨h.1, fun hfault => ⟨item, .inl rfl, h.2 hfault⟩⟩
  · cases hplace : (loop.links object).itemOut with
    | none => exact .inl rfl
    | some item =>
      refine (itemNotify_yields loop item).mono ?_ ?_
      · exact fun loop' h => .inr ⟨item, .inr rfl, h.2⟩
      · exact fun fault h => ⟨h.1, fun hfault => ⟨item, .inr rfl, h.2 hfault⟩⟩
  · exact ⟨by decide, by intro h; cases h⟩

theorem getLevel_yields (object : LoopObject) (event : UInt32) :
    Yields (fun _ => event = eventIn ∨ event = eventOut)
      (fun fault => fault = .levelCrash ∧ event ≠ eventIn ∧ event ≠ eventOut)
      (object.getLevel event) := by
  have hlevels : ∀ levelIn levelOut, Yields (fun _ => event = eventIn ∨ event = eventOut)
      (fun fault => fault = .levelCrash ∧ event ≠ eventIn ∧ event ≠ eventOut)
      (getLevelOf levelIn levelOut event) := by
    intro levelIn levelOut
    unfold getLevelOf
    split_ifs with hin hout
    · exact .inl hin
    · exact .inr hout
    · exact ⟨rfl, hin, hout⟩
  cases object with
  | streamBuffer bytesAvailable spacesAvailable => exact hlevels _ _
  | messageQueue count space => exact hlevels _ _
  | semaphore count space => exact hlevels _ _
  | eventFlag flags => exact hlevels _ _
  | mutex owned => exact hlevels _ _

theorem linkPlace_event {link : LoopLink} {event : UInt32}
    {place : Option ℕ × (Option ℕ → LoopLink)} (h : linkPlace link event = some place) :
    event = eventIn ∨ event = eventOut := by
  unfold linkPlace at h
  split_ifs at h with hin hout
  · exact .inl hin
  · exact .inr hout

theorem subscribe_yields (loop : EventLoop) (object : ℕ) (event : UInt32) :
    Yields (fun loop' => loop.tree object = none ∧ ∃ put,
        linkPlace (loop.links object) (event &&& eventMask) = some (none, put) ∧
        (loop' = loop.subscribed object event put ∨
          loop' = (loop.subscribed object event put).listed loop.nextItem))
      (fun fault => fault ≠ .levelCrash ∧ fault ≠ .useAfterFree)
      (loop.subscribe object event) := by
  unfold subscribe
  by_cases htree : loop.tree object = none
  · rw [if_neg (not_not.2 htree)]
    simp only
    cases hplace : linkPlace (loop.links object) (event &&& eventMask) with
    | none =>
      simp only [itemAlloc, hplace]
      exact ⟨by decide, by decide⟩
    | some place =>
      obtain ⟨old, put⟩ := place
      simp only [itemAlloc, hplace]
      by_cases hold : old = none
      · subst hold
        rw [if_neg (not_not.2 rfl)]
        by_cases hedge : event &&& eventFlagEdge = 0
        · rw [if_pos hedge]
          have hlevel := getLevel_yields (loop.objects object) (event &&& eventMask)
          cases hget : (loop.objects object).getLevel (event &&& eventMask) with
          | error fault =>
            rw [hget] at hlevel
            obtain ⟨-, hin, hout⟩ := hlevel
            rcases linkPlace_event hplace with h | h
            · exact absurd h hin
            · exact absurd h hout
          | ok level =>
            simp only [Except.bind]
            cases level with
            | false =>
              simp only [Bool.false_eq_true, if_false]
              exact ⟨htree, put, rfl, .inl rfl⟩
            | true =>
              simp only [if_true]
              refine (itemNotify_yields (loop.subscribed object event put) loop.nextItem).mono ?_ ?_
              · exact fun loop' h => ⟨htree, put, rfl, .inr h.2⟩
              · intro fault h
                refine ⟨h.1, fun hfault => ?_⟩
                have hitem := h.2 hfault
                simp [subscribed] at hitem
        · rw [if_neg hedge]
          exact ⟨htree, put, rfl, .inl rfl⟩
      · rw [if_pos hold]
        exact ⟨by decide, by decide⟩
  · rw [if_pos htree]
    exact ⟨by decide, by decide⟩

theorem unsubscribe_yields (loop : EventLoop) (object : ℕ) :
    Yields (fun loop' => ∃ item contents put, loop.tree object = some item ∧
        loop.items item = some contents ∧ contents.owned = true ∧
        linkPlace (loop.links object) (contents.event &&& eventMask) = some (some item, put) ∧
        loop' = loop.unsubscribed object item contents put)
      (fun fault => fault ≠ .levelCrash ∧ (fault = .useAfterFree →
        ∃ item, loop.tree object = some item ∧ loop.items item = none))
      (loop.unsubscribe object) := by
  unfold unsubscribe
  cases htree : loop.tree object with
  | none => exact ⟨by decide, by intro h; cases h⟩
  | some item =>
    simp only
    have hderef := deref_yields { loop with tree := Function.update loop.tree object none } item
    cases hcontents : deref { loop with tree := Function.update loop.tree object none } item with
    | error fault =>
      rw [hcontents] at hderef
      obtain ⟨rfl, hnone⟩ := hderef
      exact ⟨by decide, fun _ => ⟨item, rfl, hnone⟩⟩
    | ok contents =>
      rw [hcontents] at hderef
      simp only [Except.bind]
      by_cases howned : contents.owned = true
      · simp only [howned, Bool.not_true, Bool.false_eq_true, if_false]
        cases hplace : linkPlace (loop.links object) (contents.event &&& eventMask) with
        | none => exact ⟨by decide, by intro h; cases h⟩
        | some place =>
          obtain ⟨old, put⟩ := place
          simp only
          by_cases hold : old = some item
          · subst hold
            rw [if_neg (not_not.2 rfl)]
            have herase : (if loop.itemIsWaiting item then loop.waitingList.erase item
                else loop.waitingList) = loop.waitingList.erase item := by
              by_cases hwaits : item ∈ loop.waitingList
              · simp [itemIsWaiting, hwaits]
              · simp [itemIsWaiting, hwaits, List.erase_of_not_mem hwaits]
            by_cases hcurrent : loop.currentItem = some item
            · rw [if_pos hcurrent]
              refine ⟨item, contents, put, rfl, hderef, howned, hplace, ?_⟩
              unfold unsubscribed
              rw [if_pos hcurrent]
              conv_rhs => rw [← herase]
              rfl
            · rw [if_neg hcurrent]
              refine ⟨item, contents, put, rfl, hderef, howned, hplace, ?_⟩
              unfold unsubscribed
              rw [if_neg hcurrent]
              conv_rhs => rw [← herase]
              rfl
          · rw [if_pos hold]
            exact ⟨by decide, by intro h; cases h⟩
      · simp only [howned, Bool.not_false, if_true]
        exact ⟨by decide, by intro h; cases h⟩

/-! ## What they leave alone -/

/-- Nothing but items and the waiting list changes, and what is put there is notified of. -/
structure Frame (loop loop' : EventLoop) : Prop where
  stopped : loop'.stopped = loop.stopped
  phase : loop'.phase = loop.phase
  timers : loop'.timers = loop.timers
  pendingQueue : loop'.pendingQueue = loop.pendingQueue
  threadFlagsSubscribed : loop'.threadFlagsSubscribed = loop.threadFlagsSubscribed
  raised : loop'.raised = loop.raised
  notified : ∀ flag, loop.notified flag = true → loop'.notified flag = true
  waiting : loop'.waitingList ≠ [] → loop.waitingList ≠ [] ∨ loop'.notified .event = true

theorem Frame.refl (loop : EventLoop) : Frame loop loop :=
  ⟨rfl, rfl, rfl, rfl, rfl, rfl, fun _ h => h, .inl⟩

theorem Frame.trans {loop'' : EventLoop} (h : Frame loop loop') (h' : Frame loop' loop'') :
    Frame loop loop'' where
  stopped := h'.stopped.trans h.stopped
  phase := h'.phase.trans h.phase
  timers := h'.timers.trans h.timers
  pendingQueue := h'.pendingQueue.trans h.pendingQueue
  threadFlagsSubscribed := h'.threadFlagsSubscribed.trans h.threadFlagsSubscribed
  raised := h'.raised.trans h.raised
  notified flag hflag := h'.notified flag (h.notified flag hflag)
  waiting hne := by
    rcases h'.waiting hne with hne | hset
    · exact (h.waiting hne).imp id (h'.notified .event)
    · exact .inr hset

theorem listed_frame (loop : EventLoop) (item : ℕ) : Frame loop (loop.listed item) := by
  refine ⟨rfl, rfl, rfl, rfl, rfl, rfl, ?_, fun _ => .inr ?_⟩
  · intro flag hflag
    simp [listed, notify, LoopFlags.set, hflag]
  · simp [listed, notify, LoopFlags.set]

theorem subscribed_frame (loop : EventLoop) (object : ℕ) (event : UInt32)
    (put : Option ℕ → LoopLink) : Frame loop (loop.subscribed object event put) :=
  ⟨rfl, rfl, rfl, rfl, rfl, rfl, fun _ h => h, .inl⟩

theorem unsubscribed_frame (loop : EventLoop) (object item : ℕ) (contents : LoopItem)
    (put : Option ℕ → LoopLink) : Frame loop (loop.unsubscribed object item contents put) := by
  refine ⟨rfl, rfl, rfl, rfl, rfl, rfl, fun _ h => h, fun hne => .inl ?_⟩
  intro hnil
  rw [unsubscribed, hnil] at hne
  exact hne rfl

theorem itemNotify_frame (loop : EventLoop) (item : ℕ) :
    Yields (Frame loop) (fun _ => True) (loop.itemNotify item) := by
  refine (itemNotify_yields loop item).mono ?_ (fun _ _ => trivial)
  rintro loop' ⟨-, rfl⟩
  exact listed_frame loop item

theorem linkNotify_frame (loop : EventLoop) (object : ℕ) (event : UInt32) :
    Yields (Frame loop) (fun _ => True) (loop.linkNotify object event) := by
  refine (linkNotify_yields loop object event).mono ?_ (fun _ _ => trivial)
  rintro loop' (rfl | ⟨item, -, rfl⟩)
  · exact .refl _
  · exact listed_frame loop item

theorem subscribe_frame (loop : EventLoop) (object : ℕ) (event : UInt32) :
    Yields (Frame loop) (fun _ => True) (loop.subscribe object event) := by
  refine (subscribe_yields loop object event).mono ?_ (fun _ _ => trivial)
  rintro loop' ⟨-, put, -, rfl | rfl⟩
  · exact subscribed_frame loop object event put
  · exact (subscribed_frame loop object event put).trans (listed_frame _ _)

theorem unsubscribe_frame (loop : EventLoop) (object : ℕ) :
    Yields (Frame loop) (fun _ => True) (loop.unsubscribe object) := by
  refine (unsubscribe_yields loop object).mono ?_ (fun _ _ => trivial)
  rintro loop' ⟨item, contents, put, -, -, -, -, rfl⟩
  exact unsubscribed_frame loop object item contents put

/-! ## Nothing is lost -/

/-- There is something to do for the bit. -/
def Needs (loop : EventLoop) : LoopFlag → Prop
  | .event => loop.waitingList ≠ []
  | .stop => False
  | .timer => loop.timers.timerQueue ≠ []
  | .pending => loop.pendingQueue ≠ []
  | .threadFlag => loop.raised = true ∧ loop.threadFlagsSubscribed = true

/-- What the loop's thread is going to serve or to set again. -/
def holds : LoopPhase → LoopFlags
  | .fetched flags => flags
  | .popped flags _ => flags.set .event
  | .processing flags _ => flags.set .event
  | .callback (.item flags _ _) => flags.set .event
  | .processed flags _ _ => flags.set .event
  | .syncFlags flags => flags.set .event
  | .restoreFlags flags => flags
  | .pendingCallbacks => LoopFlags.none.set .pending
  | .callback .pending => LoopFlags.none.set .pending
  | _ => .none

def CoveredBy (held : LoopFlags) (loop : EventLoop) : Prop :=
  loop.stopped = false → ∀ flag, loop.Needs flag → loop.notified flag = true ∨ held flag = true

def Covered (loop : EventLoop) : Prop := CoveredBy (holds loop.phase) loop

variable {held : LoopFlags}

theorem CoveredBy.frame (h : CoveredBy held loop) (hframe : Frame loop loop') :
    CoveredBy held loop' := by
  intro hrunning flag hneed
  rw [hframe.stopped] at hrunning
  have hcovers : loop.Needs flag → loop'.notified flag = true ∨ held flag = true := fun hneed =>
    (h hrunning flag hneed).imp (hframe.notified flag) id
  cases flag with
  | event =>
    rcases hframe.waiting hneed with hne | hset
    · exact hcovers hne
    · exact .inl hset
  | stop => exact hneed.elim
  | timer =>
    simp only [Needs, hframe.timers] at hneed
    exact hcovers hneed
  | pending =>
    simp only [Needs, hframe.pendingQueue] at hneed
    exact hcovers hneed
  | threadFlag =>
    simp only [Needs, hframe.raised, hframe.threadFlagsSubscribed] at hneed
    exact hcovers hneed

theorem Covered.frame (h : Covered loop) (hframe : Frame loop loop') : Covered loop' := by
  unfold Covered
  rw [hframe.phase]
  exact CoveredBy.frame h hframe

theorem CoveredBy.goTo {phase : LoopPhase} (h : CoveredBy held loop)
    (hheld : ∀ flag, held flag = true → holds phase flag = true) : Covered (loop.goTo phase) :=
  fun hrunning flag hneed => (h hrunning flag hneed).imp id (hheld flag)

theorem CoveredBy.change (h : CoveredBy held loop) (flag : LoopFlag)
    (hstopped : loop'.stopped = loop.stopped)
    (hnotified : ∀ f, loop.notified f = true → loop'.notified f = true)
    (hneeds : ∀ f, f ≠ flag → loop'.Needs f → loop.Needs f)
    (hflag : loop'.Needs flag → loop'.notified flag = true ∨ held flag = true) :
    CoveredBy held loop' := by
  intro hrunning f hneed
  by_cases hf : f = flag
  · subst hf
    exact hflag hneed
  · rw [hstopped] at hrunning
    exact (h hrunning f (hneeds f hf hneed)).imp (hnotified f) id

theorem CoveredBy.clear (h : CoveredBy held loop) (flag : LoopFlag) (hneed : ¬loop.Needs flag) :
    CoveredBy (held.clear flag) loop := by
  intro hrunning f hf
  refine (h hrunning f hf).imp id ?_
  intro hheld
  have hne : f ≠ flag := by
    rintro rfl
    exact hneed hf
  simp [LoopFlags.clear, hheld, hne]

theorem set_of_holds {flags : LoopFlags} {flag f : LoopFlag} (h : flags f = true) :
    flags.set flag f = true := by
  simp [LoopFlags.set, h]

/-! ## The steps of the loop's thread -/

variable {flags : LoopFlags} {item : ℕ}

/-- What is served with the fetched bits, and what is given up, unless it is still needed. -/
def DispatchOk (loop : EventLoop) (flags : LoopFlags) : Prop :=
  flags .stop = false → flags .event = false → flags .timer = false → flags .pending = true →
    loop.Needs .threadFlag → loop.notified .threadFlag = true

theorem dispatch_covered (h : CoveredBy flags loop) (hok : DispatchOk loop flags) :
    Yields Covered (fun _ => True) (loop.dispatch flags) := by
  unfold dispatch
  by_cases hstop : flags .stop = true
  · rw [if_pos hstop]
    intro hrunning
    cases hrunning
  · rw [if_neg hstop]
    by_cases hevent : flags .event = true
    · rw [if_pos hevent]
      cases hwaiting : loop.waitingList with
      | nil =>
        refine (h.clear .event ?_).goTo (fun _ h => h)
        exact not_not.2 hwaiting
      | cons item waitingList =>
        have hpopped : CoveredBy flags { loop with waitingList } := by
          refine h.change .event rfl (fun _ h => h) ?_ (fun _ => .inr hevent)
          rintro (_ | _ | _ | _ | _) hf hneed <;> first | exact hneed | exact absurd rfl hf
        refine hpopped.goTo ?_
        intro flag hflag
        cases flag <;> simp [holds, LoopFlags.set, LoopFlags.clear, hflag]
    · rw [if_neg hevent]
      by_cases htimer : flags .timer = true
      · rw [if_pos htimer]
        have hqueue := TimerStore.processRequests_queue _ loop.timers rfl
        unfold TimerStore.processTimerQueue
        cases hprocess : TimerStore.processRequests _ loop.timers with
        | error fault => trivial
        | ok timers =>
          rw [hprocess] at hqueue
          have hserved : CoveredBy flags { loop with timers } := by
            refine h.change .timer rfl (fun _ h => h) ?_ (fun hneed => absurd hqueue hneed)
            rintro (_ | _ | _ | _ | _) hf hneed <;> first | exact hneed | exact absurd rfl hf
          refine (hserved.clear .timer ?_).goTo (fun _ h => h)
          exact not_not.2 hqueue
      · rw [if_neg htimer]
        simp only [Bool.not_eq_true] at hstop hevent htimer
        by_cases hpending : flags .pending = true
        · rw [if_pos hpending]
          intro hrunning flag hneed
          cases flag with
          | event => exact .inl ((h hrunning .event hneed).resolve_right (by simp [hevent]))
          | stop => exact hneed.elim
          | timer => exact .inl ((h hrunning .timer hneed).resolve_right (by simp [htimer]))
          | pending => exact .inr rfl
          | threadFlag => exact .inl (hok hstop hevent htimer hpending hneed)
        · rw [if_neg hpending]
          simp only [Bool.not_eq_true] at hpending
          have hnothing : ∀ flag ≠ .threadFlag, flags flag = false := by
            intro flag hflag
            cases flag <;> first | assumption | exact absurd rfl hflag
          by_cases hflag : flags .threadFlag = true
          · rw [if_pos hflag]
            by_cases hsubscribed : loop.threadFlagsSubscribed = true
            · rw [if_pos hsubscribed]
              intro hrunning flag hneed
              by_cases hthread : flag = .threadFlag
              · subst hthread
                exact absurd hneed.1 (by simp [call, goTo])
              · have hbefore : loop.Needs flag := by
                  cases flag <;> first | exact hneed | exact absurd rfl hthread
                refine .inl ((h hrunning flag hbefore).resolve_right ?_)
                simp [hnothing flag hthread]
            · rw [if_neg hsubscribed]
              intro hrunning flag hneed
              by_cases hthread : flag = .threadFlag
              · subst hthread
                exact absurd hneed.2 hsubscribed
              · refine .inl ((h hrunning flag hneed).resolve_right ?_)
                simp [hnothing flag hthread]
          · rw [if_neg hflag]
            trivial

theorem processOnce_covered (h : CoveredBy (flags.set .event) loop) :
    Yields Covered (fun _ => True) (loop.processOnce flags item) := by
  unfold processOnce
  cases loop.deref item with
  | error fault => trivial
  | ok contents =>
    simp only [Except.bind]
    have hrecord : CoveredBy (flags.set .event) (loop.record (.processed item contents.event)) := h
    by_cases honce : contents.isOnce = true
    · rw [if_pos honce]
      have hframe := unsubscribe_frame (loop.record (.processed item contents.event))
        contents.object
      cases hunsubscribe : unsubscribe _ contents.object with
      | error fault => trivial
      | ok loop' =>
        rw [hunsubscribe] at hframe
        exact (hrecord.frame hframe).goTo (fun _ h => h)
    · rw [if_neg honce]
      exact hrecord.goTo (fun _ h => h)

theorem processEvent_covered (h : CoveredBy (flags.set .event) loop) :
    Yields Covered (fun _ => True) (loop.processEvent flags item) := by
  unfold processEvent
  simp only
  cases deref _ item with
  | error fault => trivial
  | ok contents =>
    simp only [Except.bind]
    have hcurrent : CoveredBy (flags.set .event) { loop with currentItem := some item } := h
    split_ifs
    · exact hcurrent.goTo (fun _ h => h)
    · cases itemGetLevel _ item with
      | error fault => trivial
      | ok level =>
        simp only [Except.map]
        cases level with
        | false => exact hcurrent.goTo (fun _ h => h)
        | true => exact hcurrent.goTo (fun _ h => h)

theorem returnFrom_covered : ∀ {callback : LoopCallback},
    CoveredBy (holds (.callback callback)) loop →
    Yields Covered (fun _ => True) (loop.returnFrom callback)
  | .item flags item false, h => CoveredBy.goTo h (fun _ h => h)
  | .item flags item true, h => by
    simp only [returnFrom]
    cases loop.itemGetLevel item with
    | error fault => trivial
    | ok level =>
      simp only [Except.map]
      exact CoveredBy.goTo h (fun _ h => h)
  | .pending, h => by
    refine h.change .pending rfl (fun _ h => h) ?_ (fun _ => .inr rfl)
    rintro (_ | _ | _ | _ | _) hf hneed <;> first | exact hneed | exact absurd rfl hf
  | .threadFlags, h => CoveredBy.goTo h (fun _ h => h)
  | .time, h => CoveredBy.goTo h (fun _ h => h)

theorem finishEvent_covered {status : ProcessStatus} (h : CoveredBy (flags.set .event) loop) :
    Yields Covered (fun _ => True) (loop.finishEvent flags item status) := by
  unfold finishEvent
  simp only
  cases deref _ item with
  | error fault => trivial
  | ok contents =>
    simp only [Except.bind]
    have hidle : CoveredBy (flags.set .event) { loop with currentItem := none } := h
    generalize (if !contents.owned then .freeLater else status) = outcome
    cases outcome with
    | complete => exact hidle.goTo (fun _ h => h)
    | incomplete =>
      have hframe := itemNotify_frame { loop with currentItem := none } item
      cases hnotify : itemNotify _ item with
      | error fault => trivial
      | ok loop' =>
        rw [hnotify] at hframe
        exact (hidle.frame hframe).goTo (fun _ h => h)
    | freeLater =>
      have hfreed : CoveredBy (flags.set .event)
          ({ loop with currentItem := none }.itemFree item) := h
      exact hfreed.goTo (fun _ h => h)

theorem advance_covered (h : Covered loop)
    (hok : ∀ flags, loop.phase = .fetched flags → DispatchOk loop flags) :
    Yields Covered (fun _ => True) loop.advance := by
  unfold advance
  unfold Covered at h
  cases hphase : loop.phase with
  | wait =>
    simp only
    rw [hphase] at h
    split_ifs
    · intro hrunning flag hneed
      exact .inr ((h hrunning flag hneed).resolve_right (by simp [holds, LoopFlags.none]))
    · trivial
  | fetched flags =>
    rw [hphase] at h
    exact dispatch_covered h (hok flags hphase)
  | popped flags item =>
    rw [hphase] at h
    exact processOnce_covered h
  | processing flags item =>
    rw [hphase] at h
    exact processEvent_covered h
  | processed flags item status =>
    rw [hphase] at h
    exact finishEvent_covered h
  | syncFlags flags =>
    simp only
    rw [hphase] at h
    by_cases hwaiting : loop.waitingList = []
    · rw [if_neg (not_not.2 hwaiting)]
      refine CoveredBy.goTo (CoveredBy.clear h .event (not_not.2 hwaiting)) ?_
      intro flag hflag
      cases flag <;> simp_all [LoopFlags.clear, LoopFlags.set, holds]
    · rw [if_pos hwaiting]
      have hnotified : CoveredBy flags (loop.notify .event) := by
        intro hrunning flag hneed
        rcases h hrunning flag hneed with hset | hheld
        · exact .inl (set_of_holds hset)
        · cases flag <;> simp_all [holds, notify, LoopFlags.set]
      exact hnotified.goTo (fun _ h => h)
  | restoreFlags flags =>
    rw [hphase] at h
    intro hrunning flag hneed
    have hset : loop.notified flag = true ∨ flags flag = true := h hrunning flag hneed
    exact .inl (by simpa [goTo, LoopFlags.or] using hset)
  | pendingCallbacks =>
    simp only
    rw [hphase] at h
    by_cases hqueue : loop.pendingQueue = []
    · rw [if_neg (not_not.2 hqueue)]
      refine CoveredBy.goTo (CoveredBy.clear h .pending (not_not.2 hqueue)) ?_
      intro flag hflag
      cases flag <;> simp [LoopFlags.clear, LoopFlags.set, LoopFlags.none, holds] at hflag
    · rw [if_pos hqueue]
      exact CoveredBy.goTo h (fun _ h => h)
  | outside => trivial
  | callback callback => trivial

theorem timeout_covered (h : Covered loop) (tick : Bool) :
    Yields Covered (fun _ => True) (loop.timeout tick) := by
  unfold timeout
  unfold Covered at h
  cases hphase : loop.phase with
  | wait =>
    simp only
    rw [hphase] at h
    by_cases hany : loop.notified.any = true
    · rw [if_pos hany]
      trivial
    · rw [if_neg hany]
      have hqueue := TimerStore.processExpiredTimers_queue loop.timers
      cases hprocess : loop.timers.processExpiredTimers with
      | error fault => trivial
      | ok r =>
        obtain ⟨expired, timers⟩ := r
        rw [hprocess] at hqueue
        have hserved : CoveredBy .none { loop with timers } := by
          intro hrunning
          refine CoveredBy.change h .timer rfl (fun _ h => h) ?_ ?_ hrunning
          · rintro (_ | _ | _ | _ | _) hf hneed <;> first | exact hneed | exact absurd rfl hf
          · intro hneed
            simp only [Needs] at hneed
            rw [hqueue] at hneed
            exact h hrunning .timer hneed
        cases expired with
        | true => exact hserved.goTo (fun _ h => h)
        | false =>
          cases tick with
          | true => exact hserved.goTo (fun _ h => h)
          | false => exact hserved
  | outside => trivial
  | fetched flags => trivial
  | popped flags item => trivial
  | processing flags item => trivial
  | callback callback => trivial
  | processed flags item status => trivial
  | syncFlags flags => trivial
  | restoreFlags flags => trivial
  | pendingCallbacks => trivial

/-! ## The calls and the other threads -/

theorem CoveredBy.notify (h : CoveredBy held loop) (flag : LoopFlag) :
    CoveredBy held (loop.notify flag) :=
  fun hrunning f hneed => (h hrunning f hneed).imp set_of_holds id

theorem notified_notify (loop : EventLoop) (flag : LoopFlag) :
    (loop.notify flag).notified flag = true := by
  simp [EventLoop.notify, LoopFlags.set]

theorem timerCall_covered (h : Covered loop) (call : TimerAction) :
    Yields Covered (fun _ => True) (loop.timerCall call) := by
  have hcall : ∀ timers, Covered ({ loop with timers }.notify .timer) := by
    intro timers
    refine h.change .timer rfl (fun _ => set_of_holds) ?_ (fun _ => .inl (notified_notify _ _))
    rintro (_ | _ | _ | _ | _) hf hneed <;> first | exact hneed | exact absurd rfl hf
  unfold timerCall
  cases call with
  | alloc periodic =>
    exact fun hrunning flag hneed => h hrunning flag (by cases flag <;> exact hneed)
  | start timer interval =>
    cases loop.timers.step (.start timer interval) with
    | error fault => trivial
    | ok timers => exact hcall timers
  | restart timer =>
    cases loop.timers.step (.restart timer) with
    | error fault => trivial
    | ok timers => exact hcall timers
  | stop timer =>
    cases loop.timers.step (.stop timer) with
    | error fault => trivial
    | ok timers => exact hcall timers
  | free timer =>
    cases loop.timers.step (.free timer) with
    | error fault => trivial
    | ok timers => exact hcall timers
  | tick ticks => trivial
  | processTimerQueue =>
    cases loop.timers.step .processTimerQueue with
    | error fault => trivial
    | ok timers => trivial
  | processExpiredTimers =>
    cases loop.timers.step .processExpiredTimers with
    | error fault => trivial
    | ok timers => trivial

/-- The steps that lose nothing: deferred calls are not served when a thread flag was fetched
with them, unless it is there again, and thread flags are not subscribed to after one was
dropped. -/
def StepOk (loop : EventLoop) : LoopAction → Prop
  | .advance => ∀ flags, loop.phase = .fetched flags → DispatchOk loop flags
  | .subscribeThreadFlags =>
    loop.raised = true → loop.notified .threadFlag = true ∨ holds loop.phase .threadFlag = true
  | _ => True

theorem api_yields {P : EventLoop → Prop} {Q : LoopFault → Prop} {result : Except LoopFault EventLoop}
    (h : Yields P Q result) (hblocked : Q .blocked) : Yields P Q (loop.api result) := by
  unfold api
  split_ifs
  · exact h
  · exact hblocked

theorem step_covered (loop : EventLoop) (action : LoopAction) (h : Covered loop)
    (hok : StepOk loop action) : Yields Covered (fun _ => True) (loop.step action) := by
  cases action with
  | change object contents => exact fun hrunning flag hneed => h hrunning flag (by
      cases flag <;> exact hneed)
  | linkNotify object event =>
    exact (linkNotify_frame loop object event).mono (fun _ => Covered.frame h) (fun _ h => h)
  | raiseThreadFlag =>
    refine CoveredBy.change h .threadFlag rfl (fun _ => set_of_holds) ?_
      (fun _ => .inl (notified_notify _ _))
    rintro (_ | _ | _ | _ | _) hf hneed <;> first | exact hneed | exact absurd rfl hf
  | stop => exact h.notify .stop
  | tick ticks => exact fun hrunning flag hneed => h hrunning flag (by cases flag <;> exact hneed)
  | subscribe object event =>
    exact api_yields ((subscribe_frame loop object event).mono (fun _ => Covered.frame h)
      (fun _ h => h)) trivial
  | unsubscribe object =>
    exact api_yields ((unsubscribe_frame loop object).mono (fun _ => Covered.frame h)
      (fun _ h => h)) trivial
  | subscribeThreadFlags =>
    refine api_yields ?_ trivial
    unfold subscribeThreadFlags
    split_ifs
    · trivial
    · refine CoveredBy.change h .threadFlag rfl (fun _ h => h) ?_ (fun hneed => hok hneed.1)
      rintro (_ | _ | _ | _ | _) hf hneed <;> first | exact hneed | exact absurd rfl hf
  | unsubscribeThreadFlags =>
    refine api_yields ?_ trivial
    unfold unsubscribeThreadFlags
    split_ifs
    · refine CoveredBy.change h .threadFlag rfl (fun _ h => h) ?_
        (fun hneed => absurd hneed.2 Bool.false_ne_true)
      rintro (_ | _ | _ | _ | _) hf hneed <;> first | exact hneed | exact absurd rfl hf
    · trivial
  | pendCallback callback =>
    refine api_yields ?_ trivial
    refine CoveredBy.change h .pending rfl (fun _ => set_of_holds) ?_
      (fun _ => .inl (notified_notify _ _))
    rintro (_ | _ | _ | _ | _) hf hneed <;> first | exact hneed | exact absurd rfl hf
  | timerCall call => exact api_yields (timerCall_covered h call) trivial
  | run =>
    simp only [step]
    unfold Covered at h
    cases hphase : loop.phase with
    | outside =>
      rw [hphase] at h
      exact h.goTo (fun _ h => h)
    | wait => trivial
    | fetched flags => trivial
    | popped flags item => trivial
    | processing flags item => trivial
    | callback callback => trivial
    | processed flags item status => trivial
    | syncFlags flags => trivial
    | restoreFlags flags => trivial
    | pendingCallbacks => trivial
  | callbackReturns =>
    simp only [step]
    unfold Covered at h
    cases hphase : loop.phase with
    | callback callback =>
      rw [hphase] at h
      exact returnFrom_covered h
    | outside => trivial
    | wait => trivial
    | fetched flags => trivial
    | popped flags item => trivial
    | processing flags item => trivial
    | processed flags item status => trivial
    | syncFlags flags => trivial
    | restoreFlags flags => trivial
    | pendingCallbacks => trivial
  | advance => exact advance_covered h hok
  | timeout tick => exact timeout_covered h tick

theorem init_covered (objects : ℕ → LoopObject) (clock : UInt32) :
    Covered (init objects clock) := by
  intro _ flag hneed
  cases flag with
  | event => exact absurd rfl hneed
  | stop => exact hneed.elim
  | timer => exact absurd rfl hneed
  | pending => exact absurd rfl hneed
  | threadFlag => exact absurd hneed.1 Bool.false_ne_true

/-- If the loop is about to sleep, the bits of all there is to do are set. -/
def ReadyToSleep (loop : EventLoop) : Prop :=
  loop.phase = .wait → loop.stopped = false → ∀ flag, loop.Needs flag → loop.notified flag = true

theorem notifications_kept (objects : ℕ → LoopObject) (clock : UInt32)
    (actions : List LoopAction)
    (hok : ExecAlong StepOk EventLoop.step (init objects clock) actions) :
    Yields ReadyToSleep (fun _ => True) (exec EventLoop.step (init objects clock) actions) := by
  refine (exec_inv step_covered actions (init_covered objects clock) hok).mono ?_ (fun _ h => h)
  intro loop hcovered hwait hrunning flag hneed
  unfold Covered at hcovered
  rw [hwait] at hcovered
  refine (hcovered hrunning flag hneed).resolve_right ?_
  simp [holds, LoopFlags.none]

/-- The bits of a timer and of a deferred call are fetched at once, and the latter's is restored. -/
theorem notifications_kept_pending :
    Yields ReadyToSleep (fun _ => True) (exec EventLoop.step (init (fun _ => .mutex false) 0)
      [.timerCall (.alloc true), .timerCall (.start 0 10), .pendCallback 0, .run, .advance,
        .advance, .advance]) := by
  refine notifications_kept _ _ _ ?_
  refine ⟨trivial, ?_⟩
  rintro _ ⟨⟩
  refine ⟨trivial, ?_⟩
  rintro _ ⟨⟩
  refine ⟨trivial, ?_⟩
  rintro _ ⟨⟩
  refine ⟨trivial, ?_⟩
  rintro _ ⟨⟩
  refine ⟨by rintro _ ⟨⟩, ?_⟩
  rintro _ ⟨⟩
  refine ⟨?_, ?_⟩
  · rintro _ ⟨⟩ - - htimer
    cases htimer
  rintro _ ⟨⟩
  exact ⟨by rintro _ ⟨⟩, fun _ _ => trivial⟩

/-- A thread flag that comes together with a deferred call is lost. -/
theorem threadFlag_lost :
    ¬∀ (objects : ℕ → LoopObject) (clock : UInt32) (actions : List LoopAction),
      Yields ReadyToSleep (fun _ => True)
        (exec EventLoop.step (init objects clock) actions) := by
  intro h
  have hlost : ReadyToSleep _ := h (fun _ => .mutex false) 0 [.subscribeThreadFlags,
    .pendCallback 0, .raiseThreadFlag, .run, .advance, .advance, .advance, .callbackReturns,
    .advance]
  exact Bool.false_ne_true (hlost rfl rfl .threadFlag ⟨rfl, rfl⟩)

end EventLoop

end KiisuFirmware
