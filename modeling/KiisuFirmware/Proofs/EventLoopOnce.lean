import KiisuFirmware.Proofs.EventLoopItems

/-!
# Subscribing once

A subscription made with the Once flag is to go away with the one call of its callback
(`OnceHonoured`). Until the first such item is processed nothing is removed by the loop itself.
Its processing starts with the removal and never comes to the callback, since the item is freed
by then (`Abandoned`).
-/

namespace KiisuFirmware

/-- What the loop removes by itself had its callback called once before, and never after. -/
def OnceHonoured (log : List LoopEvent) : Prop :=
  ∀ before after item, log = before ++ .removed item :: after →
    before.count (.called item) = 1 ∧ .called item ∉ after

namespace EventLoop

variable {loop loop' : EventLoop} {new : UInt32 → Prop}

/-! ## Steps that are not in the log -/

/-- Nothing is logged, and an item keeps its event, unless it is a new one. -/
structure Quiet (new : UInt32 → Prop) (loop loop' : EventLoop) : Prop where
  log : loop'.log = loop.log
  next : loop.nextItem ≤ loop'.nextItem
  event : ∀ {item contents'}, loop'.items item = some contents' →
    (∃ contents, loop.items item = some contents ∧ contents.event = contents'.event) ∨
      loop.nextItem ≤ item ∧ new contents'.event

theorem Quiet.same (hlog : loop'.log = loop.log) (hnext : loop'.nextItem = loop.nextItem)
    (hitems : loop'.items = loop.items) : Quiet new loop loop' := by
  refine ⟨hlog, hnext.ge, ?_⟩
  intro item contents' hitem
  rw [hitems] at hitem
  exact .inl ⟨contents', hitem, rfl⟩

theorem subscribed_quiet {object : ℕ} {event : UInt32} {put : Option ℕ → LoopLink}
    (hnew : new event) : Quiet new loop (loop.subscribed object event put) := by
  refine ⟨rfl, Nat.le_succ _, ?_⟩
  intro item contents' hitem
  by_cases heq : item = loop.nextItem
  · subst heq
    simp only [subscribed, Function.update_self, Option.some.injEq] at hitem
    subst hitem
    exact .inr ⟨le_rfl, hnew⟩
  · simp only [subscribed, Function.update_of_ne heq] at hitem
    exact .inl ⟨contents', hitem, rfl⟩

theorem unsubscribed_quiet {object item : ℕ} {contents : LoopItem} {put : Option ℕ → LoopLink}
    (hitem : loop.items item = some contents) :
    Quiet new loop (loop.unsubscribed object item contents put) := by
  refine ⟨rfl, le_rfl, ?_⟩
  intro i contents' hi
  by_cases heq : i = item
  · subst heq
    simp only [unsubscribed, Function.update_self] at hi
    split_ifs at hi
    simp only [Option.some.injEq] at hi
    subst hi
    exact .inl ⟨contents, hitem, rfl⟩
  · simp only [unsubscribed, Function.update_of_ne heq] at hi
    exact .inl ⟨contents', hi, rfl⟩

theorem itemFree_quiet {item : ℕ} : Quiet new loop (loop.itemFree item) := by
  refine ⟨rfl, le_rfl, ?_⟩
  intro i contents' hi
  by_cases heq : i = item
  · subst heq
    simp [itemFree] at hi
  · simp only [itemFree, Function.update_of_ne heq] at hi
    exact .inl ⟨contents', hi, rfl⟩

/-- A subscription to this event is made, in a direction there is. -/
def Subscribes (action : LoopAction) (event : UInt32) : Prop :=
  (∃ object, action = .subscribe object event) ∧
    (event &&& eventMask = eventIn ∨ event &&& eventMask = eventOut)

theorem finishEvent_quiet {flags : LoopFlags} {item : ℕ} {status : ProcessStatus} :
    Yields (Quiet new loop) (fun _ => True) (loop.finishEvent flags item status) := by
  unfold finishEvent
  simp only
  cases deref { loop with currentItem := none } item with
  | error fault => trivial
  | ok contents =>
    simp only [Except.bind]
    generalize (if !contents.owned then .freeLater else status) = outcome
    cases outcome with
    | complete => exact .same rfl rfl rfl
    | incomplete =>
      have hnotify := itemNotify_yields { loop with currentItem := none } item
      cases hlisted : itemNotify { loop with currentItem := none } item with
      | error fault => trivial
      | ok loop' =>
        obtain ⟨-, rfl⟩ := hnotify.of_ok hlisted
        exact .same rfl rfl rfl
    | freeLater =>
      have hfreed : Quiet new loop (loop.itemFree item) := itemFree_quiet
      exact ⟨hfreed.log, hfreed.next, hfreed.event⟩

/-- The loop's thread is not about to process an item. -/
def Elsewhere (loop : EventLoop) : Prop :=
  ∀ flags item, loop.phase ≠ .popped flags item ∧ loop.phase ≠ .processing flags item

theorem advance_quiet (h : Elsewhere loop) :
    Yields (Quiet new loop) (fun _ => True) loop.advance := by
  unfold advance
  cases hphase : loop.phase with
  | wait =>
    simp only
    split_ifs
    · exact .same rfl rfl rfl
    · trivial
  | fetched flags =>
    simp only [dispatch]
    split_ifs
    · exact .same rfl rfl rfl
    · cases loop.waitingList with
      | nil => exact .same rfl rfl rfl
      | cons item waitingList => exact .same rfl rfl rfl
    · cases loop.timers.processTimerQueue with
      | error fault => trivial
      | ok timers => exact .same rfl rfl rfl
    · exact .same rfl rfl rfl
    · exact .same rfl rfl rfl
    · exact .same rfl rfl rfl
    · trivial
  | popped flags item => exact absurd hphase (h flags item).1
  | processing flags item => exact absurd hphase (h flags item).2
  | processed flags item status => exact finishEvent_quiet
  | syncFlags flags =>
    simp only
    split_ifs
    · exact .same rfl rfl rfl
    · exact .same rfl rfl rfl
  | restoreFlags flags => exact .same rfl rfl rfl
  | pendingCallbacks =>
    simp only
    split_ifs
    · exact .same rfl rfl rfl
    · exact .same rfl rfl rfl
  | outside => trivial
  | callback callback => trivial

theorem timeout_quiet (tick : Bool) :
    Yields (Quiet new loop) (fun _ => True) (loop.timeout tick) := by
  unfold timeout
  cases loop.phase with
  | wait =>
    simp only
    by_cases hany : loop.notified.any = true
    · rw [if_pos hany]
      trivial
    · rw [if_neg hany]
      cases loop.timers.processExpiredTimers with
      | error fault => trivial
      | ok r =>
        obtain ⟨expired, timers⟩ := r
        cases expired with
        | true => exact .same rfl rfl rfl
        | false =>
          cases tick with
          | true => exact .same rfl rfl rfl
          | false => exact .same rfl rfl rfl
  | _ => trivial

theorem returnFrom_quiet : ∀ {callback : LoopCallback},
    Yields (Quiet new loop) (fun _ => True) (loop.returnFrom callback)
  | .item flags item false => .same rfl rfl rfl
  | .item flags item true => by
    simp only [returnFrom]
    cases loop.itemGetLevel item with
    | error fault => trivial
    | ok level => exact .same rfl rfl rfl
  | .pending => .same rfl rfl rfl
  | .threadFlags => .same rfl rfl rfl
  | .time => .same rfl rfl rfl

theorem timerCall_quiet (call : TimerAction) :
    Yields (Quiet new loop) (fun _ => True) (loop.timerCall call) := by
  unfold timerCall
  cases loop.timers.step call with
  | error fault => trivial
  | ok timers =>
    cases call with
    | tick ticks => trivial
    | processTimerQueue => trivial
    | processExpiredTimers => trivial
    | _ => exact .same rfl rfl rfl

theorem step_quiet (loop : EventLoop) (action : LoopAction)
    (h : action = .advance → Elsewhere loop) :
    Yields (Quiet (Subscribes action) loop) (fun _ => True) (loop.step action) := by
  cases action with
  | change object contents => exact .same rfl rfl rfl
  | linkNotify object event =>
    refine (linkNotify_yields loop object event).mono ?_ (fun _ _ => trivial)
    rintro loop' (rfl | ⟨item, -, rfl⟩)
    · exact .same rfl rfl rfl
    · exact .same rfl rfl rfl
  | raiseThreadFlag => exact .same rfl rfl rfl
  | stop => exact .same rfl rfl rfl
  | tick ticks => exact .same rfl rfl rfl
  | subscribe object event =>
    refine api_yields ((subscribe_yields loop object event).mono ?_ (fun _ _ => trivial)) trivial
    rintro loop' ⟨-, put, hplace, hloop'⟩
    have hnew : Subscribes (.subscribe object event) event :=
      ⟨⟨object, rfl⟩, linkPlace_event hplace⟩
    have hquiet : Quiet (Subscribes (.subscribe object event)) loop
        (loop.subscribed object event put) := subscribed_quiet hnew
    rcases hloop' with rfl | rfl
    · exact hquiet
    · exact ⟨hquiet.log, hquiet.next, hquiet.event⟩
  | unsubscribe object =>
    refine api_yields ((unsubscribe_yields loop object).mono ?_ (fun _ _ => trivial)) trivial
    rintro loop' ⟨item, contents, put, -, hitem, -, -, rfl⟩
    exact unsubscribed_quiet hitem
  | subscribeThreadFlags =>
    refine api_yields ?_ trivial
    unfold subscribeThreadFlags
    split_ifs
    · trivial
    · exact .same rfl rfl rfl
  | unsubscribeThreadFlags =>
    refine api_yields ?_ trivial
    unfold unsubscribeThreadFlags
    split_ifs
    · exact .same rfl rfl rfl
    · trivial
  | pendCallback callback =>
    refine api_yields ?_ trivial
    exact Quiet.same rfl rfl rfl
  | timerCall call => exact api_yields (timerCall_quiet call) trivial
  | run =>
    simp only [step]
    cases loop.phase with
    | outside => exact .same rfl rfl rfl
    | _ => trivial
  | callbackReturns =>
    simp only [step]
    cases loop.phase with
    | callback callback => exact returnFrom_quiet
    | _ => trivial
  | advance => exact advance_quiet (h rfl)
  | timeout tick => exact timeout_quiet tick

/-! ## Before the first removal -/

/-- The loop has removed nothing and called nothing that is subscribed to once. -/
structure Unremoved (loop : EventLoop) : Prop where
  alive : Alive loop
  removed : ∀ item, .removed item ∉ loop.log
  called : ∀ item, .called item ∈ loop.log → item < loop.nextItem ∧
    ∀ contents, loop.items item = some contents → contents.isOnce = false

theorem Unremoved.quiet (h : Unremoved loop) (halive : Alive loop') (hquiet : Quiet new loop loop') :
    Unremoved loop' := by
  refine ⟨halive, ?_, ?_⟩
  · intro item hmem
    rw [hquiet.log] at hmem
    exact h.removed item hmem
  · intro item hmem
    rw [hquiet.log] at hmem
    obtain ⟨hlt, honce⟩ := h.called item hmem
    refine ⟨hlt.trans_le hquiet.next, ?_⟩
    intro contents' hitem
    rcases hquiet.event hitem with ⟨contents, hcontents, hevent⟩ | ⟨hle, -⟩
    · have hold := honce contents hcontents
      simp only [LoopItem.isOnce] at hold ⊢
      rw [← hevent]
      exact hold
    · exact absurd hle (Nat.not_le_of_lt hlt)

theorem Unremoved.record (h : Unremoved loop) (halive : Alive loop') (event : LoopEvent)
    (hlog : loop'.log = loop.log ++ [event]) (hitems : loop'.items = loop.items)
    (hnext : loop'.nextItem = loop.nextItem) (hremoved : ∀ item, event ≠ .removed item)
    (hcalled : ∀ item, event = .called item → item < loop.nextItem ∧
      ∀ contents, loop.items item = some contents → contents.isOnce = false) :
    Unremoved loop' := by
  refine ⟨halive, ?_, ?_⟩
  · intro item hmem
    rw [hlog, List.mem_append, List.mem_singleton] at hmem
    exact hmem.elim (h.removed item) fun heq => hremoved item heq.symm
  · intro item hmem
    rw [hlog, List.mem_append, List.mem_singleton] at hmem
    rw [hitems, hnext]
    exact hmem.elim (h.called item) fun heq => hcalled item heq.symm

theorem processEvent_log {flags : LoopFlags} (item : ℕ) :
    Yields (fun loop' => loop'.items = loop.items ∧ loop'.nextItem = loop.nextItem ∧
        (loop'.log = loop.log ∨ loop'.log = loop.log ++ [.called item]))
      (fun _ => True) (loop.processEvent flags item) := by
  unfold processEvent
  simp only
  cases deref { loop with currentItem := some item } item with
  | error fault => trivial
  | ok contents =>
    simp only [Except.bind]
    split_ifs
    · exact ⟨rfl, rfl, .inr rfl⟩
    · cases itemGetLevel { loop with currentItem := some item } item with
      | error fault => trivial
      | ok level =>
        cases level with
        | false => exact ⟨rfl, rfl, .inl rfl⟩
        | true => exact ⟨rfl, rfl, .inr rfl⟩

theorem step_unremoved (loop : EventLoop) (action : LoopAction) (loop' : EventLoop)
    (h : Unremoved loop) (hok : OnceUnprocessed loop action) (hstep : loop.step action = .ok loop') :
    Unremoved loop' := by
  have halive := (step_alive loop action h.alive hok).of_ok hstep
  by_cases helsewhere : action = .advance → Elsewhere loop
  · exact h.quiet halive ((step_quiet loop action helsewhere).of_ok hstep)
  · simp only [Elsewhere, Classical.not_imp, not_forall, not_and_or, not_not] at helsewhere
    obtain ⟨rfl, flags, item, hphase | hphase⟩ := helsewhere
    · have hstep' : loop.processOnce flags item = .ok loop' := by
        simpa only [step, advance, hphase] using hstep
      have hpopped := h.alive.phase
      rw [PhaseOk, hphase] at hpopped
      obtain ⟨object, htree⟩ := hpopped.2
      obtain ⟨contents, hitem, -⟩ := h.alive.items.tree htree
      simp only [processOnce, deref, hitem, Except.bind, hok flags item contents hphase hitem,
        Bool.false_eq_true, if_false, Except.ok.injEq] at hstep'
      subst hstep'
      exact h.record halive (.processed item contents.event) rfl rfl rfl (by simp) (by simp)
    · have hstep' : loop.processEvent flags item = .ok loop' := by
        simpa only [step, advance, hphase] using hstep
      have hprocessing := h.alive.phase
      rw [PhaseOk, hphase] at hprocessing
      obtain ⟨-, ⟨object, htree⟩, honce⟩ := hprocessing
      obtain ⟨contents, hitem, -⟩ := h.alive.items.tree htree
      obtain ⟨hitems, hnext, hlog | hlog⟩ := (processEvent_log item).of_ok hstep'
      · have hquiet : Quiet (fun _ => True) loop loop' := .same hlog hnext hitems
        exact h.quiet halive hquiet
      · refine h.record halive (.called item) hlog hitems hnext (by simp) ?_
        rintro _ ⟨rfl⟩
        exact ⟨h.alive.items.fresh hitem, honce⟩

theorem Unremoved.honoured (h : Unremoved loop) : OnceHonoured loop.log := by
  intro before after item hlog
  exact absurd (by rw [hlog]; simp) (h.removed item)

/-! ## After it -/

/-- The loop's thread is to process an item that is freed already. -/
def Abandoned (loop : EventLoop) : Prop :=
  (∃ flags item, loop.phase = .processing flags item ∧ loop.items item = none) ∧
    ¬OnceHonoured loop.log

theorem abandoned_of_once (loop : EventLoop) (action : LoopAction) (loop' : EventLoop)
    (h : Unremoved loop) (hok : ¬OnceUnprocessed loop action)
    (hstep : loop.step action = .ok loop') : Abandoned loop' := by
  cases action with
  | advance =>
    simp only [OnceUnprocessed, not_forall] at hok
    obtain ⟨flags, item, contents, hphase, hitem, honce⟩ := hok
    rw [Bool.not_eq_false] at honce
    have hpopped := h.alive.phase
    rw [PhaseOk, hphase] at hpopped
    obtain ⟨hcurrent, object, htree⟩ := hpopped
    have hstep' : loop.processOnce flags item = .ok loop' := by
      simpa only [step, advance, hphase] using hstep
    simp only [processOnce, deref, hitem, Except.bind, honce, if_true] at hstep'
    have hunsubscribe := unsubscribe_yields (loop.record (.processed item contents.event))
      contents.object
    cases hdone : (loop.record (.processed item contents.event)).unsubscribe contents.object with
    | error fault =>
      rw [hdone] at hstep'
      cases hstep'
    | ok loop₁ =>
      rw [hdone] at hstep'
      simp only [Except.map, Except.ok.injEq] at hstep'
      obtain ⟨item', contents', put, htree', -, -, -, rfl⟩ := hunsubscribe.of_ok hdone
      subst hstep'
      have hsame : item' = item := by
        obtain ⟨contents'', hitem', -, hobject⟩ := h.alive.items.tree htree
        rw [hitem, Option.some.injEq] at hitem'
        rw [hitem', hobject] at htree'
        simp only [EventLoop.record, htree, Option.some.injEq] at htree'
        exact htree'.symm
      subst hsame
      refine ⟨⟨flags, item', rfl, ?_⟩, ?_⟩
      · simp [goTo, EventLoop.record, unsubscribed, hcurrent]
      · intro hhonoured
        have hcount := (hhonoured (loop.log ++ [.processed item' contents.event]) [] item' rfl).1
        have hnot : .called item' ∉ loop.log := by
          intro hmem
          have hfalse := (h.called item' hmem).2 contents hitem
          rw [honce] at hfalse
          cases hfalse
        rw [List.count_append, List.count_eq_zero_of_not_mem hnot] at hcount
        simp at hcount
  | _ => exact absurd trivial hok

theorem abandoned_stays (loop : EventLoop) (action : LoopAction) (loop' : EventLoop)
    (h : Abandoned loop) (hstep : loop.step action = .ok loop') : Abandoned loop' := by
  obtain ⟨⟨flags, item, hphase, hitem⟩, hhonoured⟩ := h
  have hsame : ∀ {loop'}, loop'.phase = loop.phase → loop'.items = loop.items →
      loop'.log = loop.log → Abandoned loop' := by
    intro loop' hphase' hitems hlog
    refine ⟨⟨flags, item, hphase'.trans hphase, ?_⟩, ?_⟩
    · rw [hitems]
      exact hitem
    · rw [hlog]
      exact hhonoured
  have huser : ∀ result, loop.api result ≠ .ok loop' := by
    intro result hresult
    simp [api, inUserCode, hphase] at hresult
  cases action with
  | change object contents =>
    cases hstep
    exact hsame rfl rfl rfl
  | linkNotify object event =>
    rcases (linkNotify_yields loop object event).of_ok hstep with rfl | ⟨other, -, rfl⟩
    · exact hsame rfl rfl rfl
    · exact hsame rfl rfl rfl
  | raiseThreadFlag =>
    cases hstep
    exact hsame rfl rfl rfl
  | stop =>
    cases hstep
    exact hsame rfl rfl rfl
  | tick ticks =>
    cases hstep
    exact hsame rfl rfl rfl
  | subscribe object event => exact absurd hstep (huser _)
  | unsubscribe object => exact absurd hstep (huser _)
  | subscribeThreadFlags => exact absurd hstep (huser _)
  | unsubscribeThreadFlags => exact absurd hstep (huser _)
  | pendCallback callback => exact absurd hstep (huser _)
  | timerCall call => exact absurd hstep (huser _)
  | run => simp [step, hphase] at hstep
  | callbackReturns => simp [step, hphase] at hstep
  | advance =>
    simp [step, advance, hphase, processEvent, deref, hitem, Except.bind] at hstep
  | timeout tick => simp [step, timeout, hphase] at hstep

/-! ## Levels -/

/-- Subscriptions are made to a direction and flags. -/
def SubscribesAccepted : LoopAction → Prop
  | .subscribe _ event => event &&& (eventMask ||| eventFlagEdge ||| eventFlagOnce) = event
  | _ => True

theorem step_events (loop : EventLoop) (action : LoopAction) (loop' : EventLoop) (h : Alive loop)
    (hok : OnceUnprocessed loop action) (hstep : loop.step action = .ok loop') {item : ℕ}
    {contents' : LoopItem} (hitem : loop'.items item = some contents') :
    (∃ contents, loop.items item = some contents ∧ contents.event = contents'.event) ∨
      Subscribes action contents'.event := by
  by_cases helsewhere : action = .advance → Elsewhere loop
  · exact (((step_quiet loop action helsewhere).of_ok hstep).event hitem).imp id And.right
  · simp only [Elsewhere, Classical.not_imp, not_forall, not_and_or, not_not] at helsewhere
    obtain ⟨rfl, flags, current, hphase | hphase⟩ := helsewhere
    · have hstep' : loop.processOnce flags current = .ok loop' := by
        simpa only [step, advance, hphase] using hstep
      have hpopped := h.phase
      rw [PhaseOk, hphase] at hpopped
      obtain ⟨object, htree⟩ := hpopped.2
      obtain ⟨contents, hcurrent, -⟩ := h.items.tree htree
      simp only [processOnce, deref, hcurrent, Except.bind,
        hok flags current contents hphase hcurrent, Bool.false_eq_true, if_false,
        Except.ok.injEq] at hstep'
      subst hstep'
      exact .inl ⟨contents', hitem, rfl⟩
    · have hstep' : loop.processEvent flags current = .ok loop' := by
        simpa only [step, advance, hphase] using hstep
      rw [((processEvent_log current).of_ok hstep').1] at hitem
      exact .inl ⟨contents', hitem, rfl⟩

/-- The events of all items are such. -/
def ItemsAccepted (loop : EventLoop) : Prop :=
  ∀ item contents, loop.items item = some contents → Accepted contents.event

theorem step_accepted (loop : EventLoop) (action : LoopAction)
    (h : Alive loop ∧ ItemsAccepted loop)
    (hok : OnceUnprocessed loop action ∧ SubscribesAccepted action) :
    Yields (fun loop => Alive loop ∧ ItemsAccepted loop) (fun fault => fault ≠ .levelCrash)
      (loop.step action) := by
  have halive := step_alive loop action h.1 hok.1
  cases hstep : loop.step action with
  | error fault =>
    rw [hstep] at halive
    intro hcrash
    obtain ⟨item, contents, hitem, hnot⟩ := halive.2 hcrash
    exact hnot (h.2 item contents hitem)
  | ok loop' =>
    rw [hstep] at halive
    refine ⟨halive, ?_⟩
    intro item contents' hitem
    rcases step_events loop action loop' h.1 hok.1 hstep hitem with
      ⟨contents, hcontents, hevent⟩ | ⟨⟨object, rfl⟩, hdirection⟩
    · rw [← hevent]
      exact h.2 item contents hcontents
    · exact ⟨hok.2, hdirection⟩

end EventLoop

end KiisuFirmware
