import KiisuFirmware.EventLoopTimer

/-!
# The timers of an event loop

`StoreOk` is what holds of the timers between any two actions: the active ones are in the list,
those with a request in the queue, each once, and the list is in order of remaining time. Every
action keeps it as long as no listed timer's elapsed time wraps, and only a periodic timer with an
interval of zero makes the loop divide by zero.
-/

namespace KiisuFirmware

namespace Timer

variable (timer : Timer) (clock : UInt32)

theorem toNat_getRemainingTime :
    (timer.getRemainingTime clock).toNat =
      timer.interval.toNat - (timer.getElapsedTime clock).toNat := by
  unfold getRemainingTime
  split_ifs with h
  · rw [UInt32.lt_iff_toNat_lt] at h
    exact UInt32.toNat_sub_of_le _ _ (UInt32.le_iff_toNat_le.2 h.le)
  · rw [UInt32.lt_iff_toNat_lt] at h
    rw [Nat.sub_eq_zero_of_le (by omega)]
    rfl

theorem getRemainingTime_congr {t t' : Timer} (hinterval : t'.interval = t.interval)
    (hstart : t'.startTime = t.startTime) :
    t'.getRemainingTime clock = t.getRemainingTime clock := by
  unfold getRemainingTime getElapsedTime
  rw [hinterval, hstart]

theorem toNat_getElapsedTime_add {ticks : ℕ}
    (h : (timer.getElapsedTime clock).toNat + ticks < 2 ^ 32) :
    (timer.getElapsedTime (clock + UInt32.ofNat ticks)).toNat =
      (timer.getElapsedTime clock).toNat + ticks := by
  have hcomm : timer.getElapsedTime (clock + UInt32.ofNat ticks) =
      timer.getElapsedTime clock + UInt32.ofNat ticks := by
    unfold getElapsedTime
    grind
  rw [hcomm, UInt32.toNat_add, UInt32.toNat_ofNat', Nat.mod_eq_of_lt (a := ticks) (by omega),
    Nat.mod_eq_of_lt h]

theorem toNat_getElapsedTime_periodic :
    (({ timer with startTime := timer.startTime +
      timer.interval * (timer.getElapsedTime clock / timer.interval) } : Timer).getElapsedTime
        clock).toNat =
      (timer.getElapsedTime clock).toNat % timer.interval.toNat := by
  obtain ⟨elapsed, helapsed⟩ : ∃ e, e = timer.getElapsedTime clock := ⟨_, rfl⟩
  have hle : timer.interval.toNat * (elapsed.toNat / timer.interval.toNat) ≤ elapsed.toNat :=
    Nat.mul_div_le _ _
  have hlt := elapsed.toNat_lt
  have hmul : (timer.interval * (elapsed / timer.interval)).toNat =
      timer.interval.toNat * (elapsed.toNat / timer.interval.toNat) := by
    rw [UInt32.toNat_mul, UInt32.toNat_div, Nat.mod_eq_of_lt (by omega)]
  have hsub : clock - (timer.startTime + timer.interval * (elapsed / timer.interval)) =
      elapsed - timer.interval * (elapsed / timer.interval) := by
    rw [helapsed, getElapsedTime]
    grind
  rw [← helapsed, getElapsedTime]
  simp only
  rw [hsub, UInt32.toNat_sub_of_le _ _ (by rw [UInt32.le_iff_toNat_le, hmul]; exact hle), hmul,
    Nat.sub_eq_of_eq_add (Nat.mod_add_div _ _).symm]

end Timer

namespace TimerStore

/-- What holds of the timers between any two actions. -/
structure StoreOk (store : TimerStore) : Prop where
  listed : ∀ timer, timer ∈ store.timerList ↔
    ∃ t, store.timers timer = some t ∧ t.active = true
  queued : ∀ timer, timer ∈ store.timerQueue ↔
    ∃ t, store.timers timer = some t ∧ t.request ≠ .none
  listedOnce : store.timerList.Nodup
  queuedOnce : store.timerQueue.Nodup
  fresh : ∀ timer, store.nextTimer ≤ timer → store.timers timer = none
  ordered : store.timerList.Pairwise fun a b => store.remaining a ≤ store.remaining b

variable {store : TimerStore}

theorem get_set (timer : ℕ) (t : Option Timer) :
    (store.set timer t).get timer = t.getD .zeroed := by
  simp [get, set]

theorem timers_set_ne {timer other : ℕ} (h : other ≠ timer) (t : Option Timer) :
    (store.set timer t).timers other = store.timers other :=
  Function.update_of_ne h _ _

theorem remaining_set_ne {timer other : ℕ} (h : other ≠ timer) (t : Option Timer) :
    (store.set timer t).remaining other = store.remaining other := by
  simp only [remaining, get, timers_set_ne h]
  rfl

theorem remaining_set (timer : ℕ) (t : Timer) :
    (store.set timer (some t)).remaining timer = t.getRemainingTime store.clock := by
  rw [remaining, get_set]
  rfl

theorem get_of_some {timer : ℕ} {t : Timer} (h : store.timers timer = some t) :
    store.get timer = t := by
  rw [get, h, Option.getD_some]

theorem StoreOk.lt_nextTimer (h : StoreOk store) {timer : ℕ} {t : Timer}
    (ht : store.timers timer = some t) : timer < store.nextTimer := by
  by_contra hge
  rw [h.fresh timer (by omega)] at ht
  cases ht

/-! ## Pushing into the list -/

theorem pushByRemaining_perm (store : TimerStore) (timer : ℕ) : ∀ before after : List ℕ,
    (store.pushByRemaining timer before after).Perm (timer :: (before.reverse ++ after))
  | [], after => .refl _
  | tmp :: before, after => by
    unfold pushByRemaining
    split_ifs with h
    · have hswap : (before.reverse ++ tmp :: timer :: after).Perm
          (before.reverse ++ timer :: tmp :: after) := (List.Perm.swap _ _ _).append_left _
      rw [List.reverse_cons, List.append_assoc, List.singleton_append]
      exact hswap.trans List.perm_middle
    · refine (pushByRemaining_perm store timer before (tmp :: after)).trans ?_
      rw [List.reverse_cons, List.append_assoc, List.singleton_append]

/-- The invariant of the search is that the timer expires before everything passed over. -/
theorem pushByRemaining_ordered (timer : ℕ) : ∀ before after : List ℕ,
    (before.reverse ++ after).Pairwise (fun a b => store.remaining a ≤ store.remaining b) →
    (∀ a ∈ after, store.remaining timer ≤ store.remaining a) →
    (store.pushByRemaining timer before after).Pairwise
      fun a b => store.remaining a ≤ store.remaining b
  | [], after, hordered, hafter => by
    rw [pushByRemaining, List.pairwise_cons]
    exact ⟨hafter, by simpa using hordered⟩
  | tmp :: before, after, hordered, hafter => by
    rw [List.reverse_cons, List.append_assoc, List.singleton_append] at hordered
    unfold pushByRemaining
    split_ifs with h
    · rw [List.pairwise_append] at hordered ⊢
      obtain ⟨hbefore, hrest, hcross⟩ := hordered
      rw [List.pairwise_cons] at hrest
      refine ⟨hbefore, ?_, ?_⟩
      · rw [List.pairwise_cons, List.pairwise_cons]
        refine ⟨?_, hafter, hrest.2⟩
        intro a ha
        rcases List.mem_cons.1 ha with rfl | ha
        · exact h
        · exact hrest.1 a ha
      · intro a ha b hb
        rcases List.mem_cons.1 hb with rfl | hb
        · exact hcross a ha _ (List.mem_cons_self ..)
        · rcases List.mem_cons.1 hb with rfl | hb
          · exact UInt32.le_trans (hcross a ha tmp (List.mem_cons_self ..)) h
          · exact hcross a ha b (List.mem_cons_of_mem _ hb)
    · refine pushByRemaining_ordered timer before (tmp :: after) hordered ?_
      intro a ha
      rcases List.mem_cons.1 ha with rfl | ha
      · exact UInt32.le_of_lt (UInt32.not_le.1 h)
      · exact hafter a ha

theorem schedule_perm (store : TimerStore) (timer : ℕ) :
    (store.schedule timer).timerList.Perm (timer :: store.timerList) := by
  have h := pushByRemaining_perm store timer store.timerList.reverse []
  rwa [List.reverse_reverse, List.append_nil] at h

theorem schedule_ordered (store : TimerStore) (timer : ℕ)
    (h : store.timerList.Pairwise fun a b => store.remaining a ≤ store.remaining b) :
    (store.schedule timer).timerList.Pairwise
      fun a b => store.remaining a ≤ store.remaining b :=
  pushByRemaining_ordered timer _ _ (by rwa [List.reverse_reverse, List.append_nil]) (by simp)

/-! ## One timer replaced -/

theorem StoreOk.replace (h : StoreOk store) {timer next : ℕ} (t : Option Timer)
    (list queue : List ℕ) (htimer : timer < next) (hnext : store.nextTimer ≤ next)
    (hlist : ∀ x, x ∈ list ↔
      (x = timer ∧ ∃ t', t = some t' ∧ t'.active = true) ∨ (x ≠ timer ∧ x ∈ store.timerList))
    (hqueue : ∀ x, x ∈ queue ↔
      (x = timer ∧ ∃ t', t = some t' ∧ t'.request ≠ .none) ∨ (x ≠ timer ∧ x ∈ store.timerQueue))
    (hlistOnce : list.Nodup) (hqueueOnce : queue.Nodup)
    (hordered : list.Pairwise fun a b =>
      (store.set timer t).remaining a ≤ (store.set timer t).remaining b) :
    StoreOk { store.set timer t with timerList := list, timerQueue := queue, nextTimer := next } where
  listed x := by
    rw [hlist]
    by_cases hx : x = timer
    · subst hx
      simp [set]
    · simp only [hx, false_and, ne_eq, not_false_eq_true, true_and, false_or, h.listed x,
        timers_set_ne hx]
  queued x := by
    rw [hqueue]
    by_cases hx : x = timer
    · subst hx
      simp [set]
    · simp only [hx, false_and, ne_eq, not_false_eq_true, true_and, false_or, h.queued x,
        timers_set_ne hx]
  listedOnce := hlistOnce
  queuedOnce := hqueueOnce
  fresh x hx := by
    simp only at hx
    rw [timers_set_ne (by omega)]
    exact h.fresh x (by omega)
  ordered := hordered

theorem StoreOk.ordered_set (h : StoreOk store) {timer : ℕ} {t t' : Timer}
    (ht : store.timers timer = some t) (hinterval : t'.interval = t.interval)
    (hstart : t'.startTime = t.startTime) :
    store.timerList.Pairwise fun a b =>
      (store.set timer (some t')).remaining a ≤ (store.set timer (some t')).remaining b := by
  have hsame : ∀ x, (store.set timer (some t')).remaining x = store.remaining x := by
    intro x
    by_cases hx : x = timer
    · subst hx
      rw [remaining_set, remaining, get_of_some ht]
      exact Timer.getRemainingTime_congr _ hinterval hstart
    · exact remaining_set_ne hx _
  simpa only [hsame] using h.ordered

theorem StoreOk.set_same (h : StoreOk store) {timer : ℕ} {t t' : Timer}
    (ht : store.timers timer = some t) (hinterval : t'.interval = t.interval)
    (hstart : t'.startTime = t.startTime) (hactive : t'.active = t.active)
    (hrequest : t'.request = t.request) : StoreOk (store.set timer (some t')) := by
  refine h.replace (some t') store.timerList store.timerQueue (h.lt_nextTimer ht) le_rfl ?_ ?_
    h.listedOnce h.queuedOnce (h.ordered_set ht hinterval hstart)
  · intro x
    by_cases hx : x = timer
    · subst hx
      simp [h.listed, ht, hactive]
    · simp [hx]
  · intro x
    by_cases hx : x = timer
    · subst hx
      simp [h.queued, ht, hrequest]
    · simp [hx]

/-- What an API call may end the loop with. -/
def Misuse (fault : TimerFault) : Prop := fault = .check ∨ fault = .dangling

theorem enqueueRequest_ok (h : StoreOk store) (timer : ℕ) {request : TimerRequest}
    (hrequest : request ≠ .none) :
    Yields StoreOk Misuse (store.enqueueRequest timer request) := by
  unfold enqueueRequest
  cases ht : store.timers timer with
  | none => exact .inr rfl
  | some t =>
    simp only
    by_cases hfree : t.request = .free
    · rw [if_pos hfree]
      exact .inl rfl
    · rw [if_neg hfree]
      obtain ⟨queue, hqueue⟩ : ∃ queue, queue =
          (if t.request ≠ .none then store.timerQueue.erase timer else store.timerQueue) :=
        ⟨_, rfl⟩
      have hothers : queue.Nodup ∧ ∀ x, x ∈ queue ↔ x ≠ timer ∧ x ∈ store.timerQueue := by
        by_cases hnone : t.request = .none
        · rw [hqueue, if_neg (not_not.2 hnone)]
          refine ⟨h.queuedOnce, fun x => ⟨fun hx => ⟨?_, hx⟩, And.right⟩⟩
          rintro rfl
          obtain ⟨t', ht', hsome⟩ := (h.queued x).1 hx
          rw [ht, Option.some.injEq] at ht'
          exact hsome (ht' ▸ hnone)
        · rw [hqueue, if_pos hnone]
          exact ⟨h.queuedOnce.erase timer, fun x => h.queuedOnce.mem_erase_iff⟩
      rw [← hqueue]
      refine h.replace (some { t with request }) store.timerList (queue ++ [timer])
        (h.lt_nextTimer ht) le_rfl ?_ ?_ h.listedOnce ?_ (h.ordered_set ht rfl rfl)
      · intro x
        by_cases hx : x = timer
        · subst hx
          simp [h.listed, ht]
        · simp [hx]
      · intro x
        by_cases hx : x = timer
        · subst hx
          simp [hrequest]
        · simp [hx, hothers.2]
      · rw [List.nodup_append]
        refine ⟨hothers.1, List.nodup_singleton _, ?_⟩
        intro x hx y hy
        rw [List.mem_singleton] at hy
        subst hy
        exact ((hothers.2 x).1 hx).1

theorem allocTimer_ok (h : StoreOk store) (periodic : Bool) : StoreOk (store.allocTimer periodic) := by
  have hnone := h.fresh store.nextTimer le_rfl
  refine h.replace (some { Timer.zeroed with periodic }) store.timerList store.timerQueue
    (Nat.lt_succ_self _) (Nat.le_succ _) ?_ ?_ h.listedOnce h.queuedOnce ?_
  · intro x
    by_cases hx : x = store.nextTimer
    · subst hx
      simp [h.listed, hnone, Timer.zeroed]
    · simp [hx]
  · intro x
    by_cases hx : x = store.nextTimer
    · subst hx
      simp [h.queued, hnone, Timer.zeroed]
    · simp [hx]
  · refine h.ordered.imp_of_mem ?_
    intro a b ha hb hab
    have hne : ∀ x ∈ store.timerList, x ≠ store.nextTimer := by
      rintro x hx rfl
      obtain ⟨t, ht, -⟩ := (h.listed _).1 hx
      rw [hnone] at ht
      cases ht
    rwa [remaining_set_ne (hne a ha), remaining_set_ne (hne b hb)]

theorem enqueueRequest_none {timer : ℕ} (h : store.timers timer = none)
    (request : TimerRequest) : store.enqueueRequest timer request = .error .dangling := by
  rw [enqueueRequest, h]

theorem enqueueRequest_start_ok (h : StoreOk store) (timer : ℕ) (next : Timer → UInt32) :
    Yields StoreOk Misuse ((store.set timer ((store.timers timer).map fun t =>
      { t with nextInterval := next t })).enqueueRequest timer .start) := by
  have hstart : TimerRequest.start ≠ .none := by decide
  cases ht : store.timers timer with
  | none =>
    rw [Option.map_none, enqueueRequest_none (by simp [set])]
    exact .inr rfl
  | some t =>
    have hset : StoreOk (store.set timer (some { t with nextInterval := next t })) :=
      h.set_same ht rfl rfl rfl rfl
    exact enqueueRequest_ok hset timer hstart

/-! ## The loop -/

theorem StoreOk.unlink (h : StoreOk store) {timer : ℕ} {t : Timer}
    (ht : store.timers timer = some t) {list : List ℕ}
    (hlist : list = if t.active then store.timerList.erase timer else store.timerList) :
    list.Nodup ∧ (∀ x, x ∈ list ↔ x ≠ timer ∧ x ∈ store.timerList) ∧
      ∀ t', list.Pairwise fun a b =>
        (store.set timer t').remaining a ≤ (store.set timer t').remaining b := by
  have hsub : list.Sublist store.timerList := by
    rw [hlist]
    split_ifs
    · exact List.erase_sublist
    · exact .refl _
  have hmem : ∀ x, x ∈ list ↔ x ≠ timer ∧ x ∈ store.timerList := by
    intro x
    rw [hlist]
    by_cases hactive : t.active = true
    · rw [if_pos hactive]
      exact h.listedOnce.mem_erase_iff
    · rw [if_neg hactive]
      refine ⟨fun hx => ⟨?_, hx⟩, And.right⟩
      rintro rfl
      obtain ⟨t', ht', hactive'⟩ := (h.listed x).1 hx
      rw [ht, Option.some.injEq] at ht'
      exact hactive (ht' ▸ hactive')
  refine ⟨h.listedOnce.sublist hsub, hmem, fun t' => ?_⟩
  refine (h.ordered.sublist hsub).imp_of_mem ?_
  intro a b ha hb hab
  rwa [remaining_set_ne ((hmem a).1 ha).1, remaining_set_ne ((hmem b).1 hb).1]

theorem StoreOk.schedule (h : StoreOk store) {timer : ℕ} (t' : Timer) {list queue : List ℕ}
    (htimer : timer < store.nextTimer) (hactive : t'.active = true) (hlistOnce : list.Nodup)
    (hlist : ∀ x, x ∈ list ↔ x ≠ timer ∧ x ∈ store.timerList)
    (hordered : list.Pairwise fun a b =>
      (store.set timer (some t')).remaining a ≤ (store.set timer (some t')).remaining b)
    (hqueueOnce : queue.Nodup)
    (hqueue : ∀ x, x ∈ queue ↔ (x = timer ∧ t'.request ≠ .none) ∨
      (x ≠ timer ∧ x ∈ store.timerQueue)) :
    StoreOk (({ store with timerList := list, timerQueue := queue }.set timer
      (some t')).schedule timer) := by
  obtain ⟨base, hbase⟩ : ∃ base, base =
      { store with timerList := list, timerQueue := queue }.set timer (some t') := ⟨_, rfl⟩
  have hlistBase : base.timerList = list := by rw [hbase]; rfl
  have hremaining : ∀ x, base.remaining x = (store.set timer (some t')).remaining x := by
    intro x
    rw [hbase]
    rfl
  have hperm := schedule_perm base timer
  have hpushed := schedule_ordered base timer (by simpa only [hlistBase, hremaining] using hordered)
  simp only [hremaining] at hpushed
  rw [hlistBase] at hperm
  have hok := h.replace (some t') (base.schedule timer).timerList queue htimer le_rfl
    (by
      intro x
      rw [hperm.mem_iff, List.mem_cons, hlist]
      simp [hactive])
    (by
      intro x
      simp [hqueue])
    (by
      refine hperm.nodup_iff.2 (List.nodup_cons.2 ⟨?_, hlistOnce⟩)
      intro hmem
      exact ((hlist timer).1 hmem).1 rfl)
    hqueueOnce hpushed
  rw [← hbase]
  have hsame : base.schedule timer = { store.set timer (some t') with
      timerList := (base.schedule timer).timerList, timerQueue := queue,
      nextTimer := store.nextTimer } := by
    rw [hbase]
    rfl
  rw [hsame]
  exact hok

theorem processRequest_ok {timer : ℕ} {queue : List ℕ} (h : StoreOk store)
    (hqueue : store.timerQueue = timer :: queue) :
    Yields (fun s => StoreOk s ∧ s.timerQueue = queue ∧ s.clock = store.clock) (fun _ => False)
      ({ store with timerQueue := queue }.processRequest timer) := by
  have hin : timer ∈ store.timerQueue := by
    rw [hqueue]
    exact List.mem_cons_self ..
  obtain ⟨t, ht, hrequest⟩ := (h.queued timer).1 hin
  have hnodup := h.queuedOnce
  rw [hqueue, List.nodup_cons] at hnodup
  have hrest : ∀ x, x ∈ queue ↔ x ≠ timer ∧ x ∈ store.timerQueue := by
    intro x
    rw [hqueue, List.mem_cons]
    refine ⟨fun hx => ⟨?_, .inr hx⟩, fun hx => hx.2.resolve_left hx.1⟩
    rintro rfl
    exact hnodup.1 hx
  obtain ⟨list, hlist⟩ : ∃ list, list =
      (if t.active then store.timerList.erase timer else store.timerList) := ⟨_, rfl⟩
  obtain ⟨hlistOnce, hlistMem, hordered⟩ := h.unlink ht hlist
  have hstore : (if t.active then
      { { store with timerQueue := queue } with timerList := store.timerList.erase timer }
      else { store with timerQueue := queue }) =
      { store with timerList := list, timerQueue := queue } := by
    rw [hlist]
    split_ifs <;> rfl
  have hget : ({ store with timerQueue := queue } : TimerStore).get timer = t := get_of_some ht
  simp only [processRequest, hget, hstore]
  cases hr : t.request with
  | none => exact absurd hr hrequest
  | start =>
    refine ⟨h.schedule _ (h.lt_nextTimer ht) rfl hlistOnce hlistMem (hordered _) hnodup.2 ?_,
      rfl, rfl⟩
    intro x
    simp [hrest]
  | stop =>
    refine ⟨h.replace (some { t with active := false, request := .none }) list queue
      (h.lt_nextTimer ht) le_rfl ?_ ?_ hlistOnce hnodup.2 (hordered _), rfl, rfl⟩
    · intro x
      simp [hlistMem]
    · intro x
      simp [hrest]
  | free =>
    refine ⟨h.replace none list queue (h.lt_nextTimer ht) le_rfl ?_ ?_ hlistOnce hnodup.2
      (hordered _), rfl, rfl⟩
    · intro x
      simp [hlistMem]
    · intro x
      simp [hrest]

theorem processRequests_ok : ∀ (rounds : ℕ) {store : TimerStore}, StoreOk store →
    store.timerQueue.length = rounds →
    Yields (fun s => StoreOk s ∧ s.timerQueue = []) (fun _ => False)
      (processRequests rounds store)
  | 0, store, h, hrounds => ⟨h, List.eq_nil_of_length_eq_zero hrounds⟩
  | rounds + 1, store, h, hrounds => by
    cases hqueue : store.timerQueue with
    | nil =>
      rw [hqueue, List.length_nil] at hrounds
      omega
    | cons timer queue =>
      rw [hqueue, List.length_cons, Nat.add_right_cancel_iff] at hrounds
      simp only [processRequests, hqueue]
      refine (processRequest_ok h hqueue).bind ?_
      rintro s ⟨hs, hrest, -⟩
      exact processRequests_ok rounds hs (by rw [hrest, hrounds])

/-- The front of the list is not a periodic timer that has expired with an interval of zero. -/
def FrontOk (store : TimerStore) : Prop :=
  ∀ timer ∈ store.timerList.head?, (store.get timer).isExpired store.clock = true →
    (store.get timer).periodic = true → (store.get timer).interval ≠ 0

theorem StoreOk.behind_front (h : StoreOk store) {timer : ℕ} {list : List ℕ}
    (hlist : store.timerList = timer :: list) :
    list.Nodup ∧ (∀ x, x ∈ list ↔ x ≠ timer ∧ x ∈ store.timerList) ∧
      (∀ t', list.Pairwise fun a b =>
        (store.set timer t').remaining a ≤ (store.set timer t').remaining b) ∧
      ∃ t, store.timers timer = some t ∧ t.active = true := by
  obtain ⟨t, ht, hactive⟩ := (h.listed timer).1 (by rw [hlist]; exact List.mem_cons_self ..)
  obtain ⟨hnodup, hmem, hordered⟩ := h.unlink ht
    (show list = if t.active then store.timerList.erase timer else store.timerList by
      rw [if_pos hactive, hlist, List.erase_cons_head])
  exact ⟨hnodup, hmem, hordered, t, ht, hactive⟩

theorem processExpiredTimers_ok (h : StoreOk store) (hfront : FrontOk store) :
    Yields (fun r => StoreOk r.2) (fun _ => False) store.processExpiredTimers := by
  unfold processExpiredTimers
  cases hlist : store.timerList with
  | nil => exact h
  | cons timer list =>
    obtain ⟨hnodup, hmem, hordered, t, ht, hactive⟩ := h.behind_front hlist
    have hqueue : ∀ t' : Timer, t'.request = t.request → ∀ x, x ∈ store.timerQueue ↔
        (x = timer ∧ t'.request ≠ .none) ∨ (x ≠ timer ∧ x ∈ store.timerQueue) := by
      intro t' ht' x
      by_cases hx : x = timer
      · subst hx
        simp [h.queued, ht, ht']
      · simp [hx]
    have hget : store.get timer = t := get_of_some ht
    simp only [hget]
    by_cases hexpired : t.isExpired store.clock = true
    · rw [if_pos hexpired]
      by_cases hperiodic : t.periodic = true
      · have hinterval : t.interval ≠ 0 := by
          have := hfront timer (by simp [hlist])
          rw [hget] at this
          exact this hexpired hperiodic
        rw [if_pos hperiodic, if_neg hinterval]
        exact h.schedule _ (h.lt_nextTimer ht) hactive hnodup hmem (hordered _) h.queuedOnce
          (hqueue _ rfl)
      · rw [if_neg hperiodic]
        refine h.replace (some { t with active := false }) list store.timerQueue
          (h.lt_nextTimer ht) le_rfl ?_ ?_ hnodup h.queuedOnce (hordered _)
        · intro x
          simp [hmem]
        · intro x
          simpa using hqueue { t with active := false } rfl x
    · rw [if_neg hexpired]
      exact h

/-- The clock can go on for that long without the elapsed time of a listed timer wrapping. -/
def TicksOk (store : TimerStore) (ticks : ℕ) : Prop :=
  ∀ timer ∈ store.timerList,
    ((store.get timer).getElapsedTime store.clock).toNat + ticks < 2 ^ 32

theorem tick_ok (h : StoreOk store) {ticks : ℕ} (hticks : TicksOk store ticks) :
    StoreOk { store with clock := store.clock + UInt32.ofNat ticks } where
  listed := h.listed
  queued := h.queued
  listedOnce := h.listedOnce
  queuedOnce := h.queuedOnce
  fresh := h.fresh
  ordered := by
    refine h.ordered.imp_of_mem ?_
    intro a b ha hb hab
    have hremaining : ∀ x ∈ store.timerList,
        (TimerStore.remaining { store with clock := store.clock + UInt32.ofNat ticks } x).toNat =
          (store.remaining x).toNat - ticks := by
      intro x hx
      have helapsed := Timer.toNat_getElapsedTime_add (store.get x) store.clock (hticks x hx)
      rw [remaining, Timer.toNat_getRemainingTime, remaining, Timer.toNat_getRemainingTime]
      have hget : TimerStore.get { store with clock := store.clock + UInt32.ofNat ticks } x =
          store.get x := rfl
      rw [hget, helapsed]
      omega
    rw [UInt32.le_iff_toNat_le] at hab ⊢
    rw [hremaining a ha, hremaining b hb]
    omega

/-! ## Runs -/

/-- What keeps the loop from dividing by zero and the list from losing its order. -/
def StepOk (store : TimerStore) : TimerAction → Prop
  | .tick ticks => TicksOk store ticks
  | .processExpiredTimers => FrontOk store
  | _ => True

theorem step_ok (store : TimerStore) (action : TimerAction) (h : StoreOk store)
    (hok : StepOk store action) : Yields StoreOk Misuse (store.step action) := by
  have hfree : TimerRequest.free ≠ .none := by decide
  have hstop : TimerRequest.stop ≠ .none := by decide
  cases action with
  | alloc periodic => exact allocTimer_ok h periodic
  | start timer interval => exact enqueueRequest_start_ok h timer fun _ => interval
  | restart timer => exact enqueueRequest_start_ok h timer Timer.interval
  | stop timer => exact enqueueRequest_ok h timer hstop
  | free timer => exact enqueueRequest_ok h timer hfree
  | tick ticks => exact tick_ok h hok
  | processTimerQueue =>
    exact (processRequests_ok _ h rfl).mono (fun s hs => hs.1) (fun _ he => he.elim)
  | processExpiredTimers =>
    have hexpired := processExpiredTimers_ok h hok
    simp only [step]
    rcases hr : store.processExpiredTimers with fault | r
    · rw [hr] at hexpired
      exact hexpired.elim
    · rw [hr] at hexpired
      exact hexpired

theorem init_ok (clock : UInt32) : StoreOk (init clock) where
  listed timer := by simp [init]
  queued timer := by simp [init]
  listedOnce := List.nodup_nil
  queuedOnce := List.nodup_nil
  fresh _ _ := rfl
  ordered := List.Pairwise.nil

/-- Processing the front, if it is a periodic timer that has expired, moves its start on by whole
intervals to the last one that is not after now. -/
def NoDrift (store : TimerStore) : Prop :=
  ∀ timer t, store.timerList.head? = some timer → store.timers timer = some t →
    t.isExpired store.clock = true → t.periodic = true → t.interval ≠ 0 →
    ∃ store' t', store.processExpiredTimers = .ok (true, store') ∧
      store'.timers timer = some t' ∧ t'.interval = t.interval ∧
      (t'.getElapsedTime store.clock).toNat < t.interval.toNat ∧
      (t'.getElapsedTime store.clock).toNat ≡ (t.getElapsedTime store.clock).toNat
        [MOD t.interval.toNat]

theorem noDrift (store : TimerStore) : NoDrift store := by
  intro timer t hhead ht hexpired hperiodic hinterval
  obtain ⟨list, hlist⟩ : ∃ list, store.timerList = timer :: list := by
    cases hl : store.timerList with
    | nil => simp [hl] at hhead
    | cons a list => exact ⟨list, by rw [hl, List.head?_cons, Option.some.injEq] at hhead; rw [hhead]⟩
  obtain ⟨t', hmoved⟩ : ∃ t' : Timer, t' = { t with startTime := t.startTime +
    t.interval * (t.getElapsedTime store.clock / t.interval) } := ⟨_, rfl⟩
  obtain ⟨store', hstore'⟩ : ∃ store', store' =
    ({ store with timerList := list }.set timer (some t')).schedule timer := ⟨_, rfl⟩
  have hstep : store.processExpiredTimers = .ok (true, store') := by
    unfold processExpiredTimers
    simp only [hlist, get_of_some ht, hexpired, hperiodic, hinterval, if_true, if_false]
    rw [hstore', hmoved, hperiodic]
  have ht' : store'.timers timer = some t' := by
    rw [hstore']
    simp [schedule, set]
  have helapsed := Timer.toNat_getElapsedTime_periodic t store.clock
  rw [← hmoved] at helapsed
  have hpos : 0 < t.interval.toNat := by
    rcases Nat.eq_zero_or_pos t.interval.toNat with hzero | hpos
    · exact absurd (UInt32.toNat_inj.1 hzero) hinterval
    · exact hpos
  refine ⟨store', t', hstep, ht', by rw [hmoved], ?_, ?_⟩
  · rw [helapsed]
    exact Nat.mod_lt _ hpos
  · rw [helapsed]
    exact Nat.mod_modEq _ _

end TimerStore

end KiisuFirmware
