import KiisuFirmware.Proofs.EventLoop

/-!
# The lifetime of the event loop's items

Whatever refers to an item refers to one that is allocated and owned (`ItemsOk`), and the item
the loop's thread is at is allocated (`PhaseOk`). The one step that breaks this is the beginning
of the processing of an item that is subscribed to once: it is unsubscribed while it is not yet
the current item, so it is freed and then processed.
-/

namespace KiisuFirmware

namespace EventLoop

variable {loop loop' : EventLoop}

/-- The item in a link's place for a direction. -/
def linkItem (link : LoopLink) (event : UInt32) : Option ℕ :=
  if event = eventIn then link.itemIn else if event = eventOut then link.itemOut else none

theorem linkPlace_item {link : LoopLink} {event : UInt32} {old : Option ℕ}
    {put : Option ℕ → LoopLink} (h : linkPlace link event = some (old, put)) :
    old = linkItem link event ∧
      ∀ new e, linkItem (put new) e = if e = event then new else linkItem link e := by
  unfold linkPlace at h
  unfold linkItem
  split_ifs at h ⊢ with hin hout
  · simp only [Option.some.injEq, Prod.mk.injEq] at h
    obtain ⟨rfl, rfl⟩ := h
    refine ⟨rfl, fun new e => ?_⟩
    simp only [hin]
    split_ifs <;> rfl
  · simp only [Option.some.injEq, Prod.mk.injEq] at h
    obtain ⟨rfl, rfl⟩ := h
    refine ⟨rfl, fun new e => ?_⟩
    subst hout
    by_cases he : e = eventOut
    · rw [if_pos he, if_pos he, if_neg (he ▸ hin)]
    · simp only [if_neg he]

/-- The subscriptions, the places that refer to them, and the heap belong together. -/
structure ItemsOk (loop : EventLoop) : Prop where
  fresh : ∀ {item contents}, loop.items item = some contents → item < loop.nextItem
  tree : ∀ {object item}, loop.tree object = some item →
    ∃ contents, loop.items item = some contents ∧ contents.owned = true ∧ contents.object = object
  owned : ∀ {item contents}, loop.items item = some contents → contents.owned = true →
    loop.tree contents.object = some item
  link : ∀ {object event item}, linkItem (loop.links object) event = some item →
    loop.tree object = some item ∧ ∃ contents, loop.items item = some contents ∧
      contents.event &&& eventMask = event
  waiting : ∀ {item}, item ∈ loop.waitingList → ∃ object, loop.tree object = some item
  nodup : loop.waitingList.Nodup

/-- The item the loop's thread is at is allocated, and the current one while it is processed. -/
def PhaseOk (loop : EventLoop) : Prop :=
  match loop.phase with
  | .popped _ item => loop.currentItem = none ∧ ∃ object, loop.tree object = some item
  | .processing _ item =>
    loop.currentItem = none ∧ (∃ object, loop.tree object = some item) ∧
      ∀ contents, loop.items item = some contents → contents.isOnce = false
  | .callback (.item _ item level) =>
    loop.currentItem = some item ∧ ∃ contents, loop.items item = some contents ∧
      contents.isOnce = false ∧ (level = true → contents.isEdge = false)
  | .processed _ item status =>
    loop.currentItem = some item ∧ loop.items item ≠ none ∧ status ≠ .freeLater
  | _ => loop.currentItem = none

theorem ItemsOk.congr (h : ItemsOk loop) (hitems : loop'.items = loop.items)
    (hnext : loop'.nextItem = loop.nextItem) (htree : loop'.tree = loop.tree)
    (hlinks : loop'.links = loop.links)
    (hwaiting : ∃ before, loop.waitingList = before ++ loop'.waitingList) : ItemsOk loop' := by
  obtain ⟨before, hwaiting⟩ := hwaiting
  constructor
  · rw [hitems, hnext]
    exact h.fresh
  · rw [hitems, htree]
    exact h.tree
  · rw [hitems, htree]
    exact h.owned
  · rw [hitems, htree, hlinks]
    exact h.link
  · intro item hmem
    rw [htree]
    exact h.waiting (by rw [hwaiting]; exact List.mem_append_right before hmem)
  · have hnodup := h.nodup
    rw [hwaiting] at hnodup
    exact hnodup.of_append_right

/-! ## The operations on items -/

theorem ItemsOk.place (h : ItemsOk loop) {object item : ℕ}
    (hplace : (loop.links object).itemIn = some item ∨ (loop.links object).itemOut = some item) :
    loop.tree object = some item := by
  rcases hplace with hin | hout
  · exact (@ItemsOk.link _ h _ eventIn _ hin).1
  · exact (@ItemsOk.link _ h _ eventOut _ hout).1

theorem ItemsOk.ne_none (h : ItemsOk loop) {object item : ℕ} (htree : loop.tree object = some item) :
    loop.items item ≠ none := by
  obtain ⟨contents, hcontents, -⟩ := h.tree htree
  rw [hcontents]
  exact Option.some_ne_none contents

theorem ItemsOk.listed (h : ItemsOk loop) {item : ℕ} (hitem : ∃ object, loop.tree object = some item) :
    ItemsOk (loop.listed item) := by
  refine ⟨h.fresh, h.tree, h.owned, h.link, ?_, ?_⟩
  · intro other hmem
    by_cases hwaits : item ∈ loop.waitingList
    · simp only [EventLoop.listed, itemIsWaiting, hwaits, decide_true, if_true, notify] at hmem
      exact h.waiting hmem
    · simp only [EventLoop.listed, itemIsWaiting, hwaits, decide_false, Bool.false_eq_true,
        if_false, notify, List.mem_append, List.mem_singleton] at hmem
      rcases hmem with hmem | rfl
      · exact h.waiting hmem
      · exact hitem
  · by_cases hwaits : item ∈ loop.waitingList
    · simp only [EventLoop.listed, itemIsWaiting, hwaits, decide_true, if_true, notify]
      exact h.nodup
    · simp only [EventLoop.listed, itemIsWaiting, hwaits, decide_false, Bool.false_eq_true,
        if_false, notify]
      exact List.nodup_append.2 ⟨h.nodup, List.nodup_singleton item, by
        rintro a ha b hb rfl
        rw [List.mem_singleton] at hb
        exact hwaits (hb ▸ ha)⟩

theorem ItemsOk.subscribed (h : ItemsOk loop) {object : ℕ} {event : UInt32}
    {put : Option ℕ → LoopLink} (htree : loop.tree object = none)
    (hplace : linkPlace (loop.links object) (event &&& eventMask) = some (none, put)) :
    ItemsOk (loop.subscribed object event put) := by
  have hnew : loop.items loop.nextItem = none := by
    cases hitem : loop.items loop.nextItem with
    | none => rfl
    | some contents => exact absurd (h.fresh hitem) (Nat.lt_irrefl _)
  have hother : ∀ {o item}, loop.tree o = some item → o ≠ object ∧ item ≠ loop.nextItem := by
    intro o item ho
    refine ⟨?_, ?_⟩
    · rintro rfl
      rw [htree] at ho
      cases ho
    · rintro rfl
      exact h.ne_none ho hnew
  constructor
  · intro item contents hitem
    by_cases heq : item = loop.nextItem
    · subst heq
      exact Nat.lt_succ_self _
    · simp only [EventLoop.subscribed, Function.update_of_ne heq] at hitem
      exact (h.fresh hitem).trans (Nat.lt_succ_self _)
  · intro o item ho
    by_cases heq : o = object
    · subst heq
      simp only [EventLoop.subscribed, Function.update_self, Option.some.injEq] at ho
      subst ho
      exact ⟨⟨true, event, o⟩, by simp [EventLoop.subscribed], rfl, rfl⟩
    · simp only [EventLoop.subscribed, Function.update_of_ne heq] at ho ⊢
      rw [Function.update_of_ne (hother ho).2]
      exact h.tree ho
  · intro item contents hitem howned
    by_cases heq : item = loop.nextItem
    · subst heq
      simp only [EventLoop.subscribed, Function.update_self, Option.some.injEq] at hitem
      subst hitem
      simp [EventLoop.subscribed]
    · simp only [EventLoop.subscribed, Function.update_of_ne heq] at hitem ⊢
      have ho := h.owned hitem howned
      rw [Function.update_of_ne (hother ho).1]
      exact ho
  · intro o e item ho
    by_cases heq : o = object
    · subst heq
      simp only [EventLoop.subscribed, Function.update_self] at ho ⊢
      rw [(linkPlace_item hplace).2] at ho
      split_ifs at ho with he
      · simp only [Option.some.injEq] at ho
        subst ho he
        exact ⟨rfl, ⟨true, event, o⟩, Function.update_self .., rfl⟩
      · have htaken := (h.link ho).1
        rw [htree] at htaken
        cases htaken
    · simp only [EventLoop.subscribed, Function.update_of_ne heq] at ho ⊢
      have htaken := h.link ho
      rw [Function.update_of_ne (hother htaken.1).2]
      exact htaken
  · intro item hmem
    obtain ⟨o, ho⟩ := h.waiting hmem
    refine ⟨o, ?_⟩
    simp only [EventLoop.subscribed]
    rw [Function.update_of_ne (hother ho).1]
    exact ho
  · exact h.nodup

theorem ItemsOk.unsubscribed (h : ItemsOk loop) {object item : ℕ} {contents : LoopItem}
    {put : Option ℕ → LoopLink} (htree : loop.tree object = some item)
    (hitem : loop.items item = some contents)
    (hplace : linkPlace (loop.links object) (contents.event &&& eventMask) =
      some (some item, put)) :
    ItemsOk (loop.unsubscribed object item contents put) := by
  have hobject : contents.object = object := by
    obtain ⟨contents', hcontents, -, hobject⟩ := h.tree htree
    rw [hitem, Option.some.injEq] at hcontents
    rw [hcontents]
    exact hobject
  have hother : ∀ {o i}, loop.tree o = some i → o ≠ object → i ≠ item := by
    rintro o i ho hne rfl
    obtain ⟨contents', hcontents, -, ho'⟩ := h.tree ho
    rw [hitem, Option.some.injEq] at hcontents
    subst hcontents
    exact hne (ho'.symm.trans hobject)
  have hkept : ∀ {i c}, (loop.unsubscribed object item contents put).items i = some c →
      c.owned = true → i ≠ item ∧ loop.items i = some c := by
    intro i c hi howned
    by_cases heq : i = item
    · subst heq
      simp only [EventLoop.unsubscribed, Function.update_self] at hi
      split_ifs at hi
      simp only [Option.some.injEq] at hi
      subst hi
      cases howned
    · simp only [EventLoop.unsubscribed, Function.update_of_ne heq] at hi
      exact ⟨heq, hi⟩
  constructor
  · intro i c hi
    by_cases heq : i = item
    · subst heq
      exact h.fresh hitem
    · simp only [EventLoop.unsubscribed, Function.update_of_ne heq] at hi
      exact h.fresh hi
  · intro o i ho
    by_cases heq : o = object
    · subst heq
      simp [EventLoop.unsubscribed] at ho
    · simp only [EventLoop.unsubscribed, Function.update_of_ne heq] at ho ⊢
      rw [Function.update_of_ne (hother ho heq)]
      exact h.tree ho
  · intro i c hi howned
    obtain ⟨hne, hi⟩ := hkept hi howned
    have ho := h.owned hi howned
    have hobj : c.object ≠ object := by
      intro heq
      rw [heq, htree, Option.some.injEq] at ho
      exact hne ho.symm
    simp only [EventLoop.unsubscribed, Function.update_of_ne hobj]
    exact ho
  · intro o e i ho
    by_cases heq : o = object
    · subst heq
      simp only [EventLoop.unsubscribed, Function.update_self] at ho
      rw [(linkPlace_item hplace).2] at ho
      split_ifs at ho with he
      obtain ⟨htaken, contents', hcontents, hevent⟩ := h.link ho
      rw [htree, Option.some.injEq] at htaken
      subst htaken
      rw [hitem, Option.some.injEq] at hcontents
      subst hcontents
      exact absurd hevent.symm he
    · simp only [EventLoop.unsubscribed, Function.update_of_ne heq] at ho ⊢
      have htaken := h.link ho
      rw [Function.update_of_ne (hother htaken.1 heq)]
      exact htaken
  · intro i hmem
    simp only [EventLoop.unsubscribed] at hmem
    obtain ⟨o, ho⟩ := h.waiting (List.mem_of_mem_erase hmem)
    have hne : i ≠ item := fun heq => h.nodup.not_mem_erase (heq ▸ hmem)
    have heq : o ≠ object := by
      rintro rfl
      rw [htree, Option.some.injEq] at ho
      exact hne ho.symm
    exact ⟨o, by simpa only [EventLoop.unsubscribed, Function.update_of_ne heq] using ho⟩
  · exact h.nodup.erase item

theorem ItemsOk.itemFree (h : ItemsOk loop) {item : ℕ} {contents : LoopItem}
    (hitem : loop.items item = some contents) (howned : contents.owned = false) :
    ItemsOk (loop.itemFree item) := by
  have hother : ∀ {o i}, loop.tree o = some i → i ≠ item := by
    rintro o i ho rfl
    obtain ⟨contents', hcontents, howned', -⟩ := h.tree ho
    rw [hitem, Option.some.injEq] at hcontents
    rw [← hcontents, howned] at howned'
    cases howned'
  have hkept : ∀ {i c}, (loop.itemFree item).items i = some c → loop.items i = some c := by
    intro i c hi
    by_cases heq : i = item
    · subst heq
      simp [EventLoop.itemFree] at hi
    · simpa only [EventLoop.itemFree, Function.update_of_ne heq] using hi
  constructor
  · exact fun hi => h.fresh (hkept hi)
  · intro o i ho
    simp only [EventLoop.itemFree, Function.update_of_ne (hother ho)]
    exact h.tree ho
  · exact fun hi => h.owned (hkept hi)
  · intro o e i ho
    have htaken := h.link ho
    simp only [EventLoop.itemFree, Function.update_of_ne (hother htaken.1)]
    exact htaken
  · exact h.waiting
  · exact h.nodup

/-! ## The steps -/

/-- A direction and flags, without any other bit. -/
def Accepted (event : UInt32) : Prop :=
  event &&& (eventMask ||| eventFlagEdge ||| eventFlagOnce) = event ∧
    (event &&& eventMask = eventIn ∨ event &&& eventMask = eventOut)

theorem Accepted.noFlags {event : UInt32} (h : Accepted event) (hedge : event &&& eventFlagEdge = 0)
    (honce : event &&& eventFlagOnce = 0) : event = eventIn ∨ event = eventOut := by
  obtain ⟨hbits, hdirection⟩ := h
  have hdistrib : ∀ a b : UInt32, event &&& (a ||| b) = event &&& a ||| event &&& b := fun a b =>
    UInt32.toBitVec_inj.1 BitVec.and_or_distrib_left
  rw [hdistrib, hdistrib, hedge, honce, UInt32.or_zero, UInt32.or_zero] at hbits
  rw [← hbits]
  exact hdirection

/-- The faults that may come of it: no item is used after it was freed, and `get_level` crashes
for an event with other bits only. -/
def Sound (loop : EventLoop) (fault : LoopFault) : Prop :=
  fault ≠ .useAfterFree ∧ (fault = .levelCrash →
    ∃ item contents, loop.items item = some contents ∧ ¬Accepted contents.event)

/-- What the references and the loop's thread need of the items. -/
structure Alive (loop : EventLoop) : Prop where
  items : ItemsOk loop
  phase : PhaseOk loop

theorem PhaseOk.congr (h : PhaseOk loop) (hphase : loop'.phase = loop.phase)
    (hcurrent : loop'.currentItem = loop.currentItem) (hitems : loop'.items = loop.items)
    (htree : loop'.tree = loop.tree) : PhaseOk loop' := by
  unfold PhaseOk at h ⊢
  rw [hphase, hcurrent, hitems, htree]
  exact h

theorem linkNotify_alive (h : Alive loop) (object : ℕ) (event : UInt32) :
    Yields Alive (Sound loop) (loop.linkNotify object event) := by
  refine (linkNotify_yields loop object event).mono ?_ ?_
  · rintro loop' (rfl | ⟨item, hplace, rfl⟩)
    · exact h
    · exact ⟨h.items.listed ⟨object, h.items.place hplace⟩, h.phase.congr rfl rfl rfl rfl⟩
  · rintro fault ⟨hcrash, hfault⟩
    refine ⟨fun hfree => ?_, fun h => absurd h hcrash⟩
    obtain ⟨item, hplace, hnone⟩ := hfault hfree
    exact h.items.ne_none (h.items.place hplace) hnone

theorem PhaseOk.userCode (h : PhaseOk loop) (huser : loop.inUserCode = true)
    (hphase : loop'.phase = loop.phase) (hcurrent : loop'.currentItem = loop.currentItem)
    (hitems : ∀ item contents, loop.currentItem = some item → loop.items item = some contents →
      ∃ contents', loop'.items item = some contents' ∧ contents'.event = contents.event) :
    PhaseOk loop' := by
  unfold PhaseOk at h ⊢
  unfold inUserCode at huser
  rw [hphase, hcurrent]
  cases hcode : loop.phase with
  | callback callback =>
    rw [hcode] at h
    cases callback with
    | item flags item level =>
      obtain ⟨hitem, contents, hcontents, hflags⟩ := h
      obtain ⟨contents', hcontents', hevent⟩ := hitems item contents hitem hcontents
      refine ⟨hitem, contents', hcontents', ?_⟩
      simp only [LoopItem.isOnce, LoopItem.isEdge] at hflags ⊢
      rw [hevent]
      exact hflags
    | pending => exact h
    | threadFlags => exact h
    | time => exact h
  | outside =>
    rw [hcode] at h
    exact h
  | _ =>
    rw [hcode] at huser
    cases huser

theorem subscribe_alive (h : Alive loop) (huser : loop.inUserCode = true) (object : ℕ)
    (event : UInt32) :
    Yields Alive (Sound loop) (loop.subscribe object event) := by
  refine (subscribe_yields loop object event).mono ?_ (fun _ h => ⟨h.2, fun he => absurd he h.1⟩)
  rintro loop' ⟨htree, put, hplace, hloop'⟩
  have hitems : ItemsOk (loop.subscribed object event put) := h.items.subscribed htree hplace
  have hkept : ∀ item contents, loop.currentItem = some item → loop.items item = some contents →
      ∃ contents', (loop.subscribed object event put).items item = some contents' ∧
        contents'.event = contents.event := by
    intro item contents _ hitem
    refine ⟨contents, ?_, rfl⟩
    simp only [subscribed, Function.update_of_ne (h.items.fresh hitem).ne]
    exact hitem
  rcases hloop' with rfl | rfl
  · exact ⟨hitems, h.phase.userCode huser rfl rfl hkept⟩
  · refine ⟨hitems.listed ⟨object, ?_⟩, h.phase.userCode huser rfl rfl hkept⟩
    exact Function.update_self ..

theorem unsubscribe_alive (h : Alive loop) (huser : loop.inUserCode = true) (object : ℕ) :
    Yields Alive (Sound loop) (loop.unsubscribe object) := by
  refine (unsubscribe_yields loop object).mono ?_ ?_
  · rintro loop' ⟨item, contents, put, htree, hitem, -, hplace, rfl⟩
    refine ⟨h.items.unsubscribed htree hitem hplace, h.phase.userCode huser rfl rfl ?_⟩
    intro current contents' hcurrent hcontents'
    by_cases heq : current = item
    · subst heq
      rw [hitem, Option.some.injEq] at hcontents'
      subst hcontents'
      exact ⟨{ contents with owned := false }, by simp [unsubscribed, hcurrent], rfl⟩
    · refine ⟨contents', ?_, rfl⟩
      simp only [unsubscribed, Function.update_of_ne heq]
      exact hcontents'
  · rintro fault ⟨hcrash, hfault⟩
    refine ⟨fun hfree => ?_, fun h => absurd h hcrash⟩
    obtain ⟨item, htree, hnone⟩ := hfault hfree
    exact h.items.ne_none htree hnone

/-- An item that is not taken out of everything as its processing begins. -/
def OnceUnprocessed (loop : EventLoop) : LoopAction → Prop
  | .advance => ∀ flags item contents, loop.phase = .popped flags item →
    loop.items item = some contents → contents.isOnce = false
  | _ => True

variable {flags : LoopFlags} {item : ℕ}

theorem dispatch_alive (h : ItemsOk loop) (hcurrent : loop.currentItem = none) :
    Yields Alive (Sound loop) (loop.dispatch flags) := by
  unfold dispatch
  split_ifs
  · exact ⟨h.congr rfl rfl rfl rfl ⟨[], rfl⟩, hcurrent⟩
  · cases hwaiting : loop.waitingList with
    | nil => exact ⟨h.congr rfl rfl rfl rfl ⟨[], rfl⟩, hcurrent⟩
    | cons item waitingList =>
      exact ⟨h.congr rfl rfl rfl rfl ⟨[item], hwaiting⟩, hcurrent,
        h.waiting (by rw [hwaiting]; exact List.mem_cons_self)⟩
  · cases loop.timers.processTimerQueue with
    | error fault => exact ⟨nofun, nofun⟩
    | ok timers => exact ⟨h.congr rfl rfl rfl rfl ⟨[], rfl⟩, hcurrent⟩
  · exact ⟨h.congr rfl rfl rfl rfl ⟨[], rfl⟩, hcurrent⟩
  · exact ⟨h.congr rfl rfl rfl rfl ⟨[], rfl⟩, hcurrent⟩
  · exact ⟨h.congr rfl rfl rfl rfl ⟨[], rfl⟩, hcurrent⟩
  · exact ⟨nofun, nofun⟩

theorem processOnce_alive (h : ItemsOk loop) (hcurrent : loop.currentItem = none)
    (htree : ∃ object, loop.tree object = some item)
    (honce : ∀ contents, loop.items item = some contents → contents.isOnce = false) :
    Yields Alive (Sound loop) (loop.processOnce flags item) := by
  obtain ⟨object, htree⟩ := htree
  obtain ⟨contents, hitem, -⟩ := h.tree htree
  unfold processOnce
  simp only [deref, hitem, Except.bind, honce contents hitem, Bool.false_eq_true, if_false]
  exact ⟨h.congr rfl rfl rfl rfl ⟨[], rfl⟩, hcurrent, ⟨object, htree⟩, honce⟩

theorem itemGetLevel_sound {contents : LoopItem} (hitem : loop.items item = some contents)
    (honce : contents.isOnce = false) (hedge : contents.isEdge = false) :
    Yields (fun _ => True) (Sound loop) (loop.itemGetLevel item) := by
  unfold itemGetLevel
  simp only [deref, hitem, Except.bind]
  refine (getLevel_yields (loop.objects contents.object) contents.event).mono
    (fun _ _ => trivial) ?_
  rintro fault ⟨rfl, hin, hout⟩
  refine ⟨nofun, fun _ => ⟨item, contents, hitem, fun haccepted => ?_⟩⟩
  simp only [LoopItem.isOnce, LoopItem.isEdge, bne_eq_false_iff_eq] at honce hedge
  exact (haccepted.noFlags hedge honce).elim hin hout

theorem processEvent_alive {contents : LoopItem} (h : ItemsOk loop)
    (hitem : loop.items item = some contents) (honce : contents.isOnce = false) :
    Yields Alive (Sound loop) (loop.processEvent flags item) := by
  unfold processEvent
  simp only [deref, hitem, Except.bind]
  by_cases hedge : contents.isEdge = true
  · rw [if_pos hedge]
    exact ⟨h.congr rfl rfl rfl rfl ⟨[], rfl⟩, rfl, contents, hitem, honce, nofun⟩
  · rw [if_neg hedge]
    rw [Bool.not_eq_true] at hedge
    have hcurrent : { loop with currentItem := some item }.items item = some contents := hitem
    have hlevel := itemGetLevel_sound hcurrent honce hedge
    have hne : loop.items item ≠ none := by
      rw [hitem]
      exact Option.some_ne_none contents
    cases hget : itemGetLevel { loop with currentItem := some item } item with
    | error fault =>
      rw [hget] at hlevel
      exact hlevel
    | ok level =>
      cases level with
      | false => exact ⟨h.congr rfl rfl rfl rfl ⟨[], rfl⟩, rfl, hne, nofun⟩
      | true =>
        exact ⟨h.congr rfl rfl rfl rfl ⟨[], rfl⟩, rfl, contents, hitem, honce, fun _ => hedge⟩

theorem returnFrom_alive : ∀ {callback : LoopCallback}, Alive loop →
    loop.phase = .callback callback →
    Yields Alive (Sound loop) (loop.returnFrom callback)
  | .item flags item false, ⟨hitems, hphase⟩, hcode => by
    rw [PhaseOk, hcode] at hphase
    obtain ⟨hcurrent, contents, hitem, -⟩ := hphase
    refine ⟨hitems.congr rfl rfl rfl rfl ⟨[], rfl⟩, hcurrent, ?_, by simp⟩
    exact fun hnone => Option.some_ne_none contents (hitem.symm.trans hnone)
  | .item flags item true, ⟨hitems, hphase⟩, hcode => by
    rw [PhaseOk, hcode] at hphase
    obtain ⟨hcurrent, contents, hitem, honce, hedge⟩ := hphase
    have hlevel := itemGetLevel_sound hitem honce (hedge rfl)
    simp only [returnFrom]
    cases hget : loop.itemGetLevel item with
    | error fault =>
      rw [hget] at hlevel
      exact hlevel
    | ok level =>
      refine ⟨hitems.congr rfl rfl rfl rfl ⟨[], rfl⟩, hcurrent, ?_, ?_⟩
      · exact fun hnone => Option.some_ne_none contents (hitem.symm.trans hnone)
      · cases level <;> simp
  | .pending, ⟨hitems, hphase⟩, hcode => by
    rw [PhaseOk, hcode] at hphase
    exact ⟨hitems.congr rfl rfl rfl rfl ⟨[], rfl⟩, hphase⟩
  | .threadFlags, ⟨hitems, hphase⟩, hcode => by
    rw [PhaseOk, hcode] at hphase
    exact ⟨hitems.congr rfl rfl rfl rfl ⟨[], rfl⟩, hphase⟩
  | .time, ⟨hitems, hphase⟩, hcode => by
    rw [PhaseOk, hcode] at hphase
    exact ⟨hitems.congr rfl rfl rfl rfl ⟨[], rfl⟩, hphase⟩

theorem finishEvent_alive {status : ProcessStatus} (h : ItemsOk loop)
    (hitem : loop.items item ≠ none) (hstatus : status ≠ .freeLater) :
    Yields Alive (Sound loop) (loop.finishEvent flags item status) := by
  obtain ⟨contents, hcontents⟩ := Option.ne_none_iff_exists'.1 hitem
  have hidle : ItemsOk { loop with currentItem := none } := h.congr rfl rfl rfl rfl ⟨[], rfl⟩
  unfold finishEvent
  simp only [deref, hcontents, Except.bind]
  cases howned : contents.owned with
  | false =>
    simp only [Bool.not_false, if_true]
    exact ⟨(hidle.itemFree hcontents howned).congr rfl rfl rfl rfl ⟨[], rfl⟩, rfl⟩
  | true =>
    simp only [Bool.not_true, Bool.false_eq_true, if_false]
    cases status with
    | freeLater => exact absurd rfl hstatus
    | complete => exact ⟨hidle.congr rfl rfl rfl rfl ⟨[], rfl⟩, rfl⟩
    | incomplete =>
      have hnotify := itemNotify_yields { loop with currentItem := none } item
      cases hlisted : itemNotify { loop with currentItem := none } item with
      | error fault =>
        rw [hlisted] at hnotify
        exact ⟨fun hfault => hitem (hnotify.2 hfault), fun hfault => absurd hfault hnotify.1⟩
      | ok loop' =>
        rw [hlisted] at hnotify
        obtain ⟨-, rfl⟩ := hnotify
        have hlist := hidle.listed ⟨contents.object, h.owned hcontents howned⟩
        exact ⟨hlist.congr rfl rfl rfl rfl ⟨[], rfl⟩, rfl⟩

theorem advance_alive (h : Alive loop) (hok : OnceUnprocessed loop .advance) :
    Yields Alive (Sound loop) loop.advance := by
  obtain ⟨hitems, hphase⟩ := h
  unfold advance
  unfold PhaseOk at hphase
  cases hcode : loop.phase with
  | wait =>
    simp only
    rw [hcode] at hphase
    split_ifs
    · exact ⟨hitems.congr rfl rfl rfl rfl ⟨[], rfl⟩, hphase⟩
    · exact ⟨nofun, nofun⟩
  | fetched flags =>
    rw [hcode] at hphase
    exact dispatch_alive hitems hphase
  | popped flags item =>
    rw [hcode] at hphase
    exact processOnce_alive hitems hphase.1 hphase.2 fun contents => hok flags item contents hcode
  | processing flags item =>
    rw [hcode] at hphase
    obtain ⟨-, ⟨object, htree⟩, honce⟩ := hphase
    obtain ⟨contents, hitem, -⟩ := hitems.tree htree
    exact processEvent_alive hitems hitem (honce contents hitem)
  | processed flags item status =>
    rw [hcode] at hphase
    exact finishEvent_alive hitems hphase.2.1 hphase.2.2
  | syncFlags flags =>
    simp only
    rw [hcode] at hphase
    split_ifs
    · exact ⟨hitems.congr rfl rfl rfl rfl ⟨[], rfl⟩, hphase⟩
    · exact ⟨hitems.congr rfl rfl rfl rfl ⟨[], rfl⟩, hphase⟩
  | restoreFlags flags =>
    rw [hcode] at hphase
    exact ⟨hitems.congr rfl rfl rfl rfl ⟨[], rfl⟩, hphase⟩
  | pendingCallbacks =>
    simp only
    rw [hcode] at hphase
    split_ifs
    · exact ⟨hitems.congr rfl rfl rfl rfl ⟨[], rfl⟩, hphase⟩
    · exact ⟨hitems.congr rfl rfl rfl rfl ⟨[], rfl⟩, hphase⟩
  | outside => exact ⟨nofun, nofun⟩
  | callback callback => exact ⟨nofun, nofun⟩

theorem timeout_alive (h : Alive loop) (tick : Bool) :
    Yields Alive (Sound loop) (loop.timeout tick) := by
  obtain ⟨hitems, hphase⟩ := h
  unfold timeout
  unfold PhaseOk at hphase
  cases hcode : loop.phase with
  | wait =>
    simp only
    rw [hcode] at hphase
    by_cases hany : loop.notified.any = true
    · rw [if_pos hany]
      exact ⟨nofun, nofun⟩
    · rw [if_neg hany]
      cases loop.timers.processExpiredTimers with
      | error fault => exact ⟨nofun, nofun⟩
      | ok r =>
        obtain ⟨expired, timers⟩ := r
        cases expired with
        | true => exact ⟨hitems.congr rfl rfl rfl rfl ⟨[], rfl⟩, hphase⟩
        | false =>
          cases tick with
          | true => exact ⟨hitems.congr rfl rfl rfl rfl ⟨[], rfl⟩, hphase⟩
          | false => exact ⟨hitems.congr rfl rfl rfl rfl ⟨[], rfl⟩, hphase⟩
  | _ => exact ⟨nofun, nofun⟩

theorem timerCall_alive (h : Alive loop) (call : TimerAction) :
    Yields Alive (Sound loop) (loop.timerCall call) := by
  have hcall : ∀ timers notified, Alive { loop with timers, notified } := fun timers notified =>
    ⟨h.items.congr rfl rfl rfl rfl ⟨[], rfl⟩, h.phase.congr rfl rfl rfl rfl⟩
  unfold timerCall
  cases loop.timers.step call with
  | error fault => exact ⟨nofun, nofun⟩
  | ok timers =>
    cases call with
    | tick ticks => exact ⟨nofun, nofun⟩
    | processTimerQueue => exact ⟨nofun, nofun⟩
    | processExpiredTimers => exact ⟨nofun, nofun⟩
    | _ => exact hcall _ _

theorem api_alive {result : Except LoopFault EventLoop}
    (h : loop.inUserCode = true → Yields Alive (Sound loop) result) :
    Yields Alive (Sound loop) (loop.api result) := by
  unfold api
  split_ifs with huser
  · exact h huser
  · exact ⟨nofun, nofun⟩

theorem step_alive (loop : EventLoop) (action : LoopAction) (h : Alive loop)
    (hok : OnceUnprocessed loop action) :
    Yields Alive (Sound loop) (loop.step action) := by
  have hsame : ∀ {loop'}, loop'.items = loop.items → loop'.nextItem = loop.nextItem →
      loop'.tree = loop.tree → loop'.links = loop.links → loop'.waitingList = loop.waitingList →
      loop'.phase = loop.phase → loop'.currentItem = loop.currentItem → Alive loop' :=
    fun hitems hnext htree hlinks hwaiting hphase hcurrent =>
      ⟨h.items.congr hitems hnext htree hlinks ⟨[], hwaiting.symm⟩,
        h.phase.congr hphase hcurrent hitems htree⟩
  cases action with
  | change object contents => exact hsame rfl rfl rfl rfl rfl rfl rfl
  | linkNotify object event => exact linkNotify_alive h object event
  | raiseThreadFlag => exact hsame rfl rfl rfl rfl rfl rfl rfl
  | stop => exact hsame rfl rfl rfl rfl rfl rfl rfl
  | tick ticks => exact hsame rfl rfl rfl rfl rfl rfl rfl
  | subscribe object event => exact api_alive fun huser => subscribe_alive h huser object event
  | unsubscribe object => exact api_alive fun huser => unsubscribe_alive h huser object
  | subscribeThreadFlags =>
    refine api_alive fun _ => ?_
    unfold subscribeThreadFlags
    split_ifs
    · exact ⟨by simp, by simp⟩
    · exact hsame rfl rfl rfl rfl rfl rfl rfl
  | unsubscribeThreadFlags =>
    refine api_alive fun _ => ?_
    unfold unsubscribeThreadFlags
    split_ifs
    · exact hsame rfl rfl rfl rfl rfl rfl rfl
    · exact ⟨by simp, by simp⟩
  | pendCallback callback => exact api_alive fun _ => hsame rfl rfl rfl rfl rfl rfl rfl
  | timerCall call => exact api_alive fun _ => timerCall_alive h call
  | run =>
    simp only [step]
    obtain ⟨hitems, hphase⟩ := h
    unfold PhaseOk at hphase
    cases hcode : loop.phase with
    | outside =>
      rw [hcode] at hphase
      exact ⟨hitems.congr rfl rfl rfl rfl ⟨[], rfl⟩, hphase⟩
    | _ => exact ⟨by simp, by simp⟩
  | callbackReturns =>
    simp only [step]
    cases hcode : loop.phase with
    | callback callback => exact returnFrom_alive h hcode
    | _ => exact ⟨by simp, by simp⟩
  | advance => exact advance_alive h hok
  | timeout tick => exact timeout_alive h tick

theorem init_alive (objects : ℕ → LoopObject) (clock : UInt32) : Alive (init objects clock) := by
  refine ⟨⟨?_, ?_, ?_, ?_, ?_, List.nodup_nil⟩, rfl⟩
  · rintro item contents ⟨⟩
  · rintro object item ⟨⟩
  · rintro item contents ⟨⟩
  · intro object event item hlink
    unfold linkItem at hlink
    split_ifs at hlink <;> cases hlink
  · rintro item ⟨⟩

/-- Whatever refers to an item refers to one that is allocated and belongs to the loop. -/
structure ReferencesOwned (loop : EventLoop) : Prop where
  waiting : ∀ item ∈ loop.waitingList,
    ∃ contents, loop.items item = some contents ∧ contents.owned = true
  link : ∀ object item, (loop.links object).itemIn = some item ∨
    (loop.links object).itemOut = some item →
    ∃ contents, loop.items item = some contents ∧ contents.owned = true
  tree : ∀ object item, loop.tree object = some item →
    ∃ contents, loop.items item = some contents ∧ contents.owned = true

theorem ItemsOk.referencesOwned (h : ItemsOk loop) : ReferencesOwned loop := by
  have htree : ∀ object item, loop.tree object = some item →
      ∃ contents, loop.items item = some contents ∧ contents.owned = true := by
    intro object item hitem
    obtain ⟨contents, hcontents, howned, -⟩ := h.tree hitem
    exact ⟨contents, hcontents, howned⟩
  refine ⟨?_, ?_, htree⟩
  · intro item hmem
    obtain ⟨object, hitem⟩ := h.waiting hmem
    exact htree object item hitem
  · exact fun object item hplace => htree object item (h.place hplace)

theorem items_stay_allocated (objects : ℕ → LoopObject) (clock : UInt32)
    (actions : List LoopAction)
    (hok : ExecAlong OnceUnprocessed EventLoop.step (init objects clock) actions) :
    Yields ReferencesOwned (fun fault => fault ≠ .useAfterFree)
      (exec EventLoop.step (init objects clock) actions) :=
  (exec_inv (fun loop action h hok => (step_alive loop action h hok).mono (fun _ h => h)
    (fun _ h => h.1)) actions (init_alive objects clock) hok).mono
    (fun _ h => h.items.referencesOwned) (fun _ h => h)

/-- An item is unsubscribed from inside its own callback. -/
theorem items_stay_allocated_callback :
    Yields ReferencesOwned (fun fault => fault ≠ .useAfterFree)
      (exec EventLoop.step (init (fun _ => .semaphore 1 0) 0) [.subscribe 0 eventIn, .run,
        .advance, .advance, .advance, .advance, .unsubscribe 0, .callbackReturns]) := by
  refine items_stay_allocated _ _ _ ?_
  refine ⟨trivial, ?_⟩
  rintro _ ⟨⟩
  refine ⟨trivial, ?_⟩
  rintro _ ⟨⟩
  refine ⟨by rintro _ _ _ ⟨⟩, ?_⟩
  rintro _ ⟨⟩
  refine ⟨by rintro _ _ _ ⟨⟩, ?_⟩
  rintro _ ⟨⟩
  refine ⟨by rintro _ _ _ ⟨⟩ ⟨⟩; rfl, ?_⟩
  rintro _ ⟨⟩
  exact ⟨by rintro _ _ _ ⟨⟩, fun _ _ => ⟨trivial, fun _ _ => ⟨trivial, fun _ _ => trivial⟩⟩⟩

/-- An item subscribed to once is read after it was freed. -/
theorem once_item_freed :
    exec EventLoop.step (init (fun _ => .semaphore 1 0) 0) [.subscribe 0 (eventIn ||| eventFlagOnce),
      .run, .advance, .advance, .advance, .advance] = .error .useAfterFree := rfl

end EventLoop

end KiisuFirmware
