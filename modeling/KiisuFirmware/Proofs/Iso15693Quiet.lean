import KiisuFirmware.Proofs.Iso15693

/-!
# Whom an emulated ISO15693-3 card answers

A request that is addressed is for the card with its UID, one with the select flag for a selected
card, and a card that has been told to stay quiet answers only what is addressed to it. The law
(`AddressingLaw`) holds of every request but of those on which the test of a quiet card decides,
which is the wrong way round, and of those that find an answer that still waits for its end of
frame.
-/

namespace KiisuFirmware

namespace Iso15693Listener

theorem address_eq (listener : Iso15693Listener) (rx : List UInt8) :
    ∃ selected addressed, (listener.address rx).2 =
      { listener with selected := selected, addressed := addressed } := by
  rcases rx with _ | ⟨flags, _ | ⟨command, data⟩⟩
  · exact ⟨_, _, rfl⟩
  · exact ⟨_, _, rfl⟩
  · obtain ⟨selected, addressed, hmode⟩ : ∃ selected addressed, (listener.setMode flags).2 =
        { listener with selected := selected, addressed := addressed } := by
      unfold setMode
      dsimp only
      split_ifs <;> exact ⟨_, _, rfl⟩
    refine ⟨selected, addressed, ?_⟩
    rw [← hmode]
    unfold address
    dsimp only
    split_ifs <;> rfl

theorem eq_of_sendFrame {listener after : Iso15693Listener} {reply : Iso15693Listener.Reply}
    (h : listener.sendFrame = .ok (reply, after)) :
    reply = .sent (listener.txBuffer ++ iso13239Crc listener.txBuffer) ∧
      after = { listener with txBuffer := listener.txBuffer ++ iso13239Crc listener.txBuffer } := by
  unfold sendFrame at h
  obtain ⟨tx, htx, h⟩ := bind_eq_ok h
  unfold appendTx at htx
  split_ifs at htx
  cases htx
  cases h
  exact ⟨rfl, rfl⟩

/-! ## Requests -/

/-- A request as it is received, without its checksum. -/
structure Request where
  flags : UInt8
  command : UInt8
  data : List UInt8
  deriving DecidableEq

namespace Request

/-- The request in a frame, if the frame is a whole one. -/
def parse (rx : List UInt8) : Option Request :=
  if iso13239CrcCheck rx then
    match rx.take (rx.length - ISO13239_CRC_SIZE) with
    | flags :: command :: data => some ⟨flags, command, data⟩
    | _ => none
  else none

variable (request : Request)

def isInventory : Bool := hasFlag request.flags ISO15693_3_REQ_FLAG_INVENTORY_T5

/-- The flags for the mode mean something else in an inventory. -/
def isSelected : Bool :=
  !request.isInventory && hasFlag request.flags ISO15693_3_REQ_FLAG_T4_SELECTED

def isAddressed : Bool :=
  !request.isInventory && hasFlag request.flags ISO15693_3_REQ_FLAG_T4_ADDRESSED

def hasOption : Bool := hasFlag request.flags ISO15693_3_REQ_FLAG_T4_OPTION

/-- The UID of the card stands in the request, behind a byte if its manufacturer has defined the
command. -/
def isFor (data : Iso15693Data) : Bool :=
  data.isEqualUid (((if 0xA0 ≤ request.command then request.data.drop 1 else request.data)).take
    ISO15693_3_UID_SIZE)

end Request

/-- The commands that write or lock something, which set anew whether their answer waits. -/
def writes (command : UInt8) : Bool := [0x21, 0x22, 0x24, 0x27, 0x28, 0x29, 0x2A].contains command

/-- What reaches the listener. -/
inductive Event
  | fieldOn
  | fieldOff
  | frame (rx behind : List UInt8)

/-- Only frames are looked at. -/
def receive (listener : Iso15693Listener) : Event → Except Iso15693Fault (Reply × Iso15693Listener)
  | .fieldOn => .ok (.silent, listener)
  | .fieldOff => .ok (.silent, listener)
  | .frame rx behind => listener.run rx behind

/-! ## The law -/

/-- A request that is not executed, nor answered. -/
structure Ignored (before : Iso15693Listener) (reply : Reply) (after : Iso15693Listener) :
    Prop where
  reply : reply = .silent
  data : after.data = before.data
  waitForEof : after.waitForEof = before.waitForEof
  state : after.state = before.state ∨ before.state = .selected ∧ after.state = .ready

/-- Whom the card answers. `told` is whether it has been told to stay quiet. -/
structure AddressingLaw (told : Bool) (before : Iso15693Listener) (behind rx : List UInt8)
    (request : Request) (reply : Reply) (after : Iso15693Listener) : Prop where
  uid : request.isAddressed = true → request.isFor before.data = false → Ignored before reply after
  deselected : request.isAddressed = true → request.isFor before.data = false →
    after.state ≠ before.state → request.command = 0x25
  quiet : told = true → request.isAddressed = false → Ignored before reply after
  addressed : told = true → request.isAddressed = true → request.isSelected = false →
    request.isFor before.data = true →
    ∃ next, { before with state := .ready }.run rx behind = .ok (reply, next)
  selected : request.isSelected = true → before.state ≠ .selected → Ignored before reply after
  option : request.hasOption = false → ∀ tx, reply ≠ .deferred tx

/-- Whether a card has been told to stay quiet, by a request addressed to it, and since then not to
leave this state, and has not been without the field. -/
def toldAfter (data : Iso15693Data) (told : Bool) : Event → Bool
  | .fieldOn => told
  | .fieldOff => false
  | .frame rx _ =>
    match Request.parse rx with
    | none => told
    | some request =>
      if request.isSelected then told
      else if request.isAddressed then
        if !request.isFor data then told
        else if request.command = 0x02 then true
        else if request.command = 0x25 ∨ request.command = 0x26 then false
        else told
      else if !request.isInventory ∧ request.command = 0x26 then false
      else told

/-- A listener, and whether it has been told to stay quiet. -/
structure Hearing where
  listener : Iso15693Listener
  told : Bool

namespace Hearing

def start (data : Iso15693Data) : Hearing := ⟨alloc data, false⟩

def step (hearing : Hearing) (event : Event) : Except Iso15693Fault Hearing :=
  (hearing.listener.receive event).map fun result =>
    ⟨result.2, toldAfter hearing.listener.data hearing.told event⟩

/-- A request that is handled meets the law. -/
def Obeys (hearing : Hearing) (event : Event) : Prop :=
  ∀ rx behind request reply after, event = .frame rx behind → Request.parse rx = some request →
    hearing.listener.run rx behind = .ok (reply, after) →
    AddressingLaw hearing.told hearing.listener behind rx request reply after

/-- A request for which a quiet card is not tested the wrong way round: it is an inventory or has
both flags, or it is neither for a selected card nor, if the card has been told to stay quiet,
unaddressed or addressed to this card. -/
def Tested (hearing : Hearing) (request : Request) : Prop :=
  hearing.listener.state = .quiet → request.isInventory = false →
    (request.isSelected = true → request.isAddressed = true) ∧
    (hearing.told = true → request.isAddressed = true ∧
      (request.isSelected = true ∨ request.isFor hearing.listener.data = false))

/-- No answer still waits for its end of frame when a request is let through that neither has the
option flag nor sets anew whether its answer waits. -/
def Waits (hearing : Hearing) (rx : List UInt8) : Prop :=
  ∀ command data flags, hearing.listener.standardRequest rx = some (command, data, flags) →
    hasFlag flags ISO15693_3_REQ_FLAG_T4_OPTION = true ∨ writes command = true ∨
      hearing.listener.waitForEof = false

def Meets (hearing : Hearing) (event : Event) : Prop :=
  ∀ rx behind request, event = .frame rx behind → Request.parse rx = some request →
    hearing.Tested request ∧ hearing.Waits rx

end Hearing

/-! ## Whether an answer waits -/

/-- What the answer of a handler waits for, where there is one. -/
def Leaves (wait : Bool) (handled : Handled) : Prop :=
  ∀ error after, handled = .ok (error, after) → after.waitForEof = wait

section Leaves

variable {wait : Bool} {listener : Iso15693Listener}

theorem Leaves.pure {error : Iso15693Error} (h : listener.waitForEof = wait) :
    Leaves wait (.ok (error, listener)) := by
  rintro _ _ ⟨⟩
  exact h

theorem Leaves.bind {α : Type} {x : Except Iso15693Fault α} {f : α → Handled}
    (h : ∀ a, Leaves wait (f a)) : Leaves wait (x >>= f) := by
  intro error after hbind
  obtain ⟨a, -, ha⟩ := bind_eq_ok hbind
  exact h a error after ha

theorem Leaves.ite {c : Prop} [Decidable c] {x y : Handled} (hx : Leaves wait x)
    (hy : Leaves wait y) : Leaves wait (if c then x else y) := by
  split_ifs
  exacts [hx, hy]

variable (listener) (request behind : List UInt8) (flags : UInt8)

theorem leaves_inventoryHandler :
    Leaves listener.waitForEof (listener.inventoryHandler request flags) := by
  unfold inventoryHandler
  exact .ite (.pure rfl) (.ite (.pure rfl) (.ite (.pure rfl)
    (.bind fun _ => .bind fun _ => .pure rfl)))

theorem leaves_readBlockHandler :
    Leaves listener.waitForEof (listener.readBlockHandler request flags) := by
  unfold readBlockHandler
  exact .ite (.pure rfl) (.ite (.pure rfl) (.ite (.bind fun _ => .bind fun _ => .pure rfl)
    (.bind fun _ => .bind fun _ => .pure rfl)))

theorem leaves_readMultiBlocksHandler :
    Leaves listener.waitForEof (listener.readMultiBlocksHandler request flags) := by
  unfold readMultiBlocksHandler
  refine .ite (.pure rfl) (.ite ?_ (.ite (.pure rfl) (.bind fun _ => .pure rfl)))
  rintro _ _ ⟨⟩

theorem leaves_getSystemInfoHandler :
    Leaves listener.waitForEof listener.getSystemInfoHandler := by
  unfold getSystemInfoHandler
  exact .bind fun _ => .bind fun _ => .bind fun _ => .pure rfl

theorem leaves_getMultiBlocksSecurityHandler :
    Leaves listener.waitForEof (listener.getMultiBlocksSecurityHandler request) := by
  unfold getMultiBlocksSecurityHandler
  exact .ite (.pure rfl) (.ite (.pure rfl) (.bind fun _ => .pure rfl))

theorem leaves_writeBlockHandler :
    Leaves (hasFlag flags ISO15693_3_REQ_FLAG_T4_OPTION)
      (listener.writeBlockHandler request flags) := by
  unfold writeBlockHandler
  exact .ite (.pure rfl) (.ite (.pure rfl) (.ite (.pure rfl)
    (.bind fun _ => .ite (.pure rfl) (.bind fun _ => .pure rfl))))

theorem leaves_lockBlockHandler :
    Leaves (hasFlag flags ISO15693_3_REQ_FLAG_T4_OPTION)
      (listener.lockBlockHandler request flags) := by
  unfold lockBlockHandler
  exact .ite (.pure rfl) (.ite (.pure rfl)
    (.bind fun _ => .ite (.pure rfl) (.bind fun _ => .pure rfl)))

theorem leaves_writeMultiBlocksHandler :
    Leaves (hasFlag flags ISO15693_3_REQ_FLAG_T4_OPTION)
      (listener.writeMultiBlocksHandler request behind flags) := by
  unfold writeMultiBlocksHandler
  exact .ite (.pure rfl) (.ite (.pure rfl) (.ite (.pure rfl)
    (.bind fun _ => .ite (.pure rfl) (.bind fun _ => .pure rfl))))

theorem leaves_writeField (locked : Iso15693Data → Bool)
    (set : Iso15693Data → UInt8 → Iso15693Data) :
    Leaves (hasFlag flags ISO15693_3_REQ_FLAG_T4_OPTION)
      (listener.writeField request flags locked set) := by
  unfold writeField
  exact .ite (.pure rfl) (.ite (.pure rfl) (.pure rfl))

theorem leaves_lockField (locked : Iso15693Data → Bool) (lock : Iso15693Data → Iso15693Data) :
    Leaves (hasFlag flags ISO15693_3_REQ_FLAG_T4_OPTION)
      (listener.lockField flags locked lock) := by
  unfold lockField
  exact .ite (.pure rfl) (.pure rfl)

theorem leaves_handler {command : UInt8} {handled : Handled}
    (h : listener.handler command request behind flags = some handled) :
    Leaves (if writes command then hasFlag flags ISO15693_3_REQ_FLAG_T4_OPTION
      else listener.waitForEof) handled := by
  unfold handler at h
  split at h <;> cases h
  · rintro _ _ ⟨⟩
  · exact leaves_inventoryHandler listener request flags
  · exact .pure rfl
  · exact leaves_readBlockHandler listener request flags
  · exact leaves_writeBlockHandler listener request flags
  · exact leaves_lockBlockHandler listener request flags
  · exact leaves_readMultiBlocksHandler listener request flags
  · exact leaves_writeMultiBlocksHandler listener request behind flags
  · unfold selectHandler
    exact .ite (.pure rfl) (.pure rfl)
  · exact .pure rfl
  · exact leaves_writeField listener request flags _ _
  · exact leaves_lockField listener flags _ _
  · exact leaves_writeField listener request flags _ _
  · exact leaves_lockField listener flags _ _
  · exact leaves_getSystemInfoHandler listener
  · exact leaves_getMultiBlocksSecurityHandler listener request

end Leaves

theorem not_deferred {listener after : Iso15693Listener} {command flags : UInt8}
    {request behind : List UInt8} {reply : Reply}
    (h : listener.handleStandardRequest command request behind flags = .ok (reply, after))
    (hoption : hasFlag flags ISO15693_3_REQ_FLAG_T4_OPTION = false)
    (hwait : writes command = true ∨ listener.waitForEof = false) (tx : List UInt8) :
    reply ≠ .deferred tx := by
  unfold handleStandardRequest at h
  rcases hhandler : ({ listener with txBuffer := [ISO15693_3_RESP_FLAG_NONE] } :
      Iso15693Listener).handler command request behind flags with _ | handled
  all_goals rw [hhandler] at h
  · cases h
    exact Reply.noConfusion
  · obtain ⟨⟨error, next⟩, rfl, hreply⟩ := bind_eq_ok h
    have hleaves := leaves_handler _ _ _ _ hhandler error next rfl
    have hnext : (next.withError error).waitForEof = false := by
      have hsame : (next.withError error).waitForEof = next.waitForEof := by
        unfold withError
        split_ifs <;> rfl
      rw [hsame, hleaves, hoption]
      rcases hwait with hwrites | hno
      · rw [if_pos hwrites]
      · split_ifs
        exacts [rfl, hno]
    dsimp only at hreply
    split_ifs at hreply with hsilent hdeferred
    · cases hreply
      exact Reply.noConfusion
    · rw [hnext] at hdeferred
      cases hdeferred
    · rw [(eq_of_sendFrame hreply).1]
      exact Reply.noConfusion

/-! ## Requests that are let through -/

/-- A request whose mode is not refused has at most one of the flags for it, is no inventory and not
addressed if the card is quiet, and not selected if it is ready. -/
theorem setMode_none {listener : Iso15693Listener} {request : Request}
    (h : (listener.setMode request.flags).1 = .none) :
    (listener.setMode request.flags).2.addressed = request.isAddressed ∧
      (request.isSelected = true → request.isAddressed = false) ∧
      (listener.state = .quiet → request.isInventory = false ∧ request.isAddressed = false) ∧
      (request.isSelected = true → listener.state ≠ .ready) := by
  unfold setMode at h ⊢
  unfold Request.isSelected Request.isAddressed Request.isInventory
  generalize hasFlag request.flags ISO15693_3_REQ_FLAG_INVENTORY_T5 = inventory at h ⊢
  generalize hasFlag request.flags ISO15693_3_REQ_FLAG_T4_SELECTED = selected at h ⊢
  generalize hasFlag request.flags ISO15693_3_REQ_FLAG_T4_ADDRESSED = addressed at h ⊢
  cases inventory with
  | true =>
    rw [if_pos rfl] at h ⊢
    split_ifs at h ⊢ with hquiet
    exact ⟨rfl, fun _ => rfl, fun h => absurd h hquiet, fun h => absurd h Bool.false_ne_true⟩
  | false =>
    rw [if_neg Bool.false_ne_true] at h ⊢
    dsimp only at h ⊢
    split_ifs at h ⊢ with hboth hquiet haddressed hready hselected <;> simp_all
/-- The mode of a request lets it through. -/
structure Request.LetThrough (request : Request) (listener : Iso15693Listener) : Prop where
  uid : request.isAddressed = true → request.isFor listener.data = true
  mode : request.isSelected = true → request.isAddressed = false
  quiet : listener.state = .quiet → request.isInventory = false ∧ request.isAddressed = false
  selected : request.isSelected = true → listener.state ≠ .ready

/-- A request is let through, is addressed to another card, or is refused for another reason. -/
theorem address_cases (listener : Iso15693Listener) (request : Request) :
    (∃ error iso, error ≠ .uidMismatch ∧
      listener.address (request.flags :: request.command :: request.data) = (.refused error, iso)) ∨
    (∃ iso, request.isAddressed = true ∧ request.isFor listener.data = false ∧
      listener.address (request.flags :: request.command :: request.data) =
        (.refused .uidMismatch, iso)) ∨
    ∃ data iso, request.LetThrough listener ∧
      listener.address (request.flags :: request.command :: request.data) =
        (.standard request.command data request.flags, iso) := by
  have hdata := listener.setMode_data request.flags
  have hmode := @setMode_none listener request
  rcases hset : listener.setMode request.flags with ⟨error, iso⟩
  rw [hset] at hdata hmode
  unfold address
  dsimp only at hdata hmode ⊢
  rw [hset]
  dsimp only
  split_ifs with hrefused hcustom haddressed hshort huid
  · refine .inl ⟨error, iso, ?_, rfl⟩
    rintro rfl
    unfold setMode at hset
    dsimp only at hset
    split_ifs at hset <;> cases hset
  · refine .inl ⟨iso.handleCustomRequest request.data, iso, ?_, rfl⟩
    unfold handleCustomRequest
    rcases request.data with _ | ⟨manufacturer, data⟩
    · exact Iso15693Error.noConfusion
    · dsimp only
      split_ifs <;> exact Iso15693Error.noConfusion
  · exact .inl ⟨.format, iso, Iso15693Error.noConfusion, rfl⟩
  · obtain ⟨hsame, -⟩ := hmode (not_not.1 hrefused)
    refine .inr (.inl ⟨iso, hsame ▸ haddressed, ?_, rfl⟩)
    rw [Request.isFor, if_neg hcustom, ← hdata]
    exact Bool.eq_false_of_not_eq_true' huid
  · obtain ⟨-, hmode, hquiet, hselected⟩ := hmode (not_not.1 hrefused)
    refine .inr (.inr ⟨_, iso, ⟨fun _ => ?_, hmode, hquiet, hselected⟩, rfl⟩)
    rw [Request.isFor, if_neg hcustom, ← hdata]
    simpa using huid
  · obtain ⟨hsame, hmode, hquiet, hselected⟩ := hmode (not_not.1 hrefused)
    exact .inr (.inr ⟨_, iso,
      ⟨fun h => absurd (hsame.trans h) haddressed, hmode, hquiet, hselected⟩, rfl⟩)

/-! ## One frame -/

theorem Request.of_parse {rx : List UInt8} {request : Request} (h : parse rx = some request) :
    iso13239CrcCheck rx = true ∧ rx.take (rx.length - ISO13239_CRC_SIZE) =
      request.flags :: request.command :: request.data := by
  unfold parse at h
  split_ifs at h with hcrc
  refine ⟨hcrc, ?_⟩
  split at h
  · cases h
    assumption
  · cases h

/-- A card that is told to stay quiet does. -/
def Hearing.Quiet (hearing : Hearing) : Prop :=
  hearing.told = true → hearing.listener.state = .quiet

section Law

variable {hearing : Hearing} {rx behind : List UInt8} {request : Request} {reply : Reply}
  {after : Iso15693Listener}

theorem ignored_of_refused {listener : Iso15693Listener} {error : Iso15693Error}
    {iso : Iso15693Listener} (hparse : Request.parse rx = some request)
    (hrun : listener.run rx behind = .ok (reply, after)) (hne : error ≠ .uidMismatch)
    (haddress : Iso15693Listener.address { listener with txBuffer := [] }
      (request.flags :: request.command :: request.data) = (.refused error, iso)) :
    Ignored listener reply after ∧ after.state = listener.state := by
  obtain ⟨hcrc, htake⟩ := Request.of_parse hparse
  obtain ⟨selected, addressed, hiso⟩ := address_eq { listener with txBuffer := [] }
    (request.flags :: request.command :: request.data)
  rw [haddress] at hiso
  dsimp only at hiso
  subst hiso
  unfold run at hrun
  dsimp only at hrun
  rw [if_pos hcrc, htake, haddress] at hrun
  have hsilent : (.silent, { listener with
      txBuffer := [], selected := selected, addressed := addressed }) = (reply, after) := by
    cases error <;> first | exact absurd rfl hne | exact Except.ok.inj hrun
  cases hsilent
  exact ⟨⟨rfl, rfl, rfl, .inl rfl⟩, rfl⟩

theorem ignored_of_uidMismatch {listener iso : Iso15693Listener}
    (hparse : Request.parse rx = some request)
    (hrun : listener.run rx behind = .ok (reply, after))
    (haddress : Iso15693Listener.address { listener with txBuffer := [] }
      (request.flags :: request.command :: request.data) = (.refused .uidMismatch, iso)) :
    Ignored listener reply after ∧ (after.state ≠ listener.state → request.command = 0x25) := by
  obtain ⟨hcrc, htake⟩ := Request.of_parse hparse
  obtain ⟨selected, addressed, hiso⟩ := address_eq { listener with txBuffer := [] }
    (request.flags :: request.command :: request.data)
  rw [haddress] at hiso
  dsimp only at hiso
  subst hiso
  unfold run at hrun
  dsimp only at hrun
  rw [if_pos hcrc, htake, haddress] at hrun
  cases hrun
  have hcommand : rx.getD 1 0 = request.command := by
    have hone : (rx.take (rx.length - ISO13239_CRC_SIZE))[1]? = some request.command := by
      rw [htake]
      rfl
    rw [List.getElem?_take] at hone
    split_ifs at hone
    rw [List.getD_eq_getElem?_getD, hone]
    rfl
  unfold processUidMismatch
  split_ifs with hselect
  · exact ⟨⟨rfl, rfl, rfl, .inr ⟨hselect.2, rfl⟩⟩, fun _ => hcommand ▸ hselect.1⟩
  · exact ⟨⟨rfl, rfl, rfl, .inl rfl⟩, fun h => absurd rfl h⟩

theorem not_deferred_of_letThrough {listener iso : Iso15693Listener} {data : List UInt8}
    (hparse : Request.parse rx = some request)
    (hrun : listener.run rx behind = .ok (reply, after))
    (haddress : Iso15693Listener.address { listener with txBuffer := [] }
      (request.flags :: request.command :: request.data) =
        (.standard request.command data request.flags, iso))
    (hwaits : ∀ command data flags, listener.standardRequest rx = some (command, data, flags) →
      hasFlag flags ISO15693_3_REQ_FLAG_T4_OPTION = true ∨ writes command = true ∨
        listener.waitForEof = false)
    (hoption : request.hasOption = false) (tx : List UInt8) : reply ≠ .deferred tx := by
  obtain ⟨hcrc, htake⟩ := Request.of_parse hparse
  have hrequest : listener.standardRequest rx = some (request.command, data, request.flags) := by
    unfold standardRequest
    rw [if_pos hcrc, htake, haddress]
  obtain ⟨selected, addressed, hiso⟩ := address_eq { listener with txBuffer := [] }
    (request.flags :: request.command :: request.data)
  rw [haddress] at hiso
  dsimp only at hiso
  subst hiso
  unfold run at hrun
  dsimp only at hrun
  rw [if_pos hcrc, htake, haddress] at hrun
  refine not_deferred hrun hoption ?_ tx
  rcases hwaits _ _ _ hrequest with hflag | hwait
  · rw [Request.hasOption] at hoption
    rw [hoption] at hflag
    cases hflag
  · exact hwait

theorem addressingLaw (hquiet : hearing.Quiet) (hparse : Request.parse rx = some request)
    (hrun : hearing.listener.run rx behind = .ok (reply, after)) (htested : hearing.Tested request)
    (hwaits : hearing.Waits rx) :
    AddressingLaw hearing.told hearing.listener behind rx request reply after := by
  have htold : hearing.told = true → request.isInventory = false →
      request.isAddressed = true ∧
        (request.isSelected = true ∨ request.isFor hearing.listener.data = false) :=
    fun htold hno => (htested (hquiet htold) hno).2 htold
  have hinventory : request.isAddressed = true → request.isInventory = false := fun h => by
    rw [Request.isAddressed, Bool.and_eq_true, Bool.not_eq_true'] at h
    exact h.1
  -- A card that has been told to stay quiet gets no request that is addressed to it.
  have hnone (P : Prop) (h : hearing.told = true) (haddressed : request.isAddressed = true)
      (hselected : request.isSelected = false) (hfor : request.isFor hearing.listener.data = true) :
      P := by
    rcases (htold h (hinventory haddressed)).2 with hsel | hother
    · rw [hselected] at hsel
      cases hsel
    · rw [hfor] at hother
      cases hother
  rcases address_cases { hearing.listener with txBuffer := [] } request with
    ⟨error, iso, hne, haddress⟩ | ⟨iso, haddressed, hother, haddress⟩ |
      ⟨data, iso, hthrough, haddress⟩
  · obtain ⟨hignored, hstate⟩ := ignored_of_refused hparse hrun hne haddress
    exact {
      uid _ _ := hignored
      deselected _ _ hdiffers := absurd hstate hdiffers
      quiet _ _ := hignored
      addressed := hnone _
      selected _ _ := hignored
      option _ tx := by
        rw [hignored.reply]
        exact Reply.noConfusion }
  · obtain ⟨hignored, hselect⟩ := ignored_of_uidMismatch hparse hrun haddress
    exact {
      uid _ _ := hignored
      deselected _ _ := hselect
      quiet _ _ := hignored
      addressed := hnone _
      selected _ _ := hignored
      option _ tx := by
        rw [hignored.reply]
        exact Reply.noConfusion }
  · have huid {P : Prop} (haddressed : request.isAddressed = true)
        (hother : request.isFor hearing.listener.data = false) : P := by
      have hfor := hthrough.uid haddressed
      dsimp only at hfor
      rw [hother] at hfor
      cases hfor
    exact {
      uid haddressed hother := huid haddressed hother
      deselected haddressed hother := huid haddressed hother
      quiet hsaid hno := by
        have hlet := hthrough.quiet (hquiet hsaid)
        have haddressed := (htold hsaid hlet.1).1
        rw [hno] at haddressed
        cases haddressed
      addressed := hnone _
      selected hselected hnot := by
        rcases hstate : hearing.listener.state with _ | _ | _
        · exact absurd hstate (hthrough.selected hselected)
        · exact absurd hstate hnot
        · have haddressed := (htested hstate (hthrough.quiet hstate).1).1 hselected
          rw [hthrough.mode hselected] at haddressed
          cases haddressed
      option hoption := not_deferred_of_letThrough hparse hrun haddress hwaits hoption }

end Law

/-! ## Runs -/

theorem state_of_parse_none {listener after : Iso15693Listener} {rx behind : List UInt8}
    {reply : Reply} (hparse : Request.parse rx = none)
    (hrun : listener.run rx behind = .ok (reply, after)) : after.state = listener.state := by
  unfold Request.parse at hparse
  unfold run at hrun
  dsimp only at hrun
  split_ifs at hparse hrun with hcrc hend
  · split at hparse
    · cases hparse
    · rename_i hshort
      rcases htake : rx.take (rx.length - ISO13239_CRC_SIZE) with _ | ⟨flags, _ | ⟨command, data⟩⟩
      · rw [htake] at hrun
        cases hrun
        rfl
      · rw [htake] at hrun
        cases hrun
        rfl
      · exact absurd htake (hshort flags command data)
  · unfold processSingleEof at hrun
    split_ifs at hrun
    · rw [(eq_of_sendFrame hrun).2]
    · cases hrun
      rfl
  · cases hrun
    rfl

theorem address_of_isFor {listener : Iso15693Listener} {request : Request}
    (hselected : request.isSelected = false) (haddressed : request.isAddressed = true)
    (hfor : request.isFor listener.data = true) (hcommand : ¬0xA0 ≤ request.command)
    (hstate : listener.state ≠ .quiet) :
    ∃ data iso, listener.address (request.flags :: request.command :: request.data) =
      (.standard request.command data request.flags, iso) := by
  rw [Request.isAddressed, Bool.and_eq_true, Bool.not_eq_true'] at haddressed
  obtain ⟨hinventory, haddressed⟩ := haddressed
  rw [Request.isSelected, hinventory, Bool.not_false, Bool.true_and] at hselected
  rw [Request.isInventory] at hinventory
  rw [Request.isFor, if_neg hcommand] at hfor
  have hset : listener.setMode request.flags =
      (.none, { listener with selected := false, addressed := true }) := by
    unfold setMode
    rw [hinventory, if_neg Bool.false_ne_true]
    dsimp only
    rw [hselected, haddressed]
    simp [hstate]
  have hlength : ¬request.data.length < ISO15693_3_UID_SIZE := by
    have heq := congrArg List.length (beq_iff_eq.1 hfor)
    rw [List.length_reverse, Vector.length_toList, List.length_take] at heq
    have height : ISO15693_3_UID_SIZE = 8 := rfl
    omega
  refine ⟨request.data.drop ISO15693_3_UID_SIZE,
    { listener with selected := false, addressed := true }, ?_⟩
  unfold address
  dsimp only
  rw [hset]
  dsimp only
  rw [if_neg (not_not.2 rfl), if_neg hcommand, if_pos rfl, if_neg hlength, hfor]
  rfl

theorem state_of_stayQuiet {listener after : Iso15693Listener} {rx behind : List UInt8}
    {request : Request} {reply : Reply} (hparse : Request.parse rx = some request)
    (hrun : listener.run rx behind = .ok (reply, after)) (hselected : request.isSelected = false)
    (haddressed : request.isAddressed = true) (hfor : request.isFor listener.data = true)
    (hcommand : request.command = 0x02) (hstate : listener.state ≠ .quiet) :
    after.state = .quiet := by
  obtain ⟨hcrc, htake⟩ := Request.of_parse hparse
  obtain ⟨data, iso, haddress⟩ := @address_of_isFor { listener with txBuffer := [] } request
    hselected haddressed hfor (by rw [hcommand]; decide) hstate
  unfold run at hrun
  dsimp only at hrun
  rw [if_pos hcrc, htake, haddress, hcommand] at hrun
  cases hrun
  rfl

theorem state_of_quiet {hearing : Hearing} {after : Iso15693Listener} {rx behind : List UInt8}
    {request : Request} {reply : Reply} (hparse : Request.parse rx = some request)
    (hrun : hearing.listener.run rx behind = .ok (reply, after)) (htold : hearing.told = true)
    (htested : hearing.Tested request) (hstate : hearing.listener.state = .quiet) :
    after.state = .quiet := by
  rcases address_cases { hearing.listener with txBuffer := [] } request with
    ⟨error, iso, hne, haddress⟩ | ⟨iso, haddressed, hother, haddress⟩ |
      ⟨data, iso, hthrough, haddress⟩
  · rw [(ignored_of_refused hparse hrun hne haddress).2, hstate]
  · rcases (ignored_of_uidMismatch hparse hrun haddress).1.state with hsame | ⟨hselected, -⟩
    · rw [hsame, hstate]
    · rw [hstate] at hselected
      cases hselected
  · obtain ⟨hinventory, hno⟩ := hthrough.quiet hstate
    have haddressed := ((htested hstate hinventory).2 htold).1
    rw [hno] at haddressed
    cases haddressed

theorem stayQuiet_of_toldAfter {data : Iso15693Data} {rx behind : List UInt8} {request : Request}
    (hparse : Request.parse rx = some request)
    (h : toldAfter data false (.frame rx behind) = true) :
    request.isSelected = false ∧ request.isAddressed = true ∧ request.isFor data = true ∧
      request.command = 0x02 := by
  unfold toldAfter at h
  dsimp only at h
  rw [hparse] at h
  dsimp only at h
  split_ifs at h with hselected haddressed hother hcommand
  exact ⟨Bool.eq_false_of_not_eq_true hselected, haddressed, by simpa using hother, hcommand⟩

theorem Hearing.Quiet.step {hearing next : Hearing} {event : Event} (hquiet : hearing.Quiet)
    (hmeets : hearing.Meets event) (hstep : hearing.step event = .ok next) : next.Quiet := by
  unfold Hearing.step receive at hstep
  rcases event with _ | _ | ⟨rx, behind⟩
  · cases hstep
    exact hquiet
  · cases hstep
    exact fun h => absurd h Bool.false_ne_true
  dsimp only at hstep
  rcases hrun : hearing.listener.run rx behind with fault | ⟨reply, after⟩
  all_goals rw [hrun] at hstep; cases hstep
  intro htold
  dsimp only at htold ⊢
  rcases hparse : Request.parse rx with _ | request
  · rw [state_of_parse_none hparse hrun]
    refine hquiet ?_
    unfold toldAfter at htold
    dsimp only at htold
    rw [hparse] at htold
    exact htold
  · rcases hbefore : hearing.told with _ | _
    · rw [hbefore] at htold
      obtain ⟨hselected, haddressed, hfor, hcommand⟩ := stayQuiet_of_toldAfter hparse htold
      by_cases hstate : hearing.listener.state = .quiet
      · rcases address_cases { hearing.listener with txBuffer := [] } request with
          ⟨error, iso, hne, haddress⟩ | ⟨iso, -, hother, -⟩ | ⟨data, iso, hthrough, -⟩
        · rw [(ignored_of_refused hparse hrun hne haddress).2, hstate]
        · exact absurd (hother.symm.trans hfor) Bool.false_ne_true
        · exact absurd ((hthrough.quiet hstate).2.symm.trans haddressed) Bool.false_ne_true
      · exact state_of_stayQuiet hparse hrun hselected haddressed hfor hcommand hstate
    · exact state_of_quiet hparse hrun hbefore (hmeets rx behind request rfl hparse).1
        (hquiet hbefore)

theorem addressingLaw_along (data : Iso15693Data) (events : List Event)
    (h : ExecAlong Hearing.Meets Hearing.step (Hearing.start data) events) :
    ExecAlong Hearing.Obeys Hearing.step (Hearing.start data) events := by
  refine h.mono (P := Hearing.Quiet) (fun hearing event hquiet hmeets => ?_)
    (fun hearing event next hquiet hmeets hstep => hquiet.step hmeets hstep) (fun h => ?_)
  · rintro rx behind request reply after rfl hparse hrun
    obtain ⟨htested, hwaits⟩ := hmeets rx behind request rfl hparse
    exact addressingLaw hquiet hparse hrun htested hwaits
  · exact absurd h Bool.false_ne_true

/-- A request to stay quiet, addressed to the card with four blocks. -/
def stayQuietFrame : List UInt8 :=
  [0x22, 0x02, 0xE0, 0xE0, 0xE0, 0xE0, 0xE0, 0xE0, 0xE0, 0xE0, 0x4B, 0x2C]

set_option maxRecDepth 10000 in
theorem step_stayQuietFrame : ∃ hearing : Hearing,
    (Hearing.start fourBlocks).step (.frame stayQuietFrame []) = .ok hearing ∧
      hearing.told = true ∧ hearing.listener.waitForEof = false ∧
      ∃ tx after, hearing.listener.run [0x02, 0x2B, 0x26, 0xA3] [] = .ok (.sent tx, after) :=
  ⟨_, rfl, rfl, rfl, _, _, rfl⟩

set_option maxRecDepth 10000 in
theorem parse_inventoryFrame :
    Request.parse [0x06, 0x01, 0x00, 0xCD, 0x09] = some ⟨0x06, 0x01, [0x00]⟩ := rfl

set_option maxRecDepth 10000 in
theorem parse_systemInfoFrame :
    Request.parse [0x02, 0x2B, 0x26, 0xA3] = some ⟨0x02, 0x2B, []⟩ := rfl

theorem addressingLaw_along_stayQuiet :
    ExecAlong Hearing.Obeys Hearing.step (Hearing.start fourBlocks)
      [.frame stayQuietFrame [], .frame [0x06, 0x01, 0x00, 0xCD, 0x09] []] := by
  refine addressingLaw_along _ _ ⟨?_, fun hearing hstep => ⟨?_, fun _ _ => trivial⟩⟩
  · rintro rx behind request hframe hparse
    exact ⟨fun hquiet => absurd hquiet Iso15693ListenerState.noConfusion,
      fun _ _ _ _ => .inr (.inr rfl)⟩
  · obtain ⟨told, hsame, -, hwait, -⟩ := step_stayQuietFrame
    obtain rfl : told = hearing := Except.ok.inj (hsame.symm.trans hstep)
    rintro rx behind request hframe hparse
    cases hframe
    obtain rfl := Option.some.inj (parse_inventoryFrame.symm.trans hparse)
    exact ⟨fun _ hno => absurd hno (by decide), fun _ _ _ _ => .inr (.inr hwait)⟩

/-- A card that has been told to stay quiet answers requests that are not addressed. -/
theorem not_addressingLaw_along : ¬∀ (data : Iso15693Data) (events : List Event),
    ExecAlong Hearing.Obeys Hearing.step (Hearing.start data) events := by
  intro h
  obtain ⟨hearing, hstep, htold, -, tx, after, hrun⟩ := step_stayQuietFrame
  have hobeys := ((h fourBlocks [.frame stayQuietFrame [], .frame [0x02, 0x2B, 0x26, 0xA3] []]).2
    hearing hstep).1
  have hlaw := hobeys _ _ _ _ _ rfl parse_systemInfoFrame hrun
  have hsilent := (hlaw.quiet htold rfl).reply
  cases hsilent

end Iso15693Listener

end KiisuFirmware
