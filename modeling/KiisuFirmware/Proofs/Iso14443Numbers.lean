import KiisuFirmware.Proofs.Iso14443Poller

/-!
# The numbers of I-blocks

After an exchange that restores it the PCB of the layer is that of an I-block with the number that
is next (`Exchange.Restores`). As long as I-blocks are sent only after such exchanges they are
I-blocks, and the numbers of those that are exchanged alternate.
-/

namespace KiisuFirmware

open BitBuffer

namespace Iso14443_4aPoller

def Call.isIBlock : Call → Bool
  | .block | .chainBlock => true
  | _ => false

/-- The exchanges in which an I-block was exchanged without an error, as the numbers of the
blocks. -/
def numbers (made : List Made) : List UInt8 :=
  (made.filter fun m => m.call.isIBlock && m.success).map fun m => m.pcb &&& 0x01

/-- This number, then the other, and so on. -/
def Alternating : UInt8 → List UInt8 → Prop
  | _, [] => True
  | next, number :: numbers => number = next ∧ Alternating (next ^^^ 0x01) numbers

/-- What is sent as an I-block is one, and it is chained just if it is to be. -/
def Marked (m : Made) : Prop :=
  m.call.isIBlock = true →
    pcbIsIBlock m.pcb = true ∧ pcbIsChainActive m.pcb = decide (m.call = .chainBlock)

/-- The frame that answers a block in the end, after any requests for more time. -/
def response : List (Except Iso14443_3aError BitBuffer) → Option BitBuffer
  | [] => none
  | .error _ :: _ => none
  | .ok rxBuffer :: outcomes =>
    if rxBuffer.startsWithByte ISO14443_4A_SWTX then
      if ISO14443_4A_WTXM_MAX < rxBuffer.data.getD 1 0 &&& ISO14443_4A_WTXM_MASK then none
      else response outcomes
    else some rxBuffer

/-- An I-block that is answered by one with its PCB, a chained one that is acknowledged, or an
R-block that is answered at all. -/
def Exchange.Restores (exchange : Exchange) (layer : Iso14443_4Layer) : Prop :=
  match exchange.call with
  | .block => ∃ rx, response exchange.outcomes = some rx ∧ rx.startsWithByte layer.pcb = true
  | .chainBlock => ∃ rx, response exchange.outcomes = some rx ∧
      Iso14443_4Layer.isAck (Iso14443_4Layer.getResponsePcb rx) = true
  | .receiveReadyBlock _ => ∃ rx, response exchange.outcomes = some rx
  | .supervisoryBlock _ => False

/-- No I-block is sent after an exchange that does not restore the layer. -/
def Tidy : Session → List Exchange → Prop
  | _, [] => True
  | session, exchange :: exchanges =>
    (exchange.Restores session.layer ∨ ∀ later ∈ exchanges, later.call.isIBlock = false) ∧
      ∀ session', session.step exchange = .ok session' → Tidy session' exchanges

/-- A session in which the numbers are as they should be. -/
structure Numbered (made : List Made) : Prop where
  marked : ∀ m ∈ made, Marked m
  alternating : Alternating 0 (numbers made)

/-- The PCB of the layer is that of an I-block, and its number is next. -/
structure Ready (session : Session) : Prop where
  pcb : session.layer.pcb = 0x02 ∨ session.layer.pcb = 0x03
  marked : ∀ m ∈ session.made, Marked m
  alternating : Alternating 0 (numbers session.made ++ [session.layer.pcb &&& 0x01])

/-- The layer as its PCB is set before an exchange. -/
def Call.prepare (call : Call) (layer : Iso14443_4Layer) (cidPresent : Bool) : Iso14443_4Layer :=
  match call with
  | .block => layer
  | .chainBlock => layer.setIBlock true false
  | .receiveReadyBlock acknowledged => layer.setRBlock acknowledged cidPresent
  | .supervisoryBlock deselect => layer.setSBlock deselect cidPresent

variable {layer : Iso14443_4Layer} {txBuffer rxBuffer : BitBuffer}
  {outcomes : List (Except Iso14443_3aError BitBuffer)} {call : Call} {made : List Made} {m : Made}

/-! ## Numbers -/

theorem Alternating.of_append : ∀ {next : UInt8} {xs ys : List UInt8}, Alternating next (xs ++ ys) →
    Alternating next xs
  | _, [], _, _ => trivial
  | _, _ :: _, _, ⟨hx, hxs⟩ => ⟨hx, hxs.of_append⟩

theorem Alternating.snoc : ∀ {next number : UInt8} {xs : List UInt8},
    Alternating next (xs ++ [number]) → Alternating next (xs ++ [number] ++ [number ^^^ 0x01])
  | next, number, [], h => by
    obtain ⟨rfl, -⟩ := h
    exact ⟨rfl, rfl, trivial⟩
  | _, _, _ :: _, ⟨hx, hxs⟩ => ⟨hx, hxs.snoc⟩

theorem numbers_append (made : List Made) (m : Made) :
    numbers (made ++ [m]) =
      numbers made ++ if m.call.isIBlock && m.success then [m.pcb &&& 0x01] else [] := by
  unfold numbers
  rw [List.filter_append, List.map_append]
  cases h : m.call.isIBlock && m.success with
  | true => simp [h]
  | false => simp [h]

theorem Numbered.append_other (h : Numbered made) (hm : m.call.isIBlock = false) :
    Numbered (made ++ [m]) where
  marked m' hm' := by
    rcases List.mem_append.1 hm' with hm' | hm'
    · exact h.marked m' hm'
    · rw [List.mem_singleton.1 hm']
      intro hi
      rw [hm] at hi
      cases hi
  alternating := by
    rw [numbers_append, hm]
    simpa using h.alternating

theorem Ready.numbered {session : Session} (h : Ready session) : Numbered session.made :=
  ⟨h.marked, h.alternating.of_append⟩

theorem Ready.append {session : Session} (h : Ready session) (hm : Marked m)
    (hnumber : m.pcb &&& 0x01 = session.layer.pcb &&& 0x01) :
    Numbered (session.made ++ [m]) where
  marked m' hm' := by
    rcases List.mem_append.1 hm' with hm' | hm'
    · exact h.marked m' hm'
    · rw [List.mem_singleton.1 hm']
      exact hm
  alternating := by
    rw [numbers_append, hnumber]
    split_ifs
    · exact h.alternating
    · rw [List.append_nil]
      exact h.alternating.of_append

/-! ## One exchange -/

theorem Call.send_eq (call : Call) : call.send layer txBuffer rxBuffer outcomes =
    sendBlock (call.prepare layer (txBuffer.sizeBytes ≠ 0)) txBuffer rxBuffer outcomes := by
  cases call <;> rfl

theorem exchange_head {block : BitBuffer} {exchanged : Exchanged}
    (h : exchange block outcomes = some exchanged) : exchanged.sent.head? = some block.bytes := by
  cases outcomes with
  | nil =>
    cases h
    rfl
  | cons outcome outcomes =>
    cases outcome with
    | error error =>
      cases h
      rfl
    | ok received =>
      rw [exchange] at h
      split_ifs at h
      · simp only [Option.bind_eq_bind, Option.bind_eq_some_iff] at h
        obtain ⟨byte, -, h⟩ := h
        split_ifs at h
        · cases h
          rfl
        · simp only [Option.bind_eq_some_iff] at h
          obtain ⟨_, -, _, -, _, -, h⟩ := h
          cases h
          rfl
      · cases h
        rfl

theorem exchange_response : ∀ {outcomes : List (Except Iso14443_3aError BitBuffer)}
    {block rx : BitBuffer} {exchanged : Exchanged}, response outcomes = some rx →
    exchange block outcomes = some exchanged → exchanged.answer = .received rx
  | .ok received :: outcomes, block, rx, exchanged, hresponse, h => by
    rw [response] at hresponse
    rw [exchange] at h
    split_ifs at hresponse h with hstarts hwtxm
    · simp only [Option.bind_eq_bind, Option.bind_eq_some_iff] at h
      obtain ⟨byte, hbyte, h⟩ := h
      have hbyte' : received.data.getD 1 0 = byte := by
        rw [List.getD_eq_getElem?_getD]
        exact congrArg (Option.getD · 0) hbyte
      rw [hbyte'] at hwtxm
      rw [if_neg hwtxm] at h
      simp only [Option.bind_eq_some_iff] at h
      obtain ⟨_, -, _, -, exchanged', hexchange, h⟩ := h
      cases h
      have hanswer := exchange_response hresponse hexchange
      exact hanswer
    · cases h
      cases hresponse
      rfl

/-- What a block that is sent has for its PCB, and what the layer makes of the answer. -/
theorem sendBlock_spec {r : SendResult} (h : sendBlock layer txBuffer rxBuffer outcomes = some r) :
    (r.sent.headD []).headD 0 = layer.pcb ∧
      ∀ rx, response outcomes = some rx → ∃ ok out,
        (layer.updatePcb true).decodeResponse rxBuffer rx = some (ok, out, r.layer) ∧
          r.error = some (if ok then .none else .protocol) := by
  have htx : txBuffer.sizeBytes < ISO14443_4A_POLLER_BUF_SIZE := by
    have hsend := h
    rw [sendBlock, Option.bind_eq_bind, Option.bind_eq_some_iff] at hsend
    obtain ⟨encoded, hencoded, -⟩ := hsend
    exact room_of_encodeCommand hencoded
  obtain ⟨block, hblock, -, hbytes⟩ := encodeCommand_eq layer htx
  simp only [sendBlock, hblock, Option.bind_eq_bind, Option.bind_some, receive,
    Option.bind_eq_some_iff] at h
  obtain ⟨exchanged, hexchange, h⟩ := h
  have hhead : (exchanged.sent.headD []).headD 0 = layer.pcb := by
    obtain ⟨sent, hsent⟩ := List.head?_eq_some_iff.1 (exchange_head hexchange)
    rw [hsent, hbytes]
    rfl
  cases hanswer : exchanged.answer with
  | waiting =>
    rw [hanswer] at h
    cases h
    refine ⟨hhead, fun rx hrx => ?_⟩
    rw [exchange_response hrx hexchange] at hanswer
    cases hanswer
  | failed error =>
    rw [hanswer] at h
    cases h
    refine ⟨hhead, fun rx hrx => ?_⟩
    rw [exchange_response hrx hexchange] at hanswer
    cases hanswer
  | received rx' =>
    rw [hanswer] at h
    simp only [Option.bind_eq_some_iff] at h
    obtain ⟨⟨ok, out, layer'⟩, hdecoded, h⟩ := h
    cases h
    refine ⟨hhead, fun rx hrx => ?_⟩
    rw [exchange_response hrx hexchange, Answer.received.injEq] at hanswer
    subst hanswer
    exact ⟨ok, out, hdecoded, rfl⟩

/-! ## The PCB of a layer that is ready -/

theorem marked_prepare {pcb : UInt8} (h : layer.pcb = 0x02 ∨ layer.pcb = 0x03)
    (hcall : call.isIBlock = true) (cidPresent : Bool)
    (hpcb : pcb = (call.prepare layer cidPresent).pcb) :
    pcbIsIBlock pcb = true ∧ pcbIsChainActive pcb = decide (call = .chainBlock) ∧
      pcb &&& 0x01 = layer.pcb &&& 0x01 := by
  subst hpcb
  cases call with
  | block =>
    simp only [Call.prepare]
    rcases h with h | h <;> rw [h] <;> decide
  | chainBlock =>
    simp only [Call.prepare, Iso14443_4Layer.setIBlock]
    rcases h with h | h <;> rw [h] <;> decide
  | receiveReadyBlock _ => cases hcall
  | supervisoryBlock _ => cases hcall

theorem decodeResponse_block {rx out : BitBuffer} {ok : Bool} {layer' : Iso14443_4Layer}
    (h : layer.pcb = 0x02 ∨ layer.pcb = 0x03) (hrx : rx.startsWithByte layer.pcb = true)
    (hdecode : (layer.updatePcb true).decodeResponse rxBuffer rx = some (ok, out, layer')) :
    ok = true ∧ layer'.pcb = layer.pcb ^^^ 0x01 := by
  have hr : pcbIsRBlock layer.pcb = false := by rcases h with h | h <;> rw [h] <;> decide
  have hchain : pcbIsChainActive layer.pcb = false := by rcases h with h | h <;> rw [h] <;> decide
  have hs : pcbIsSBlock layer.pcb = false := by rcases h with h | h <;> rw [h] <;> decide
  simp only [Iso14443_4Layer.decodeResponse, Iso14443_4Layer.updatePcb, hr, hchain, hs, hrx,
    Bool.not_true, Bool.false_eq_true, if_false, if_true, Option.map_eq_some_iff,
    Prod.mk.injEq] at hdecode
  obtain ⟨_, -, hok, -, rfl⟩ := hdecode
  exact ⟨hok.symm, rfl⟩

theorem decodeResponse_chainBlock {rx out : BitBuffer} {ok : Bool} {layer' : Iso14443_4Layer}
    (h : layer.pcb = 0x02 ∨ layer.pcb = 0x03)
    (hrx : Iso14443_4Layer.isAck (Iso14443_4Layer.getResponsePcb rx) = true)
    (hdecode : ((layer.setIBlock true false).updatePcb true).decodeResponse rxBuffer rx =
      some (ok, out, layer')) :
    ok = true ∧ layer'.pcb = layer.pcb ^^^ 0x01 := by
  have hr : pcbIsRBlock (layer.setIBlock true false).pcb = false := by
    simp only [Iso14443_4Layer.setIBlock]
    rcases h with h | h <;> rw [h] <;> decide
  have hchain : pcbIsChainActive (layer.setIBlock true false).pcb = true := by
    simp only [Iso14443_4Layer.setIBlock]
    rcases h with h | h <;> rw [h] <;> decide
  have hpcb : ((layer.setIBlock true false).pcb ^^^ 0x01) &&&
      ~~~ISO14443_4_BLOCK_PCB_I_CHAIN_MASK = layer.pcb ^^^ 0x01 := by
    simp only [Iso14443_4Layer.setIBlock]
    rcases h with h | h <;> rw [h] <;> decide
  simp only [Iso14443_4Layer.decodeResponse, Iso14443_4Layer.updatePcb, hr, hchain, hrx,
    Bool.false_eq_true, if_false, if_true, Option.some.injEq, Prod.mk.injEq] at hdecode
  obtain ⟨hok, -, rfl⟩ := hdecode
  exact ⟨hok.symm, hpcb⟩

theorem decodeResponse_receiveReadyBlock {rx out : BitBuffer} {ok acknowledged cidPresent : Bool}
    {layer' : Iso14443_4Layer} (h : layer.pcb = 0x02 ∨ layer.pcb = 0x03)
    (hdecode : ((layer.setRBlock acknowledged cidPresent).updatePcb true).decodeResponse rxBuffer
      rx = some (ok, out, layer')) : layer'.pcb = layer.pcb := by
  have hr : pcbIsRBlock (layer.setRBlock acknowledged cidPresent).pcb = true := by
    simp only [Iso14443_4Layer.setRBlock]
    cases acknowledged <;> cases cidPresent <;> rcases h with h | h <;> rw [h] <;> decide
  have hpcb : (((layer.setRBlock acknowledged cidPresent).pcb ^^^ 0x01) &&&
      ISO14443_4_BLOCK_PCB_MASK) ^^^ 0x01 = layer.pcb := by
    simp only [Iso14443_4Layer.setRBlock]
    cases acknowledged <;> cases cidPresent <;> rcases h with h | h <;> rw [h] <;> decide
  simp only [Iso14443_4Layer.decodeResponse, Iso14443_4Layer.updatePcb, hr, if_true,
    Option.some.injEq, Prod.mk.injEq] at hdecode
  obtain ⟨-, -, rfl⟩ := hdecode
  exact hpcb

theorem other_pcb {pcb : UInt8} (h : pcb = 0x02 ∨ pcb = 0x03) :
    pcb ^^^ 0x01 = 0x02 ∨ pcb ^^^ 0x01 = 0x03 := by
  rcases h with rfl | rfl
  · exact .inr rfl
  · exact .inl rfl

theorem other_number {pcb : UInt8} (h : pcb = 0x02 ∨ pcb = 0x03) :
    (pcb ^^^ 0x01) &&& 0x01 = (pcb &&& 0x01) ^^^ 0x01 := by
  rcases h with rfl | rfl
  · rfl
  · rfl

/-! ## Sessions -/

theorem Ready.succ {session : Session} (h : Ready session) {layer : Iso14443_4Layer} {m : Made}
    (hm : Numbered (session.made ++ [m])) (hcall : m.call.isIBlock = true)
    (hsuccess : m.success = true) (hnumber : m.pcb &&& 0x01 = session.layer.pcb &&& 0x01)
    (hpcb : layer.pcb = session.layer.pcb ^^^ 0x01) : Ready ⟨layer, session.made ++ [m]⟩ where
  pcb := by
    rw [hpcb]
    exact other_pcb h.pcb
  marked := hm.marked
  alternating := by
    rw [numbers_append, hcall, hsuccess, hnumber, hpcb, other_number h.pcb]
    exact h.alternating.snoc

theorem step_spec {session : Session} (h : Ready session) (exchange : Exchange) :
    Yields (fun session' => Numbered session'.made ∧
        (exchange.Restores session.layer → Ready session')) Numbered (session.step exchange) := by
  unfold Session.step
  cases hsend : exchange.call.send session.layer exchange.txBuffer exchange.rxBuffer
      exchange.outcomes with
  | none => exact h.numbered
  | some r =>
    rw [Call.send_eq] at hsend
    obtain ⟨hpcb, hanswer⟩ := sendBlock_spec hsend
    obtain ⟨m, hm⟩ : ∃ m : Made, m =
      ⟨exchange.call, (r.sent.headD []).headD 0, r.error == some .none⟩ := ⟨_, rfl⟩
    have hmpcb : m.pcb = (exchange.call.prepare session.layer
        (exchange.txBuffer.sizeBytes ≠ 0)).pcb := by
      rw [hm]
      exact hpcb
    have hcall : m.call = exchange.call := by rw [hm]
    have hnumbered : Numbered (session.made ++ [m]) := by
      cases hi : exchange.call.isIBlock with
      | false => exact h.numbered.append_other (hcall ▸ hi)
      | true =>
        obtain ⟨hblock, hchain, hnumber⟩ := marked_prepare h.pcb hi _ hmpcb
        exact h.append (fun _ => ⟨hblock, hcall ▸ hchain⟩) hnumber
    dsimp only
    rw [← hm]
    by_cases hwaiting : r.error = none
    · rw [if_pos hwaiting]
      exact hnumbered
    · rw [if_neg hwaiting]
      refine ⟨hnumbered, fun hrestores => ?_⟩
      unfold Exchange.Restores at hrestores
      cases hkind : exchange.call with
      | block =>
        rw [hkind] at hrestores hanswer hmpcb
        obtain ⟨rx, hrx, hstarts⟩ := hrestores
        obtain ⟨ok, out, hdecode, herror⟩ := hanswer rx hrx
        obtain ⟨rfl, hlayer⟩ := decodeResponse_block h.pcb hstarts hdecode
        refine h.succ hnumbered (by rw [hcall, hkind]; rfl) (by rw [hm, herror]; rfl) ?_ hlayer
        exact (marked_prepare h.pcb rfl _ hmpcb).2.2
      | chainBlock =>
        rw [hkind] at hrestores hanswer hmpcb
        obtain ⟨rx, hrx, hack⟩ := hrestores
        obtain ⟨ok, out, hdecode, herror⟩ := hanswer rx hrx
        obtain ⟨rfl, hlayer⟩ := decodeResponse_chainBlock h.pcb hack hdecode
        refine h.succ hnumbered (by rw [hcall, hkind]; rfl) (by rw [hm, herror]; rfl) ?_ hlayer
        exact (marked_prepare h.pcb rfl _ hmpcb).2.2
      | receiveReadyBlock acknowledged =>
        rw [hkind] at hrestores hanswer
        obtain ⟨rx, hrx⟩ := hrestores
        obtain ⟨ok, out, hdecode, -⟩ := hanswer rx hrx
        have hlayer := decodeResponse_receiveReadyBlock h.pcb hdecode
        refine ⟨by rw [hlayer]; exact h.pcb, hnumbered.marked, ?_⟩
        rw [numbers_append, hcall, hkind, hlayer]
        simpa [Call.isIBlock] using h.alternating
      | supervisoryBlock deselect =>
        rw [hkind] at hrestores
        exact absurd hrestores id

theorem exec_other : ∀ (exchanges : List Exchange) {session : Session}, Numbered session.made →
    (∀ later ∈ exchanges, later.call.isIBlock = false) →
    Yields (fun session' => Numbered session'.made) Numbered
      (exec Session.step session exchanges)
  | [], _, h, _ => h
  | exchange :: exchanges, session, h, hother => by
    have hnumbered := h.append_other
      (m := ⟨exchange.call, (((exchange.call.send session.layer exchange.txBuffer exchange.rxBuffer
        exchange.outcomes).map SendResult.sent).getD []).headD [] |>.headD 0,
        ((exchange.call.send session.layer exchange.txBuffer exchange.rxBuffer
          exchange.outcomes).bind SendResult.error) == some .none⟩)
      (hother exchange List.mem_cons_self)
    rw [exec, List.foldlM_cons]
    unfold Session.step
    cases hsend : exchange.call.send session.layer exchange.txBuffer exchange.rxBuffer
        exchange.outcomes with
    | none => exact h
    | some r =>
      rw [hsend] at hnumbered
      dsimp only
      by_cases hwaiting : r.error = none
      · rw [if_pos hwaiting]
        exact hnumbered
      · rw [if_neg hwaiting]
        exact exec_other exchanges hnumbered fun later hlater =>
          hother later (List.mem_cons_of_mem exchange hlater)

theorem exec_ready : ∀ (exchanges : List Exchange) {session : Session}, Ready session →
    Tidy session exchanges →
    Yields (fun session' => Numbered session'.made) Numbered
      (exec Session.step session exchanges)
  | [], _, h, _ => h.numbered
  | exchange :: exchanges, session, h, ⟨hfirst, hrest⟩ => by
    have hstep := step_spec h exchange
    rw [exec, List.foldlM_cons]
    cases hs : session.step exchange with
    | error made =>
      rw [hs] at hstep
      exact hstep
    | ok session' =>
      rw [hs] at hstep
      obtain ⟨hnumbered, hready⟩ := hstep
      rcases hfirst with hrestores | hother
      · exact exec_ready exchanges (hready hrestores) (hrest session' hs)
      · exact exec_other exchanges hnumbered hother

/-- From a layer that was reset, and as long as no I-block is sent after an exchange that does not
restore it, all that is sent as an I-block is one, and their numbers alternate. -/
theorem block_numbers_alternate (exchanges : List Exchange)
    (h : Tidy ⟨.reset, []⟩ exchanges) :
    Yields (fun session => Numbered session.made) Numbered
      (exec Session.step ⟨.reset, []⟩ exchanges) :=
  exec_ready exchanges ⟨.inl rfl, nofun, rfl, trivial⟩ h

set_option maxRecDepth 8000 in
/-- Two I-blocks in a row, each answered by one with its PCB. -/
theorem block_numbers_alternate_two : Yields (fun session => Numbered session.made) Numbered
    (exec Session.step ⟨.reset, []⟩
      [⟨.block, .alloc 1, .alloc 4, [.ok (frame [0x02, 0x90] [])]⟩,
        ⟨.block, .alloc 1, .alloc 4, [.ok (frame [0x03, 0x90] [])]⟩]) := by
  refine block_numbers_alternate _ ⟨.inl ⟨_, rfl, rfl⟩, fun session' hsession' => ?_⟩
  have hstep : (Session.mk .reset []).step
      ⟨.block, .alloc 1, .alloc 4, [.ok (frame [0x02, 0x90] [])]⟩ =
        .ok ⟨⟨0x03, 0x02, 0xFF, 0xFF, true⟩, [⟨.block, 0x02, true⟩]⟩ := rfl
  rw [hstep] at hsession'
  cases hsession'
  exact ⟨.inl ⟨_, rfl, rfl⟩, fun _ _ => trivial⟩

set_option maxRecDepth 8000 in
/-- The deselection of the card is answered, then a block is sent: an S-block again. -/
theorem supervisory_block_stays :
    exec Session.step ⟨.reset, []⟩
      [⟨.supervisoryBlock true, .alloc 0, .alloc 4, [.ok (frame [0xC2] [])]⟩,
        ⟨.block, .alloc 1, .alloc 4, [.error .timeout]⟩] =
      .ok ⟨⟨0xC2, 0xC3, 0xFF, 0xFF, true⟩,
        [⟨.supervisoryBlock true, 0xC2, true⟩, ⟨.block, 0xC3, false⟩]⟩ ∧
    ¬ Numbered [⟨.supervisoryBlock true, 0xC2, true⟩, ⟨.block, 0xC3, false⟩] := by
  refine ⟨rfl, fun h => ?_⟩
  exact absurd (h.marked ⟨.block, 0xC3, false⟩ (by simp) rfl).1 (by decide)

end Iso14443_4aPoller

end KiisuFirmware
