import KiisuFirmware.Proofs.Iso14443Layer

/-!
# The exchanges of the poller

First what the poller makes of the frames it receives: it is sound on a list of them just if each
request for more time has the time in it, and the response the layer decodes is long enough.
-/

namespace KiisuFirmware

open BitBuffer

namespace Iso14443_4aPoller

/-- The buffer that comes out of an exchange has these bytes inside its size, or there is none. -/
inductive Carries : Except Iso14443_3aError BitBuffer → Except Iso14443_3aError (List UInt8) → Prop
  | error (error : Iso14443_3aError) : Carries (.error error) (.error error)
  | frame {inside stale : List UInt8}
      (h : inside.length + stale.length = ISO14443_4A_POLLER_BUF_SIZE) :
      Carries (.ok (BitBuffer.frame inside stale)) (.ok inside)

/-- A frame is received with something in it, and with room for it. -/
def Receivable : Except Iso14443_3aError (List UInt8) → Prop
  | .error _ => True
  | .ok inside => inside ≠ [] ∧ inside.length ≤ ISO14443_4A_POLLER_BUF_SIZE

/-- How much more time a frame asks for. -/
def wtxmOf (inside : List UInt8) : UInt8 := inside.getD 1 0 &&& ISO14443_4A_WTXM_MASK

/-- Every request for more time says how much, and the response is long enough. -/
def AnswersFit (layer : Iso14443_4Layer) (capacity : ℕ) :
    List (Except Iso14443_3aError (List UInt8)) → Prop
  | [] => True
  | .error _ :: _ => True
  | .ok inside :: insides =>
    if inside.head? = some ISO14443_4A_SWTX then
      1 < inside.length ∧
        (¬ISO14443_4A_WTXM_MAX < wtxmOf inside → AnswersFit layer capacity insides)
    else layer.ResponseFits capacity inside

variable {layer : Iso14443_4Layer} {block rxBuffer : BitBuffer} {inside stale : List UInt8}
  {outcomes : List (Except Iso14443_3aError BitBuffer)}
  {insides : List (Except Iso14443_3aError (List UInt8))}

/-- A filling in of what is stale. -/
def fill : Except Iso14443_3aError (List UInt8) → Except Iso14443_3aError BitBuffer
  | .error error => .error error
  | .ok inside =>
    .ok (frame inside (List.replicate (ISO14443_4A_POLLER_BUF_SIZE - inside.length) 0))

theorem fill_carries_one {inside : Except Iso14443_3aError (List UInt8)} (h : Receivable inside) :
    Carries (fill inside) inside := by
  cases inside with
  | error error => exact .error error
  | ok inside =>
    refine .frame ?_
    rw [List.length_replicate]
    exact Nat.add_sub_of_le h.2

theorem fill_carries : ∀ {insides : List (Except Iso14443_3aError (List UInt8))},
    (∀ inside ∈ insides, Receivable inside) → List.Forall₂ Carries (insides.map fill) insides
  | [], _ => .nil
  | inside :: _, h => .cons (fill_carries_one (h inside List.mem_cons_self))
      (fill_carries fun i hi => h i (List.mem_cons_of_mem inside hi))

/-! ## One frame -/

theorem receive_response (h : (frame inside stale).startsWithByte ISO14443_4A_SWTX = false) :
    receive layer block rxBuffer (.ok (frame inside stale) :: outcomes) =
      (layer.decodeResponse rxBuffer (frame inside stale)).map fun decoded =>
        ⟨[block.bytes], some (if decoded.1 then .none else .protocol), decoded.2.1,
          decoded.2.2⟩ := by
  simp only [receive, exchange, h, Bool.false_eq_true, if_false, Option.bind_eq_bind,
    Option.bind_some]
  rw [Option.map_eq_bind]
  rfl

theorem receive_refused (h : (frame inside stale).startsWithByte ISO14443_4A_SWTX = true)
    (byte : UInt8) (hbyte : (frame inside stale).getByte 1 = some byte)
    (hwtxm : ISO14443_4A_WTXM_MAX < byte &&& ISO14443_4A_WTXM_MASK) :
    receive layer block rxBuffer (.ok (frame inside stale) :: outcomes) =
      some ⟨[block.bytes], some .protocol, rxBuffer, layer⟩ := by
  simp only [receive, exchange, h, hbyte, if_true, if_pos hwtxm, Option.bind_eq_bind,
    Option.bind_some, Option.pure_def]

theorem exists_wtxBuffer (hblock : 2 ≤ block.capacityBytes) (hinside : inside ≠ []) (wtxm : UInt8) :
    ∃ copied wtxBuffer, (∀ stale, block.reset.copyLeft (frame inside stale) 1 = some copied) ∧
      copied.appendByte wtxm = some wtxBuffer ∧
      wtxBuffer.capacityBytes = block.capacityBytes := by
  have hcapacity : block.reset.capacityBytes = block.capacityBytes := List.length_replicate
  have hpos := List.length_pos_iff.2 hinside
  obtain ⟨copied, hput, hdata, hsize⟩ := put_eq (inside.take 1)
    (Nat.zero_le block.reset.capacityBytes)
    (Nat.mul_le_mul_right BITS_IN_BYTE (by rw [hcapacity]; omega : 1 ≤ _))
  have hcopied : copied.capacityBytes = block.capacityBytes := by
    rw [capacityBytes, hdata, length_overwrite (Nat.zero_le _), List.length_take]
    change max block.reset.capacityBytes _ = _
    rw [hcapacity]
    omega
  have hbytes : copied.sizeBytes = 1 := by
    rw [sizeBytes, hsize]
    rfl
  obtain ⟨wtxBuffer, hwtx, hdata', -⟩ := put_eq [wtxm]
    (by rw [hcopied]; omega : 1 ≤ copied.capacityBytes)
    (Nat.mul_le_mul_right BITS_IN_BYTE (by rw [hcopied]; omega : 2 ≤ _))
  refine ⟨copied, wtxBuffer, fun stale => ?_, ?_, ?_⟩
  · unfold copyLeft
    rw [sizeBytes_frame, if_neg (by rw [hcapacity]; omega), if_neg (by omega)]
    rw [← hput]
    congr 1
    exact List.take_append_of_le_length hpos
  · unfold appendByte
    rw [hbytes, if_pos (by rw [hcopied]; omega)]
    exact hwtx
  · rw [capacityBytes, hdata', length_overwrite (by change 1 ≤ copied.capacityBytes; omega)]
    change max copied.capacityBytes _ = _
    rw [hcopied, List.length_singleton]
    omega

theorem receive_wtx (h : (frame inside stale).startsWithByte ISO14443_4A_SWTX = true)
    (byte : UInt8) (hbyte : (frame inside stale).getByte 1 = some byte)
    (hwtxm : ¬ISO14443_4A_WTXM_MAX < byte &&& ISO14443_4A_WTXM_MASK) {copied wtxBuffer : BitBuffer}
    (hcopied : block.reset.copyLeft (frame inside stale) 1 = some copied)
    (hwtx : copied.appendByte (byte &&& ISO14443_4A_WTXM_MASK) = some wtxBuffer) :
    receive layer block rxBuffer (.ok (frame inside stale) :: outcomes) =
      (receive layer wtxBuffer rxBuffer outcomes).map fun r =>
        { r with sent := block.bytes :: r.sent } := by
  simp only [receive, exchange, h, hbyte, if_true, if_neg hwtxm, hcopied, hwtx,
    Option.bind_eq_bind, Option.bind_some, Option.pure_def]
  cases hexchange : exchange wtxBuffer outcomes with
  | none => rfl
  | some exchanged =>
    simp only [Option.bind_some]
    cases exchanged.answer with
    | waiting => rfl
    | failed error => rfl
    | received response =>
      simp only
      cases layer.decodeResponse rxBuffer response with
      | none => rfl
      | some decoded => rfl

/-! ## All of them -/

theorem exchange_sent_ne_nil {exchanged : Exchanged} (h : exchange block outcomes = some exchanged) :
    exchanged.sent ≠ [] := by
  cases outcomes with
  | nil =>
    rw [exchange, Option.some.injEq] at h
    rw [← h]
    exact List.cons_ne_nil _ _
  | cons outcome outcomes =>
    cases outcome with
    | error error =>
      rw [exchange, Option.some.injEq] at h
      rw [← h]
      exact List.cons_ne_nil _ _
    | ok response =>
      rw [exchange] at h
      split_ifs at h
      · simp only [Option.bind_eq_bind, Option.bind_eq_some_iff] at h
        obtain ⟨byte, -, h⟩ := h
        split_ifs at h
        · cases h
          exact List.cons_ne_nil _ _
        · simp only [Option.bind_eq_some_iff] at h
          obtain ⟨_, -, _, -, _, -, h⟩ := h
          cases h
          exact List.cons_ne_nil _ _
      · cases h
        exact List.cons_ne_nil _ _

theorem receive_sent_ne_nil {r : SendResult} (h : receive layer block rxBuffer outcomes = some r) :
    r.sent ≠ [] := by
  simp only [receive, Option.bind_eq_bind, Option.bind_eq_some_iff] at h
  obtain ⟨exchanged, hexchange, h⟩ := h
  have hsent := exchange_sent_ne_nil hexchange
  cases hanswer : exchanged.answer with
  | waiting =>
    rw [hanswer] at h
    cases h
    exact hsent
  | failed error =>
    rw [hanswer] at h
    cases h
    exact hsent
  | received response =>
    rw [hanswer] at h
    simp only [Option.bind_eq_some_iff] at h
    obtain ⟨_, -, h⟩ := h
    cases h
    exact hsent

theorem getD_of_lt {i : ℕ} (h : i < inside.length) : inside[i]? = some (inside.getD i 0) := by
  rw [List.getD_eq_getElem?_getD, List.getElem?_eq_getElem h, Option.getD_some]

/-- What the poller receives is enough for it, and stale bytes have no part in what it makes of it,
just if the frames go on as far as they are read. -/
theorem receive_sound_iff : ∀ {insides : List (Except Iso14443_3aError (List UInt8))}
    {block : BitBuffer}, 2 ≤ block.capacityBytes → (∀ inside ∈ insides, Receivable inside) →
    ((∃ r, ∀ outcomes, List.Forall₂ Carries outcomes insides →
      receive layer block rxBuffer outcomes = some r) ↔
      AnswersFit layer rxBuffer.capacityBytes insides)
  | [], block, _, _ => by
    refine iff_of_true ⟨⟨[block.bytes], none, rxBuffer, layer⟩, fun outcomes houtcomes => ?_⟩ trivial
    cases houtcomes
    rfl
  | .error error :: insides, block, _, _ => by
    refine iff_of_true ⟨⟨[block.bytes], some (.process error), rxBuffer, layer⟩, ?_⟩ trivial
    intro outcomes houtcomes
    cases houtcomes with
    | cons hfirst _ =>
      cases hfirst
      rfl
  | .ok inside :: insides, block, hblock, hreceivable => by
    obtain ⟨hne, hlen⟩ : Receivable (.ok inside) := hreceivable _ List.mem_cons_self
    have hrest : ∀ i ∈ insides, Receivable i :=
      fun i hi => hreceivable i (List.mem_cons_of_mem _ hi)
    have hfill : List.Forall₂ Carries (insides.map fill) insides := fill_carries hrest
    unfold AnswersFit
    by_cases hhead : inside.head? = some ISO14443_4A_SWTX
    · rw [if_pos hhead]
      have hstarts : ∀ stale, (frame inside stale).startsWithByte ISO14443_4A_SWTX = true := by
        intro stale
        rw [startsWithByte_frame, hhead]
        exact beq_self_eq_true _
      by_cases hlong : 1 < inside.length
      · rw [and_iff_right hlong]
        have hbyte : ∀ stale, (frame inside stale).getByte 1 = some (inside.getD 1 0) := by
          intro stale
          rw [getByte_frame hlong, getD_of_lt hlong]
        by_cases hwtxm : ISO14443_4A_WTXM_MAX < wtxmOf inside
        · refine iff_of_true ⟨⟨[block.bytes], some .protocol, rxBuffer, layer⟩,
            fun outcomes houtcomes => ?_⟩ fun h => absurd hwtxm h
          cases houtcomes with
          | cons hfirst _ =>
            cases hfirst
            exact receive_refused (hstarts _) _ (hbyte _) hwtxm
        · obtain ⟨copied, wtxBuffer, hcopied, hwtx, hcapacity⟩ :=
            exists_wtxBuffer hblock hne (wtxmOf inside)
          rw [forall_prop_of_true hwtxm,
            ← receive_sound_iff (hcapacity ▸ hblock : 2 ≤ wtxBuffer.capacityBytes) hrest]
          have hstep : ∀ stale outcomes,
              receive layer block rxBuffer (.ok (frame inside stale) :: outcomes) =
                (receive layer wtxBuffer rxBuffer outcomes).map fun r =>
                  { r with sent := block.bytes :: r.sent } :=
            fun stale outcomes =>
              receive_wtx (hstarts stale) _ (hbyte stale) hwtxm (hcopied stale) hwtx
          constructor
          · rintro ⟨r, hr⟩
            refine ⟨{ r with sent := r.sent.tail }, fun outcomes houtcomes => ?_⟩
            have hall := hr _ (.cons (fill_carries_one (hreceivable _ List.mem_cons_self)) houtcomes)
            rw [fill, hstep] at hall
            obtain ⟨r', hr', rfl⟩ := Option.map_eq_some_iff.1 hall
            exact hr'
          · rintro ⟨r, hr⟩
            refine ⟨{ r with sent := block.bytes :: r.sent }, fun outcomes houtcomes => ?_⟩
            cases houtcomes with
            | cons hfirst houtcomes =>
              cases hfirst
              rw [hstep, hr _ houtcomes]
              rfl
      · refine iff_of_false ?_ fun h => hlong h.1
        rintro ⟨r, hr⟩
        obtain ⟨first, rest, rfl⟩ := List.exists_cons_of_ne_nil hne
        obtain rfl : rest = [] := by
          rw [List.length_cons] at hlong
          exact List.length_eq_zero_iff.1 (by omega)
        have hcarries : ∀ byte : UInt8, Carries
            (.ok (frame [first] (byte :: List.replicate 254 0))) (.ok [first]) :=
          fun byte => .frame (Iso14443_4Layer.length_singleton_stale first byte)
        have hmore := hr _ (.cons (hcarries 0x3F) hfill)
        have hless := hr _ (.cons (hcarries 0) hfill)
        obtain ⟨copied, wtxBuffer, hcopied, hwtx, -⟩ :=
          exists_wtxBuffer hblock hne (0 &&& ISO14443_4A_WTXM_MASK)
        rw [receive_refused (hstarts _) 0x3F rfl (by decide)] at hmore
        rw [receive_wtx (hstarts _) 0 rfl (by decide) (hcopied _) hwtx] at hless
        obtain ⟨r', hr', hrr'⟩ := Option.map_eq_some_iff.1 hless
        rw [← hrr', Option.some.injEq, SendResult.mk.injEq] at hmore
        refine receive_sent_ne_nil hr' ?_
        simpa using hmore.1.symm
    · rw [if_neg hhead]
      have hstarts : ∀ stale, (frame inside stale).startsWithByte ISO14443_4A_SWTX = false := by
        intro stale
        rw [startsWithByte_frame]
        simpa using hhead
      rw [← Iso14443_4Layer.decodeResponse_isSome []]
      constructor
      · rintro ⟨r, hr⟩
        have hall := hr _ (.cons (fill_carries_one (hreceivable _ List.mem_cons_self)) hfill)
        rw [fill, receive_response (hstarts _), Iso14443_4Layer.decodeResponse_frame hne] at hall
        obtain ⟨decoded, hdecoded, -⟩ := Option.map_eq_some_iff.1 hall
        exact ⟨decoded, hdecoded⟩
      · rintro ⟨decoded, hdecoded⟩
        refine ⟨⟨[block.bytes], some (if decoded.1 then .none else .protocol), decoded.2.1,
          decoded.2.2⟩, fun outcomes houtcomes => ?_⟩
        cases houtcomes with
        | cons hfirst houtcomes =>
          cases hfirst
          rw [receive_response (hstarts _), Iso14443_4Layer.decodeResponse_frame hne, hdecoded]
          rfl

/-! ## Encoding -/

theorem alloc_appendByte (byte : UInt8) :
    ∃ first, (BitBuffer.alloc ISO14443_4A_POLLER_BUF_SIZE).appendByte byte = some first ∧
      first.capacityBytes = ISO14443_4A_POLLER_BUF_SIZE ∧ first.sizeBits = 1 * BITS_IN_BYTE ∧
      first.sizeBytes = 1 ∧ first.data.take 1 = [byte] := by
  unfold ISO14443_4A_POLLER_BUF_SIZE
  have hcapacity : (BitBuffer.alloc 256).capacityBytes = 256 := List.length_replicate
  obtain ⟨first, hput, hdata, hsize⟩ := put_eq [byte]
    (Nat.zero_le (BitBuffer.alloc 256).capacityBytes)
    (Nat.mul_le_mul_right BITS_IN_BYTE (by rw [hcapacity]; omega : 1 ≤ _))
  refine ⟨first, ?_, ?_, hsize, ?_, ?_⟩
  · unfold appendByte
    rw [if_pos (by rw [hcapacity]; decide)]
    exact hput
  · rw [capacityBytes, hdata, length_overwrite (Nat.zero_le _)]
    change max (BitBuffer.alloc 256).capacityBytes _ = _
    rw [hcapacity]
    rfl
  · rw [sizeBytes, hsize]
    rfl
  · rw [hdata]
    rfl

theorem encodeCommand_eq (layer : Iso14443_4Layer) {txBuffer : BitBuffer}
    (h : txBuffer.sizeBytes < ISO14443_4A_POLLER_BUF_SIZE) :
    ∃ block, layer.encodeCommand txBuffer (.alloc ISO14443_4A_POLLER_BUF_SIZE) =
        some (block, layer.updatePcb true) ∧
      block.capacityBytes = ISO14443_4A_POLLER_BUF_SIZE ∧
      block.bytes = layer.pcb :: txBuffer.bytes := by
  have hfits : txBuffer.sizeBits ≤ txBuffer.sizeBytes * BITS_IN_BYTE := by
    unfold sizeBytes BITS_IN_BYTE
    split_ifs <;> omega
  obtain ⟨first, happendByte, hfirst, hsize, hone, htake⟩ := alloc_appendByte layer.pcb
  obtain ⟨block, hput, hdata, hsize'⟩ := put_eq txBuffer.bytes
    (by rw [hfirst]; decide : 1 ≤ first.capacityBytes)
    (by rw [hfirst, hsize]; unfold ISO14443_4A_POLLER_BUF_SIZE BITS_IN_BYTE at *; omega :
      first.sizeBits + txBuffer.sizeBits ≤ _)
  have hlen : 1 ≤ first.data.length := by
    change 1 ≤ first.capacityBytes
    rw [hfirst]
    decide
  refine ⟨block, ?_, ?_, ?_⟩
  · have happend : first.append txBuffer = some block := by
      unfold append
      rw [hone, hfirst, if_neg (by omega)]
      exact hput
    unfold Iso14443_4Layer.encodeCommand
    rw [happendByte, Option.bind_eq_bind, Option.bind_some, happend]
    rfl
  · rw [capacityBytes, hdata, length_overwrite hlen, length_bytes]
    change max first.capacityBytes _ = _
    rw [hfirst]
    omega
  · have hsizeBytes : block.sizeBytes = 1 + txBuffer.bytes.length := by
      rw [length_bytes, sizeBytes, sizeBytes, hsize', hsize]
      unfold BITS_IN_BYTE
      split_ifs <;> omega
    rw [BitBuffer.bytes, hsizeBytes, hdata, take_overwrite_length hlen, htake]
    rfl

theorem room_of_encodeCommand {txBuffer : BitBuffer} {encoded : BitBuffer × Iso14443_4Layer}
    {layer : Iso14443_4Layer}
    (h : layer.encodeCommand txBuffer (.alloc ISO14443_4A_POLLER_BUF_SIZE) = some encoded) :
    txBuffer.sizeBytes < ISO14443_4A_POLLER_BUF_SIZE := by
  obtain ⟨first, happendByte, hfirst, -, hone, -⟩ := alloc_appendByte layer.pcb
  by_contra hroom
  unfold Iso14443_4Layer.encodeCommand at h
  rw [happendByte, Option.bind_eq_bind, Option.bind_some, append, hone, hfirst,
    if_pos (by omega)] at h
  cases h

/-- What is received crashes neither side and stale bytes have no part in what becomes of it, just
if it goes on as far as it is read. -/
theorem received_frames_sound (layer : Iso14443_4Layer) :
    (∀ (blockData : BitBuffer) (bytes : List UInt8), bytes ≠ [] →
      bytes.length ≤ NFC_MAX_BUFFER_SIZE →
      blockData.capacityBytes = ISO14443_4A_LISTENER_BUF_SIZE →
      ((∃ r, ∀ stale, bytes.length + stale.length = NFC_MAX_BUFFER_SIZE →
        layer.decodeCommand (frame bytes stale) blockData = some r) ↔
        layer.CommandFits bytes)) ∧
    (∀ (outputData : BitBuffer) (bytes : List UInt8), bytes ≠ [] →
      ((∃ r, ∀ stale, layer.decodeResponse outputData (frame bytes stale) = some r) ↔
        layer.ResponseFits outputData.capacityBytes bytes)) ∧
    ∀ (txBuffer rxBuffer : BitBuffer) (insides : List (Except Iso14443_3aError (List UInt8))),
      txBuffer.sizeBytes < ISO14443_4A_POLLER_BUF_SIZE → (∀ inside ∈ insides, Receivable inside) →
      ((∃ r, ∀ outcomes, List.Forall₂ Carries outcomes insides →
        sendBlock layer txBuffer rxBuffer outcomes = some r) ↔
        AnswersFit (layer.updatePcb true) rxBuffer.capacityBytes insides) := by
  refine ⟨fun blockData bytes hbytes hlength hblock => ?_, fun outputData bytes hbytes => ?_,
    fun txBuffer rxBuffer insides htx hreceivable => ?_⟩
  · exact Iso14443_4Layer.decodeCommand_sound_iff layer hbytes hlength hblock
  · rw [← Iso14443_4Layer.decodeResponse_isSome []]
    constructor
    · rintro ⟨r, hr⟩
      exact ⟨r, hr []⟩
    · rintro ⟨r, hr⟩
      exact ⟨r, fun stale => (Iso14443_4Layer.decodeResponse_frame hbytes).trans hr⟩
  · obtain ⟨block, hblock, hcapacity, -⟩ := encodeCommand_eq layer htx
    rw [← receive_sound_iff (by rw [hcapacity]; decide : 2 ≤ block.capacityBytes) hreceivable]
    simp only [sendBlock, hblock, Option.bind_eq_bind, Option.bind_some]

theorem received_frames_sound_reset :
    (∃ r, ∀ stale, [2, 0x90].length + stale.length = NFC_MAX_BUFFER_SIZE →
      Iso14443_4Layer.reset.decodeCommand (frame [2, 0x90] stale)
        (.alloc ISO14443_4A_LISTENER_BUF_SIZE) = some r) ∧
    (∃ r, ∀ stale, (Iso14443_4Layer.reset.updatePcb true).decodeResponse
      (.alloc ISO14443_4A_POLLER_BUF_SIZE) (frame [2, 0x90] stale) = some r) ∧
    ∃ r, ∀ outcomes, List.Forall₂ Carries outcomes [.ok [0xF2, 1], .ok [2, 0x90]] →
      sendBlock .reset (.alloc 1) (.alloc ISO14443_4A_POLLER_BUF_SIZE) outcomes = some r := by
  have hcapacity : ∀ n, (BitBuffer.alloc n).capacityBytes = n := fun n => List.length_replicate
  refine ⟨?_, ?_, ?_⟩
  · refine ((received_frames_sound .reset).1 _ [2, 0x90] (List.cons_ne_nil _ _) (by decide)
      (hcapacity _)).2 ?_
    unfold Iso14443_4Layer.CommandFits
    decide
  · refine ((received_frames_sound _).2.1 _ _ (List.cons_ne_nil _ _)).2 ?_
    rw [hcapacity]
    unfold Iso14443_4Layer.ResponseFits
    decide
  · refine ((received_frames_sound .reset).2.2 _ _ _ (by decide) ?_).2 ?_
    · simp [Receivable, ISO14443_4A_POLLER_BUF_SIZE]
    · rw [hcapacity]
      rw [AnswersFit, if_pos (by decide)]
      refine ⟨by decide, fun _ => ?_⟩
      rw [AnswersFit, if_neg (by decide)]
      unfold Iso14443_4Layer.ResponseFits
      decide

/-- An I-block without a payload, received by either side. -/
theorem empty_block_crashes :
    Iso14443_4Layer.reset.decodeCommand (frame [2] (List.replicate 255 0))
      (.alloc ISO14443_4A_LISTENER_BUF_SIZE) = none ∧
    (Iso14443_4Layer.reset.updatePcb true).decodeResponse (.alloc ISO14443_4A_POLLER_BUF_SIZE)
      (frame [2] (List.replicate 255 0)) = none :=
  ⟨rfl, rfl⟩

end Iso14443_4aPoller

end KiisuFirmware
