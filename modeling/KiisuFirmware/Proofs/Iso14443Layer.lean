import KiisuFirmware.Iso14443Layer
import KiisuFirmware.Proofs.BitBuffer

/-!
# Received blocks and the checks they meet

A received frame is the bytes inside the size of a buffer; what is behind them is stale. A function
is sound on a frame if it has a result and the same one whatever is stale. The layer is, but for
frames that end before the part of them it goes on to read.
-/

namespace KiisuFirmware

namespace BitBuffer

variable {buf : BitBuffer} {inside stale : List UInt8} {k : ℕ}

theorem sizeBytes_frame : (frame inside stale).sizeBytes = inside.length := by
  simp [sizeBytes, frame, BITS_IN_BYTE]

theorem bytes_frame : (frame inside stale).bytes = inside := by
  rw [bytes, sizeBytes_frame]
  exact List.take_left

theorem capacityBytes_frame : (frame inside stale).capacityBytes = inside.length + stale.length :=
  List.length_append

theorem getByte_frame (hk : k < inside.length) : (frame inside stale).getByte k = inside[k]? :=
  List.getElem?_append_left hk

theorem getByte_stale (hk : inside.length ≤ k) :
    (frame inside stale).getByte k = stale[k - inside.length]? :=
  List.getElem?_append_right hk

theorem getByte_isSome (buf : BitBuffer) (hk : k < buf.capacityBytes) : ∃ byte, buf.getByte k = some byte :=
  ⟨_, List.getElem?_eq_getElem hk⟩

theorem startsWithByte_frame (byte : UInt8) :
    (frame inside stale).startsWithByte byte = (inside.head? == some byte) := by
  rw [startsWithByte, sizeBytes_frame]
  cases inside with
  | nil => rfl
  | cons first inside => simp [frame]

theorem copyRight_frame (stale : List UInt8) :
    buf.copyRight (frame inside stale) k = buf.copyRight (frame inside []) k := by
  unfold copyRight
  simp only [sizeBytes_frame]
  by_cases hk : inside.length ≤ k
  · rw [if_pos hk, if_pos hk]
  · have hdrop : ∀ stale, ((inside ++ stale).drop k).take (inside.length - k) = inside.drop k := by
      intro stale
      rw [List.drop_append_of_le_length (by omega), List.take_left']
      rw [List.length_drop]
    simp only [frame, hdrop]

theorem copyRight_isSome (stale : List UInt8) : (∃ buf', buf.copyRight (frame inside stale) k = some buf') ↔
    k < inside.length ∧ inside.length - k ≤ buf.capacityBytes := by
  unfold copyRight
  rw [sizeBytes_frame]
  split_ifs with hk hcap
  · exact iff_of_false (by simp) (by omega)
  · exact iff_of_false (by simp) (by omega)
  · refine iff_of_true ?_ ⟨by omega, by omega⟩
    have hsize : (frame inside stale).sizeBits - k * BITS_IN_BYTE ≤
        buf.capacityBytes * BITS_IN_BYTE := by
      simp only [frame, ← Nat.sub_mul]
      exact Nat.mul_le_mul_right _ (by omega)
    obtain ⟨buf', hput, -⟩ := put_eq _ (Nat.zero_le buf.capacityBytes) hsize
    exact ⟨buf', hput⟩

theorem copyRight_eq_none (hk : inside.length ≤ k) :
    buf.copyRight (frame inside stale) k = none := by
  unfold copyRight
  rw [sizeBytes_frame, if_pos hk]

theorem copy_frame : buf.copy (frame inside stale) = buf.copy (frame inside []) := by
  unfold copy
  simp only [bytes_frame]
  rfl

theorem copy_isSome (stale : List UInt8) (h : inside.length ≤ buf.capacityBytes) :
    ∃ buf', buf.copy (frame inside stale) = some buf' := by
  have hsize : (frame inside stale).sizeBits ≤ buf.capacityBytes * BITS_IN_BYTE :=
    Nat.mul_le_mul_right _ h
  unfold copy
  rw [if_pos hsize]
  obtain ⟨buf', hput, -⟩ := put_eq (frame inside stale).bytes
    (Nat.zero_le buf.capacityBytes) hsize
  exact ⟨buf', hput⟩

theorem appendByte_isSome (byte : UInt8) (h : buf.sizeBytes < buf.capacityBytes) :
    ∃ buf', buf.appendByte byte = some buf' := by
  unfold appendByte
  rw [if_pos (Nat.succ_le_of_lt h)]
  obtain ⟨buf', hput, -⟩ := put_eq [byte] h.le
    (Nat.mul_le_mul_right BITS_IN_BYTE h)
  exact ⟨buf', hput⟩

theorem appendByte_reset_isSome (buf : BitBuffer) (byte : UInt8) (h : 0 < buf.capacityBytes) :
    ∃ buf', buf.reset.appendByte byte = some buf' := by
  refine appendByte_isSome byte ?_
  simpa [reset, sizeBytes, capacityBytes] using h

end BitBuffer

open BitBuffer

namespace Iso14443_4Layer

/-! ## Responses -/

/-- The response is long enough for what is copied of it, and there is room for that. -/
def ResponseFits (layer : Iso14443_4Layer) (capacity : ℕ) (bytes : List UInt8) : Prop :=
  pcbIsRBlock layer.pcbPrev = true ∨ pcbIsChainActive layer.pcbPrev = true ∨
    if pcbIsSBlock layer.pcbPrev then bytes.length - 1 ≤ capacity
    else bytes.head? = some layer.pcbPrev → 1 < bytes.length ∧ bytes.length - 1 ≤ capacity

variable {layer : Iso14443_4Layer} {outputData : BitBuffer} {inside stale : List UInt8}

theorem decodeResponse_frame (hinside : inside ≠ []) :
    layer.decodeResponse outputData (frame inside stale) =
      layer.decodeResponse outputData (frame inside []) := by
  have hpcb : getResponsePcb (frame inside stale) = getResponsePcb (frame inside []) := by
    obtain ⟨pcb, inside, rfl⟩ := List.exists_cons_of_ne_nil hinside
    rfl
  unfold decodeResponse
  simp only [hpcb, startsWithByte_frame, sizeBytes_frame, copyRight_frame stale]

theorem decodeResponse_isSome (stale : List UInt8) :
    (∃ r, layer.decodeResponse outputData (frame inside stale) = some r) ↔
      layer.ResponseFits outputData.capacityBytes inside := by
  unfold decodeResponse ResponseFits
  simp only [startsWithByte_frame, sizeBytes_frame]
  by_cases hr : pcbIsRBlock layer.pcbPrev = true
  · rw [if_pos hr]
    exact iff_of_true ⟨_, rfl⟩ (.inl hr)
  · rw [if_neg hr]
    by_cases hchain : pcbIsChainActive layer.pcbPrev = true
    · rw [if_pos hchain]
      exact iff_of_true ⟨_, rfl⟩ (.inr (.inl hchain))
    · rw [if_neg hchain, or_iff_right hr, or_iff_right hchain]
      have hcopy : (∃ out, outputData.copyRight (frame inside stale) 1 = some out) ↔ _ :=
        copyRight_isSome stale
      by_cases hs : pcbIsSBlock layer.pcbPrev = true
      · rw [if_pos hs, if_pos hs]
        by_cases hlen : 1 < inside.length
        · rw [if_pos hlen]
          simp only [Option.map_eq_some_iff, Prod.exists]
          constructor
          · rintro ⟨_, _, _, out, hout, -⟩
            exact (hcopy.1 ⟨out, hout⟩).2
          · intro hcap
            obtain ⟨out, hout⟩ := hcopy.2 ⟨hlen, hcap⟩
            exact ⟨_, _, _, out, hout, rfl⟩
        · rw [if_neg hlen]
          exact iff_of_true ⟨_, rfl⟩ (by omega)
      · rw [if_neg hs, if_neg hs]
        by_cases hhead : inside.head? = some layer.pcbPrev
        · have hbeq : (inside.head? == some layer.pcbPrev) = true := by rw [hhead]; exact beq_self_eq_true _
          rw [hbeq]
          simp only [Bool.not_true, Bool.false_eq_true, if_false, hhead, forall_const,
            Option.map_eq_some_iff, Prod.exists]
          constructor
          · rintro ⟨_, _, _, out, hout, -⟩
            exact hcopy.1 ⟨out, hout⟩
          · intro hfits
            obtain ⟨out, hout⟩ := hcopy.2 hfits
            exact ⟨_, _, _, out, hout, rfl⟩
        · have hbeq : (inside.head? == some layer.pcbPrev) = false := by simpa using hhead
          rw [hbeq]
          exact iff_of_true ⟨_, rfl⟩ fun h => absurd h hhead

/-! ## Commands -/

def hasCid (bytes : List UInt8) : Prop := bytes.headD 0 &&& ISO14443_4_BLOCK_PCB_I_CID_MASK ≠ 0

def hasNad (bytes : List UInt8) : Prop := bytes.headD 0 &&& ISO14443_4_BLOCK_PCB_I_NAD_MASK ≠ 0

instance (bytes : List UInt8) : Decidable (hasCid bytes) := inferInstanceAs (Decidable (_ ≠ _))

instance (bytes : List UInt8) : Decidable (hasNad bytes) := inferInstanceAs (Decidable (_ ≠ _))

/-- A block for this card, or, where it ends before its CID, one that may be taken for such. -/
def Addressed (layer : Iso14443_4Layer) (bytes : List UInt8) : Prop :=
  if hasCid bytes then
    layer.cid ≠ ISO14443_4_LAYER_CID_NOT_SUPPORTED ∧
      (bytes[1]?.getD layer.cid) &&& ISO14443_4_BLOCK_CID_MASK = layer.cid
  else layer.cid = ISO14443_4_LAYER_CID_NOT_SUPPORTED ∨ layer.cid = 0

instance (layer : Iso14443_4Layer) (bytes : List UInt8) : Decidable (layer.Addressed bytes) :=
  inferInstanceAs (Decidable (ite _ _ _))

/-- How many bytes come before the payload of an I-block. -/
def prologueLen (bytes : List UInt8) : ℕ :=
  1 + (if hasCid bytes then 1 else 0) + if hasNad bytes then 1 else 0

/-- The command goes on as far as it is read: an I-block for this card has a payload, and a
request to deselect it has its CID. -/
def CommandFits (layer : Iso14443_4Layer) (bytes : List UInt8) : Prop :=
  let pcb := bytes.headD 0
  ppsIsStart pcb = false → layer.Addressed bytes →
    (pcbIsIBlock pcb = true →
      (hasNad bytes → layer.nad ≠ ISO14443_4_LAYER_NAD_NOT_SUPPORTED) →
      prologueLen bytes < bytes.length) ∧
    (pcbIsIBlock pcb = false → pcbIsSBlock pcb = true → hasCid bytes →
      pcb &&& ISO14443_4_BLOCK_PCB_S_WTX_DESELECT_MASK = 0 → 1 < bytes.length)

variable {blockData : BitBuffer}

theorem decodePps_sound (layer : Iso14443_4Layer) (ppss : UInt8) (hblock : 0 < blockData.capacityBytes) :
    ∃ r, ∀ inputData : BitBuffer, 3 ≤ inputData.capacityBytes →
      layer.decodePps inputData blockData ppss = some r := by
  unfold decodePps
  by_cases hpps : layer.canPps = true
  · simp only [hpps, if_true]
    by_cases hcid : layer.cid ≠ ISO14443_4_LAYER_CID_NOT_SUPPORTED ∧
        ppss &&& ISO14443_4_BLOCK_CID_MASK ≠ layer.cid
    · exact ⟨_, fun inputData _ => if_pos hcid⟩
    · obtain ⟨block', hblock'⟩ := appendByte_reset_isSome blockData ppss hblock
      refine ⟨(.send, block', { layer with canPps := false }), fun inputData hcapacity => ?_⟩
      obtain ⟨pps0, hpps0⟩ := getByte_isSome (k := 1) inputData (by omega)
      obtain ⟨pps1, hpps1⟩ := getByte_isSome (k := 2) inputData (by omega)
      rw [if_neg hcid, hpps0, Option.bind_eq_bind, Option.bind_some, hpps1, hblock']
      split_ifs <;> rfl
  · rw [Bool.not_eq_true] at hpps
    simp only [hpps, Bool.false_eq_true, if_false]
    exact ⟨_, fun inputData _ => rfl⟩

theorem cidSkips_of_not_addressed {pcb : UInt8} (h : ¬layer.Addressed (pcb :: inside))
    (hcapacity : 1 ≤ inside.length + stale.length) :
    layer.cidSkips (frame (pcb :: inside) stale) (hasCid (pcb :: inside)) 1 = some true := by
  unfold cidSkips
  unfold Addressed at h
  by_cases hcid : hasCid (pcb :: inside)
  · simp only [hcid, decide_true, if_true] at h ⊢
    obtain ⟨byte, hbyte⟩ := getByte_isSome (k := 1) (frame (pcb :: inside) stale)
      (by rw [capacityBytes_frame, List.length_cons]; omega)
    rw [hbyte]
    simp only [Option.pure_def, Option.bind_eq_bind, Option.bind_some, Option.some.injEq,
      Bool.or_eq_true, beq_iff_eq, bne_iff_ne, or_iff_not_imp_left]
    intro hsupported hmask
    refine h ⟨hsupported, ?_⟩
    cases inside with
    | nil =>
      simp only [List.getElem?_cons_succ, List.getElem?_nil, Option.getD_none]
      rw [← hmask, UInt8.and_assoc, UInt8.and_self]
    | cons first inside =>
      rw [getByte_frame (by simp)] at hbyte
      rw [hbyte]
      exact hmask
  · simp only [hcid, decide_false, Bool.false_eq_true, if_false, not_or] at h ⊢
    simp [h.1, h.2]

theorem cidSkips_of_addressed (stale : List UInt8) {pcb : UInt8} (h : layer.Addressed (pcb :: inside))
    (hinside : hasCid (pcb :: inside) → inside ≠ []) :
    layer.cidSkips (frame (pcb :: inside) stale) (hasCid (pcb :: inside)) 1 = some false := by
  unfold cidSkips
  unfold Addressed at h
  by_cases hcid : hasCid (pcb :: inside)
  · obtain ⟨byte, inside, rfl⟩ := List.exists_cons_of_ne_nil (hinside hcid)
    simp only [hcid, decide_true, if_true] at h ⊢
    rw [getByte_frame (by simp)]
    simp only [List.getElem?_cons_succ, List.getElem?_cons_zero, Option.getD_some] at h ⊢
    simp [h.1, h.2]
  · simp only [hcid, decide_false, Bool.false_eq_true, if_false] at h ⊢
    rcases h with h | h
    · simp [h]
    · simp [h]

theorem cidSkips_stale (byte : UInt8) (stale : List UInt8) {pcb : UInt8} (h : layer.Addressed [pcb]) (hcid : hasCid [pcb]) :
    layer.cidSkips (frame [pcb] (byte :: stale)) (hasCid [pcb]) 1 =
      some (byte &&& ISO14443_4_BLOCK_CID_MASK != layer.cid) := by
  unfold cidSkips
  unfold Addressed at h
  simp only [hcid, decide_true, if_true] at h ⊢
  rw [getByte_stale (by simp)]
  simp [h.1]

theorem cid_and_mask {pcb : UInt8} (h : layer.Addressed [pcb]) (hcid : hasCid [pcb]) :
    layer.cid &&& ISO14443_4_BLOCK_CID_MASK = layer.cid := by
  unfold Addressed at h
  rw [if_pos hcid] at h
  exact h.2

section IBlock

variable {pcb : UInt8}

theorem decodeIBlock_skip (hpcb : layer.pcb = pcb)
    (h : layer.cidSkips (frame (pcb :: inside) stale) (hasCid (pcb :: inside)) 1 = some true) :
    layer.decodeIBlock (frame (pcb :: inside) stale) blockData = some (.skip, blockData, layer) := by
  subst hpcb
  have hskips : layer.cidSkips (frame (layer.pcb :: inside) stale)
      (layer.pcb &&& ISO14443_4_BLOCK_PCB_I_CID_MASK ≠ 0) 1 = some true := h
  simp only [decodeIBlock, hskips, Option.bind_eq_bind, Option.bind_some, if_true]
  rfl

theorem decodeIBlock_nad_skip (hpcb : layer.pcb = pcb) {skips : Bool}
    (h : layer.cidSkips (frame (pcb :: inside) stale) (hasCid (pcb :: inside)) 1 = some skips)
    (hnad : hasNad (pcb :: inside)) (hsupported : layer.nad = ISO14443_4_LAYER_NAD_NOT_SUPPORTED) :
    layer.decodeIBlock (frame (pcb :: inside) stale) blockData = some (.skip, blockData, layer) := by
  subst hpcb
  have hskips : layer.cidSkips (frame (layer.pcb :: inside) stale)
      (layer.pcb &&& ISO14443_4_BLOCK_PCB_I_CID_MASK ≠ 0) 1 = some skips := h
  have hnad' : layer.pcb &&& ISO14443_4_BLOCK_PCB_I_NAD_MASK ≠ 0 := hnad
  simp only [decodeIBlock, hskips, Option.bind_eq_bind, Option.bind_some, if_pos hnad',
    if_pos hsupported]
  cases skips <;> rfl

/-- A block that is taken for one for this card is copied from behind its prologue. -/
theorem decodeIBlock_data (blockData : BitBuffer) (hpcb : layer.pcb = pcb)
    (h : layer.cidSkips (frame (pcb :: inside) stale) (hasCid (pcb :: inside)) 1 = some false)
    (hnad : hasNad (pcb :: inside) → layer.nad ≠ ISO14443_4_LAYER_NAD_NOT_SUPPORTED)
    (hcapacity : 2 ≤ inside.length + stale.length) :
    ∃ nad, (prologueLen (pcb :: inside) < (pcb :: inside).length →
        nad = if hasNad (pcb :: inside) then
          ((pcb :: inside)[prologueLen (pcb :: inside) - 1]?).getD 0 else layer.nad) ∧
      layer.decodeIBlock (frame (pcb :: inside) stale) blockData =
        (blockData.copyRight (frame (pcb :: inside) []) (prologueLen (pcb :: inside))).map
          fun blockData => (.data, blockData, { layer with nad := nad }.updatePcb false) := by
  subst hpcb
  have hskips : layer.cidSkips (frame (layer.pcb :: inside) stale)
      (layer.pcb &&& ISO14443_4_BLOCK_PCB_I_CID_MASK ≠ 0) 1 = some false := h
  obtain ⟨k, hk⟩ : ∃ k, k = if hasCid (layer.pcb :: inside) then 2 else 1 := ⟨_, rfl⟩
  have hk2 : k ≤ 2 := by rw [hk]; split_ifs <;> omega
  have hk' : (if layer.pcb &&& ISO14443_4_BLOCK_PCB_I_CID_MASK ≠ 0 then 2 else 1) = k := hk.symm
  simp only [decodeIBlock, hskips, Option.bind_eq_bind, Option.bind_some, Bool.false_eq_true,
    if_false, hk']
  by_cases hnad' : hasNad (layer.pcb :: inside)
  · have hnad₁ : layer.pcb &&& ISO14443_4_BLOCK_PCB_I_NAD_MASK ≠ 0 := hnad'
    have hlen : prologueLen (layer.pcb :: inside) = k + 1 := by
      rw [prologueLen, hk, if_pos hnad']
      split_ifs <;> rfl
    obtain ⟨nad, hbyte⟩ := getByte_isSome (k := k) (frame (layer.pcb :: inside) stale)
      (by rw [capacityBytes_frame, List.length_cons]; omega)
    refine ⟨nad, fun hlt => ?_, ?_⟩
    · rw [getByte_frame (by omega)] at hbyte
      rw [if_pos hnad', hlen, Nat.add_sub_cancel, hbyte, Option.getD_some]
    · rw [if_pos hnad₁, if_neg (hnad hnad'), hbyte, Option.bind_some, hlen,
        copyRight_frame stale]
      rw [Option.map_eq_bind]
      rfl
  · have hnad₁ : ¬layer.pcb &&& ISO14443_4_BLOCK_PCB_I_NAD_MASK ≠ 0 := hnad'
    have hlen : prologueLen (layer.pcb :: inside) = k := by
      rw [prologueLen, hk, if_neg hnad']
      split_ifs <;> rfl
    refine ⟨layer.nad, fun _ => (if_neg hnad').symm, ?_⟩
    rw [if_neg hnad₁, hlen, copyRight_frame stale]
    rw [Option.map_eq_bind]
    rfl

theorem length_replicate_stale {n : ℕ} (h : n ≤ NFC_MAX_BUFFER_SIZE) :
    n + (List.replicate (NFC_MAX_BUFFER_SIZE - n) (0 : UInt8)).length = NFC_MAX_BUFFER_SIZE := by
  rw [List.length_replicate]
  omega

theorem length_singleton_stale (pcb byte : UInt8) :
    [pcb].length + (byte :: List.replicate 254 (0 : UInt8)).length = NFC_MAX_BUFFER_SIZE := by
  simp only [List.length_cons, List.length_replicate]
  rfl

theorem cidSkips_isSome (layer : Iso14443_4Layer) (present : Bool)
    (hcapacity : 2 ≤ (pcb :: inside).length + stale.length) :
    ∃ skips, layer.cidSkips (frame (pcb :: inside) stale) present 1 = some skips := by
  obtain ⟨byte, hbyte⟩ := getByte_isSome (k := 1) (frame (pcb :: inside) stale)
    (by rw [capacityBytes_frame]; omega)
  unfold cidSkips
  rw [hbyte]
  split_ifs
  · exact ⟨_, rfl⟩
  · exact ⟨_, rfl⟩

theorem decodeIBlock_sound_iff (layer : Iso14443_4Layer) (hpcb : layer.pcb = pcb)
    (hlength : (pcb :: inside).length ≤ NFC_MAX_BUFFER_SIZE)
    (hblock : blockData.capacityBytes = ISO14443_4A_LISTENER_BUF_SIZE) :
    (∃ r, ∀ stale, (pcb :: inside).length + stale.length = NFC_MAX_BUFFER_SIZE →
      layer.decodeIBlock (frame (pcb :: inside) stale) blockData = some r) ↔
    (layer.Addressed (pcb :: inside) →
      (hasNad (pcb :: inside) → layer.nad ≠ ISO14443_4_LAYER_NAD_NOT_SUPPORTED) →
      prologueLen (pcb :: inside) < (pcb :: inside).length) := by
  unfold ISO14443_4A_LISTENER_BUF_SIZE at hblock
  have hcapacity : ∀ stale : List UInt8,
      (pcb :: inside).length + stale.length = NFC_MAX_BUFFER_SIZE →
      2 ≤ inside.length + stale.length := by
    intro stale hstale
    unfold NFC_MAX_BUFFER_SIZE at hstale
    rw [List.length_cons] at hstale
    omega
  constructor
  · rintro ⟨r, hr⟩ haddressed hnad
    by_contra hlt
    by_cases hshort : hasCid (pcb :: inside) ∧ inside = []
    · obtain ⟨hcid, rfl⟩ := hshort
      have hskips : layer.cidSkips (frame [pcb] (layer.cid :: List.replicate 254 0))
          (hasCid [pcb]) 1 = some false := by
        rw [cidSkips_stale _ _ haddressed hcid, cid_and_mask haddressed hcid]
        simp
      obtain ⟨nad, -, hdata⟩ := decodeIBlock_data blockData hpcb hskips hnad
        (hcapacity _ (length_singleton_stale pcb layer.cid))
      rw [hr _ (length_singleton_stale pcb layer.cid), copyRight_eq_none (by omega)] at hdata
      cases hdata
    · have hskips := cidSkips_of_addressed
        (List.replicate (NFC_MAX_BUFFER_SIZE - (pcb :: inside).length) 0) haddressed
        fun hcid hnil => hshort ⟨hcid, hnil⟩
      obtain ⟨nad, -, hdata⟩ := decodeIBlock_data blockData hpcb hskips hnad
        (hcapacity _ (length_replicate_stale hlength))
      rw [hr _ (length_replicate_stale hlength), copyRight_eq_none (by omega)] at hdata
      cases hdata
  · intro h
    by_cases haddressed : layer.Addressed (pcb :: inside)
    · by_cases hnad : hasNad (pcb :: inside) → layer.nad ≠ ISO14443_4_LAYER_NAD_NOT_SUPPORTED
      · have hlt := h haddressed hnad
        obtain ⟨block', hblock'⟩ := (copyRight_isSome []).2 (And.intro hlt
          (by rw [hblock]; unfold NFC_MAX_BUFFER_SIZE at hlength; omega :
            (pcb :: inside).length - prologueLen (pcb :: inside) ≤ blockData.capacityBytes))
        refine ⟨(.data, block', { layer with
          nad := if hasNad (pcb :: inside) then
            ((pcb :: inside)[prologueLen (pcb :: inside) - 1]?).getD 0 else layer.nad }.updatePcb
              false), fun stale hstale => ?_⟩
        have hinside : hasCid (pcb :: inside) → inside ≠ [] := by
          rintro hcid rfl
          rw [prologueLen, if_pos hcid, List.length_singleton] at hlt
          omega
        obtain ⟨nad, hbyte, hdata⟩ := decodeIBlock_data blockData hpcb
          (cidSkips_of_addressed _ haddressed hinside) hnad (hcapacity stale hstale)
        rw [hdata, hblock', hbyte hlt]
        rfl
      · rw [Classical.not_imp, not_not] at hnad
        refine ⟨(.skip, blockData, layer), fun stale hstale => ?_⟩
        obtain ⟨skips, hskips⟩ := cidSkips_isSome layer (hasCid (pcb :: inside))
          (hstale ▸ by decide : 2 ≤ (pcb :: inside).length + stale.length)
        exact decodeIBlock_nad_skip hpcb hskips hnad.1 hnad.2
    · refine ⟨(.skip, blockData, layer), fun stale hstale => ?_⟩
      exact decodeIBlock_skip hpcb (cidSkips_of_not_addressed haddressed
        (by have := hcapacity stale hstale; omega))

end IBlock

/-! ### Supervisory blocks -/

section SBlock

variable {pcb : UInt8}

theorem decodeSBlock_eq (blockData : BitBuffer) (hpcb : layer.pcb = pcb) {skips : Bool}
    (h : layer.cidSkips (frame (pcb :: inside) stale) (hasCid (pcb :: inside)) 1 = some skips) :
    layer.decodeSBlock (frame (pcb :: inside) stale) blockData =
      if skips = true ∨ pcb &&& ISO14443_4_BLOCK_PCB_S_WTX_DESELECT_MASK ≠ 0 then
        some (.skip, blockData, layer)
      else (blockData.copy (frame (pcb :: inside) [])).map fun blockData =>
        (.sendHalt, blockData, layer) := by
  subst hpcb
  have hskips : layer.cidSkips (frame (layer.pcb :: inside) stale)
      (layer.pcb &&& ISO14443_4_BLOCK_PCB_S_CID_MASK ≠ 0) 1 = some skips := h
  simp only [decodeSBlock, hskips, Option.bind_eq_bind, Option.bind_some]
  cases skips with
  | true => rfl
  | false =>
    by_cases hdeselect : layer.pcb &&& ISO14443_4_BLOCK_PCB_S_WTX_DESELECT_MASK = 0
    · simp only [hdeselect, ne_eq, not_true_eq_false, or_false, Bool.false_eq_true, if_false,
        if_true]
      rw [copy_frame, Option.map_eq_bind]
      rfl
    · simp only [hdeselect, ne_eq, not_false_eq_true, or_true, Bool.false_eq_true, if_false,
        if_true]
      rfl

theorem exists_other_cid (cid : UInt8) : ∃ byte, byte &&& ISO14443_4_BLOCK_CID_MASK ≠ cid := by
  by_cases h : cid = 0
  · exact ⟨1, by rw [h]; decide⟩
  · refine ⟨0, ?_⟩
    rw [UInt8.zero_and]
    exact Ne.symm h

theorem decodeSBlock_sound_iff (layer : Iso14443_4Layer) (hpcb : layer.pcb = pcb)
    (hlength : (pcb :: inside).length ≤ NFC_MAX_BUFFER_SIZE)
    (hblock : blockData.capacityBytes = ISO14443_4A_LISTENER_BUF_SIZE) :
    (∃ r, ∀ stale, (pcb :: inside).length + stale.length = NFC_MAX_BUFFER_SIZE →
      layer.decodeSBlock (frame (pcb :: inside) stale) blockData = some r) ↔
    (layer.Addressed (pcb :: inside) → hasCid (pcb :: inside) →
      pcb &&& ISO14443_4_BLOCK_PCB_S_WTX_DESELECT_MASK = 0 → 1 < (pcb :: inside).length) := by
  obtain ⟨block', hblock'⟩ := copy_isSome []
    (by rw [hblock]; exact hlength : (pcb :: inside).length ≤ blockData.capacityBytes)
  constructor
  · rintro ⟨r, hr⟩ haddressed hcid hdeselect
    by_contra hlt
    obtain rfl : inside = [] := by
      rw [List.length_cons] at hlt
      exact List.length_eq_zero_iff.1 (by omega)
    obtain ⟨byte, hbyte⟩ := exists_other_cid layer.cid
    have hown := cidSkips_stale layer.cid (List.replicate 254 0) haddressed hcid
    have hother := cidSkips_stale byte (List.replicate 254 0) haddressed hcid
    have hown' := decodeSBlock_eq blockData hpcb hown
    have hother' := decodeSBlock_eq blockData hpcb hother
    rw [hr _ (length_singleton_stale pcb layer.cid), cid_and_mask haddressed hcid, if_neg (by simp [hdeselect]), hblock'] at hown'
    rw [hr _ (length_singleton_stale pcb byte), if_pos (.inl (by simpa using hbyte)), hown'] at hother'
    cases hother'
  · intro h
    by_cases hdecided : layer.Addressed (pcb :: inside) ∧
        pcb &&& ISO14443_4_BLOCK_PCB_S_WTX_DESELECT_MASK = 0
    · obtain ⟨haddressed, hdeselect⟩ := hdecided
      refine ⟨(.sendHalt, block', layer), fun stale hstale => ?_⟩
      have hinside : hasCid (pcb :: inside) → inside ≠ [] := by
        rintro hcid rfl
        exact absurd (h haddressed hcid hdeselect) (by simp)
      rw [decodeSBlock_eq _ hpcb (cidSkips_of_addressed _ haddressed hinside),
        if_neg (by simp [hdeselect]), hblock']
      rfl
    · refine ⟨(.skip, blockData, layer), fun stale hstale => ?_⟩
      by_cases haddressed : layer.Addressed (pcb :: inside)
      · have hdeselect := fun hzero => hdecided ⟨haddressed, hzero⟩
        obtain ⟨skips, hskips⟩ := cidSkips_isSome layer (hasCid (pcb :: inside))
          (hstale ▸ by decide : 2 ≤ (pcb :: inside).length + stale.length)
        rw [decodeSBlock_eq _ hpcb hskips, if_pos (.inr hdeselect)]
      · rw [decodeSBlock_eq _ hpcb (cidSkips_of_not_addressed haddressed ?_), if_pos (.inl rfl)]
        unfold NFC_MAX_BUFFER_SIZE at hstale
        rw [List.length_cons] at hstale
        omega

end SBlock

/-! ### Commands as a whole -/

theorem decodeRBlock_isSome (layer : Iso14443_4Layer) (h : 0 < blockData.capacityBytes) :
    ∃ r, layer.decodeRBlock blockData = some r := by
  obtain ⟨block', hblock'⟩ := appendByte_reset_isSome
    blockData ((layer.updatePcb true).pcb ||| ISO14443_4_BLOCK_PCB_R_NACK_MASK) h
  unfold decodeRBlock
  dsimp only
  rw [hblock', Option.bind_eq_bind, Option.bind_some]
  exact ⟨_, rfl⟩

/-- The layer has a result for a command, and one that stale bytes have no part in, just if the
command goes on as far as it is read. -/
theorem decodeCommand_sound_iff (layer : Iso14443_4Layer) {bytes : List UInt8} (hbytes : bytes ≠ [])
    (hlength : bytes.length ≤ NFC_MAX_BUFFER_SIZE)
    (hblock : blockData.capacityBytes = ISO14443_4A_LISTENER_BUF_SIZE) :
    (∃ r, ∀ stale, bytes.length + stale.length = NFC_MAX_BUFFER_SIZE →
      layer.decodeCommand (frame bytes stale) blockData = some r) ↔ layer.CommandFits bytes := by
  obtain ⟨pcb, inside, rfl⟩ := List.exists_cons_of_ne_nil hbytes
  have hblock0 : 0 < blockData.capacityBytes := by
    rw [hblock]
    decide
  have hfirst : ∀ stale, (frame (pcb :: inside) stale).getByte 0 = some pcb := fun stale => rfl
  unfold CommandFits
  simp only [decodeCommand, hfirst, Option.bind_eq_bind, Option.bind_some, List.headD_cons]
  cases hstart : ppsIsStart pcb with
  | true =>
    obtain ⟨r, hr⟩ := decodePps_sound layer pcb hblock0
    refine iff_of_true ⟨r, fun stale hstale => ?_⟩ nofun
    exact hr _ (by rw [capacityBytes_frame, hstale]; decide)
  | false =>
    simp only [Bool.false_eq_true, if_false, forall_const]
    cases hi : pcbIsIBlock pcb with
    | true =>
      simp only [if_true, reduceCtorEq, false_imp_iff, and_true, forall_const]
      exact decodeIBlock_sound_iff { layer with canPps := false, pcb := pcb } rfl hlength
        hblock
    | false =>
      simp only [Bool.false_eq_true, if_false, false_imp_iff, true_and, forall_const]
      cases hs : pcbIsSBlock pcb with
      | true =>
        simp only [if_true, forall_const]
        exact decodeSBlock_sound_iff { layer with canPps := false, pcb := pcb } rfl
          hlength hblock
      | false =>
        simp only [Bool.false_eq_true, if_false, false_imp_iff, implies_true, iff_true]
        by_cases hr : pcbIsRBlock pcb = true
        · obtain ⟨r, hr'⟩ := decodeRBlock_isSome
            { layer with canPps := false, pcb := pcb } hblock0
          refine ⟨r, fun stale _ => ?_⟩
          rw [if_pos hr]
          exact hr'
        · refine ⟨(.skip, blockData, { layer with canPps := false, pcb := pcb }), fun stale _ => ?_⟩
          rw [if_neg hr]
          rfl

end Iso14443_4Layer

end KiisuFirmware
