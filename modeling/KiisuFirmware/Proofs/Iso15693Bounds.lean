import KiisuFirmware.Proofs.Iso15693

/-!
# The bounds of an emulated ISO15693-3 card

For a card of any size and any frame: a request is handled within its own bytes, within the blocks
of the card and within the buffer of the answer, and no count wraps, unless its command is 0, it
reads blocks of an empty card or behind the card, it divides by a size that is 0, or it writes
several blocks whose bytes are not all in the request.
-/

namespace KiisuFirmware

namespace Iso15693Data

/-- The differences of counts that the handler of a command takes. -/
def differences (data : Iso15693Data) (command : UInt8) (request : List UInt8) : List ℤ :=
  let first : ℤ := (request.getD 0 0).toNat
  let more : ℤ := (request.getD 1 0).toNat
  match command with
  | 0x23 =>
    if request.length ≠ 2 then []
    else [data.blockCount - 1, min (first + more) (sizeT (data.blockCount - 1)) - first + 1]
  | 0x24 => if request.length ≤ 2 then [] else [data.blockCount - first]
  | 0x2B => if hasFlag data.flags 4 then [(data.blockCount : ℤ) - 1, data.blockSize - 1] else []
  | _ => []

/-- Blocks are read from the card on, and have a size that fits its type. -/
def ReadInBounds (data : Iso15693Data) (request : List UInt8) (flags : UInt8) : Prop :=
  1 ≤ data.blockCount ∧ (request.getD 0 0).toNat ≤ data.blockCount ∧
    if hasFlag flags ISO15693_3_REQ_FLAG_T4_OPTION then data.blockSize ≠ 255 else data.blockSize ≠ 0

/-- Blocks that are all there and none of them locked are all in the request, counted from the first
one of the card. -/
def WriteInBounds (data : Iso15693Data) (request : List UInt8) : Prop :=
  let first := (request.getD 0 0).toNat
  let more := (request.getD 1 0).toNat
  first ≤ data.blockCount ∧
    (first + more < data.blockCount → (request.length - 2) / (more + 1) = data.blockSize →
      (∀ i, first ≤ i → i ≤ first + more → data.blockSecurity.getD (blockNum i) 0 = 0) →
      data.blockSize * (first + more) + data.blockSize ≤ request.length - 2)

def InBounds (data : Iso15693Data) (command : UInt8) (request : List UInt8) (flags : UInt8) : Prop :=
  command ≠ 0 ∧
    (command = 0x23 → request.length = 2 → data.ReadInBounds request flags) ∧
    (command = 0x24 → 2 < request.length → data.WriteInBounds request) ∧
    (command = 0x2B → hasFlag data.flags 4 = true → 1 ≤ data.blockCount ∧ 1 ≤ data.blockSize)

end Iso15693Data

namespace Iso15693Listener

open Iso15693Data

/-- The handler of a request ends with nothing read behind the request, no check fails and no count
wraps. -/
structure SafeRequest (listener : Iso15693Listener) (command : UInt8) (request : List UInt8)
    (flags : UInt8) : Prop where
  ends : ∀ handled, { listener with txBuffer := [ISO15693_3_RESP_FLAG_NONE] }.handler command
    request [] flags = some handled → ∃ result, handled = .ok result
  counts : ∀ difference ∈ listener.data.differences command request, 0 ≤ difference

/-- A frame is handled, and so is the request in it. -/
def SafeFrame (listener : Iso15693Listener) (frame : List UInt8 × List UInt8) : Prop :=
  (∃ result, listener.run frame.1 frame.2 = .ok result) ∧
    ∀ command request flags, listener.standardRequest frame.1 = some (command, request, flags) →
      listener.SafeRequest command request flags

def FrameInBounds (listener : Iso15693Listener) (frame : List UInt8 × List UInt8) : Prop :=
  ∀ command request flags, listener.standardRequest frame.1 = some (command, request, flags) →
    listener.data.InBounds command request flags

/-! ## Requests that are not in bounds -/

theorem le_of_writeBlocks {bytes : List UInt8} {blockSize : ℕ} :
    ∀ {is : List ℕ} {data data' : Iso15693Data}, writeBlocks bytes blockSize is data = .ok data' →
      ∀ i ∈ is, blockSize * i + blockSize ≤ bytes.length
  | [], _, _, _, _, hi => absurd hi List.not_mem_nil
  | j :: js, data, data', h, i, hi => by
    rw [writeBlocks] at h
    obtain ⟨blockData, hread, h⟩ := bind_eq_ok h
    obtain ⟨data₁, hset, h⟩ := bind_eq_ok h
    rcases List.mem_cons.1 hi with rfl | hi
    · by_contra hnot
      rw [readBytes, if_neg hnot] at hread
      cases hread
    · exact le_of_writeBlocks h i hi

variable {listener : Iso15693Listener} {request : List UInt8} {flags : UInt8}

theorem readInBounds_of_safe (hlength : request.length = 2)
    (h : listener.SafeRequest 0x23 request flags) :
    listener.data.ReadInBounds request flags := by
  obtain ⟨hends, hcounts⟩ := h
  simp only [differences, hlength, ne_eq, not_true_eq_false, if_false, List.forall_mem_cons,
    List.not_mem_nil, false_implies, implies_true, and_true] at hcounts
  obtain ⟨hcount, hrange⟩ := hcounts
  have hlt := listener.data.blockCount_lt
  have hsize := listener.data.blockSize_lt
  rw [sizeT_of_range (by omega) (by omega)] at hrange
  refine ⟨by omega, by omega, ?_⟩
  obtain ⟨result, hok⟩ := hends _ rfl
  unfold readMultiBlocksHandler at hok
  rw [if_neg (not_not.2 hlength)] at hok
  dsimp only at hok
  by_cases hzero : ((if hasFlag flags ISO15693_3_REQ_FLAG_T4_OPTION = true then 1 else 0) +
      listener.data.blockSize) % 2 ^ 8 = 0
  · rw [if_pos hzero] at hok
    cases hok
  · split_ifs at hzero ⊢ <;> omega

/-- What is read for several blocks is in the request if nothing keeps the handler from it. -/
theorem writeInBounds_of_safe (hlength : 2 < request.length)
    (h : listener.SafeRequest 0x24 request flags) : listener.data.WriteInBounds request := by
  obtain ⟨hends, hcounts⟩ := h
  simp only [differences, if_neg (not_le.2 hlength), List.mem_singleton, forall_eq] at hcounts
  have hlt := listener.data.blockCount_lt
  refine ⟨by omega, fun hblocks hsize hfree => ?_⟩
  obtain ⟨result, hok⟩ := hends _ rfl
  unfold writeMultiBlocksHandler at hok
  rw [if_neg (not_le.2 hlength)] at hok
  dsimp only [setWaitForEof] at hok
  rw [sizeT_of_range (by omega) (by omega), if_neg (by omega)] at hok
  simp only [hsize, ne_eq, not_true_eq_false, if_false] at hok
  obtain ⟨locked, hlocked, hok⟩ := bind_eq_ok hok
  have hin : ∀ i ∈ List.range' (request.getD 0 0).toNat
      ((request.getD 0 0).toNat + (request.getD 1 0).toNat + 1 - (request.getD 0 0).toNat),
      i < listener.data.blockCount := by
    intro i hi
    rw [List.mem_range'_1] at hi
    omega
  rw [anyLocked_eq _ hin] at hlocked
  have hnone : locked = false := by
    rw [← Except.ok.inj hlocked, List.any_eq_false]
    intro i hi
    rw [List.mem_range'_1] at hi
    simpa using hfree i hi.1 (by omega)
  rw [hnone, if_neg Bool.false_ne_true] at hok
  obtain ⟨data, hwrite, -⟩ := bind_eq_ok hok
  have hle := le_of_writeBlocks hwrite ((request.getD 0 0).toNat + (request.getD 1 0).toNat) (by
    rw [List.mem_range'_1]
    omega)
  rwa [List.append_nil, List.length_drop] at hle

theorem inBounds_of_safe {command : UInt8} (h : listener.SafeRequest command request flags) :
    listener.data.InBounds command request flags := by
  refine ⟨?_, ?_, ?_, ?_⟩
  · rintro rfl
    obtain ⟨result, hok⟩ := h.ends _ rfl
    cases hok
  · rintro rfl hlength
    exact readInBounds_of_safe hlength h
  · rintro rfl hlength
    exact writeInBounds_of_safe hlength h
  · rintro rfl hmemory
    have hcounts := h.counts
    simp only [differences, hmemory, if_true, List.forall_mem_cons, List.not_mem_nil, false_implies,
      implies_true, and_true] at hcounts
    omega

/-! ## Requests that are in bounds -/

/-- A handler that ends, with an answer that there is room for. -/
def Ends (handled : Handled) : Prop :=
  ∃ error after, handled = .ok (error, after) ∧ after.txBuffer.length ≤ 1025

theorem Ends.ok {error : Iso15693Error} {after : Iso15693Listener}
    (h : after.txBuffer.length ≤ 1025) : Ends (.ok (error, after)) := ⟨error, after, rfl, h⟩

theorem setBlockData_ok {data : Iso15693Data} {i : ℕ} (hi : i < data.blockCount)
    {bytes : List UInt8} (hbytes : bytes.length = data.blockSize) :
    ∃ data', data.setBlockData i bytes = .ok data' ∧ data'.blockCount = data.blockCount ∧
      data'.blockSize = data.blockSize :=
  ⟨_, dif_pos ⟨blockNum_lt hi, hbytes⟩, rfl, rfl⟩

theorem writeBlocks_ok (bytes : List UInt8) :
    ∀ (is : List ℕ) (data : Iso15693Data),
      (∀ i ∈ is, i < data.blockCount ∧ data.blockSize * i + data.blockSize ≤ bytes.length) →
      ∃ data', writeBlocks bytes data.blockSize is data = .ok data'
  | [], data, _ => ⟨data, rfl⟩
  | i :: is, data, hin => by
    obtain ⟨hi, hroom⟩ := hin i List.mem_cons_self
    have hread : readBytes bytes (data.blockSize * i) data.blockSize =
        .ok ((bytes.drop (data.blockSize * i)).take data.blockSize) := if_pos hroom
    have hlength : ((bytes.drop (data.blockSize * i)).take data.blockSize).length =
        data.blockSize := by
      rw [List.length_take, List.length_drop]
      omega
    obtain ⟨data₁, hset, hcount, hsize⟩ := setBlockData_ok hi hlength
    obtain ⟨data', hrest⟩ := writeBlocks_ok bytes is data₁ fun j hj => by
      rw [hcount, hsize]
      exact hin j (List.mem_cons_of_mem i hj)
    rw [hsize] at hrest
    refine ⟨data', ?_⟩
    rw [writeBlocks, hread]
    simp only [bind, Except.bind, hset]
    exact hrest

section Ends

variable (htx : listener.txBuffer = [ISO15693_3_RESP_FLAG_NONE])
include htx

theorem ends_of_tx {error : Iso15693Error} {after : Iso15693Listener}
    (h : after.txBuffer = listener.txBuffer) : Ends (.ok (error, after)) :=
  Ends.ok (by simp [h, htx])

theorem ends_of_appended {answer : List UInt8} (hlength : answer.length ≤ 1024) :
    Ends (.ok (.none, { listener with txBuffer := listener.txBuffer ++ answer })) :=
  Ends.ok (by
    simp [htx]
    omega)

theorem inventoryHandler_ends : Ends (listener.inventoryHandler request flags) := by
  unfold inventoryHandler
  dsimp only
  generalize (if hasFlag flags ISO15693_3_REQ_FLAG_T5_AFI_PRESENT = true then 2 else 1) = size
  split_ifs
  · exact ends_of_tx htx rfl
  · exact ends_of_tx htx rfl
  · exact ends_of_tx htx rfl
  · rw [htx, appendTx_of_le _ _ (by simp [ISO15693_3_LISTENER_BUFFER_SIZE])]
    simp only [bind, Except.bind, appendUid]
    rw [appendTx_of_le _ _ (by simp [ISO15693_3_LISTENER_BUFFER_SIZE])]
    exact Ends.ok (by simp)

theorem readBlockHandler_ends : Ends (listener.readBlockHandler request flags) := by
  have hsize := listener.data.blockSize_lt
  unfold readBlockHandler
  dsimp only
  split_ifs with hlength hindex hoption
  · exact ends_of_tx htx rfl
  · exact ends_of_tx htx rfl
  all_goals
    have hi : (request.getD 0 0).toNat < listener.data.blockCount := by omega
    have hcontents := append_contents (β := Iso15693Error × Iso15693Listener) (blockNum_lt hi)
      (hasFlag flags ISO15693_3_REQ_FLAG_T4_OPTION) listener.txBuffer (by
        rw [htx]
        simp only [hoption, List.length_singleton, ISO15693_3_LISTENER_BUFFER_SIZE]
        split_ifs <;> omega) fun tx => pure (.none, { listener with txBuffer := tx })
    simp only [hoption, if_true, Bool.false_eq_true, if_false] at hcontents
    rw [hcontents]
    refine ends_of_appended htx ?_
    rw [length_contents _ _ (blockNum_lt hi)]
    split_ifs <;> omega

theorem writeBlockHandler_ends : Ends (listener.writeBlockHandler request flags) := by
  unfold writeBlockHandler
  dsimp only
  rw [setWaitForEof_data]
  split_ifs with hlength hindex hsize
  · exact ends_of_tx htx rfl
  · exact ends_of_tx htx rfl
  · exact ends_of_tx htx rfl
  · have hi : (request.getD 0 0).toNat < listener.data.blockCount := by omega
    rw [isBlockLocked_of_lt hi]
    simp only [bind, Except.bind]
    split_ifs
    · exact ends_of_tx htx rfl
    · obtain ⟨data', hset, -, -⟩ := setBlockData_ok hi (not_not.1 hsize)
      rw [hset]
      exact ends_of_tx htx rfl

theorem lockBlockHandler_ends : Ends (listener.lockBlockHandler request flags) := by
  unfold lockBlockHandler
  dsimp only
  rw [setWaitForEof_data]
  split_ifs with hlength hindex
  · exact ends_of_tx htx rfl
  · exact ends_of_tx htx rfl
  · have hi : (request.getD 0 0).toNat < listener.data.blockCount := by omega
    rw [isBlockLocked_of_lt hi]
    simp only [bind, Except.bind]
    split_ifs
    · exact ends_of_tx htx rfl
    · rw [setBlockLocked, if_pos (blockNum_lt hi)]
      exact ends_of_tx htx rfl

theorem readMultiBlocksHandler_ends
    (hbounds : request.length = 2 → listener.data.ReadInBounds request flags) :
    Ends (listener.readMultiBlocksHandler request flags) := by
  have hcount := listener.data.blockCount_lt
  have hsize := listener.data.blockSize_lt
  unfold readMultiBlocksHandler
  by_cases hlength : request.length = 2
  swap
  · rw [if_pos hlength]
    exact ends_of_tx htx rfl
  rw [if_neg (not_not.2 hlength)]
  obtain ⟨hpos, hfirst, hbytes⟩ := hbounds hlength
  generalize (request.getD 0 0).toNat = first at hfirst ⊢
  generalize (request.getD 1 0).toNat = more
  generalize hasFlag flags ISO15693_3_REQ_FLAG_T4_OPTION = option at hbytes ⊢
  dsimp only
  have hmax : sizeT ((listener.data.blockCount : ℤ) - 1) = listener.data.blockCount - 1 := by
    rw [sizeT_of_range (by omega) (by omega)]
    omega
  rw [hmax]
  have hlast : min (first + more) (listener.data.blockCount - 1) < listener.data.blockCount := by
    omega
  have hfits : first ≤ min (first + more) (listener.data.blockCount - 1) + 1 := by omega
  generalize min (first + more) (listener.data.blockCount - 1) = last at hlast hfits ⊢
  have heach : ((if option = true then 1 else 0) + listener.data.blockSize) % 2 ^ 8 =
      (if option = true then 1 else 0) + listener.data.blockSize := by
    split_ifs at hbytes ⊢ <;> omega
  have heach_pos : (if option = true then 1 else 0) + listener.data.blockSize ≠ 0 := by
    split_ifs at hbytes ⊢ <;> omega
  have hnumber : sizeT ((last : ℤ) - first + 1) = last + 1 - first := by
    rw [sizeT_of_range (by omega) (by omega)]
    omega
  rw [heach, if_neg heach_pos, hnumber]
  have hmax_response : ISO15693_3_LISTENER_BUFFER_SIZE - 1 - 2 = 1024 := rfl
  rw [hmax_response]
  by_cases hmany : 1024 / ((if option = true then 1 else 0) + listener.data.blockSize) <
      last + 1 - first
  · rw [if_pos hmany]
    exact ends_of_tx htx rfl
  · rw [if_neg hmany]
    have hin : ∀ i ∈ List.range' first (last + 1 - first), i < listener.data.blockCount := by
      intro i hi
      rw [List.mem_range'_1] at hi
      omega
    have hroom : (last + 1 - first) * ((if option = true then 1 else 0) + listener.data.blockSize) ≤
        1024 := (Nat.mul_le_mul_right _ (not_lt.1 hmany)).trans (Nat.div_mul_le_self _ _)
    rw [appendBlocks_eq option (List.range' first (last + 1 - first)) listener.txBuffer hin (by
      rw [htx, List.length_range']
      simp only [List.length_singleton, ISO15693_3_LISTENER_BUFFER_SIZE]
      omega)]
    refine ends_of_appended htx ?_
    rwa [length_flatMap_contents option _ hin, List.length_range']

theorem writeMultiBlocksHandler_ends (behind : List UInt8)
    (hbounds : 2 < request.length → listener.data.WriteInBounds request) :
    Ends (listener.writeMultiBlocksHandler request behind flags) := by
  have hcount := listener.data.blockCount_lt
  unfold writeMultiBlocksHandler
  dsimp only
  rw [setWaitForEof_data]
  split_ifs with hlength havailable hsize
  · exact ends_of_tx htx rfl
  · exact ends_of_tx htx rfl
  · exact ends_of_tx htx rfl
  · obtain ⟨hfirst, hblocks⟩ := hbounds (by omega)
    generalize (request.getD 0 0).toNat = first at hfirst hblocks havailable ⊢
    generalize (request.getD 1 0).toNat = more at hblocks havailable hsize ⊢
    rw [sizeT_of_range (by omega) (by omega)] at havailable
    have hin : ∀ i ∈ List.range' first (first + more + 1 - first),
        i < listener.data.blockCount := by
      intro i hi
      rw [List.mem_range'_1] at hi
      omega
    rw [anyLocked_eq _ hin]
    simp only [bind, Except.bind]
    split_ifs with hlocked
    · exact ends_of_tx htx rfl
    · have hroom := hblocks (by omega) (not_not.1 hsize) fun i hfirst hlast => by
        by_contra hne
        refine hlocked (List.any_eq_true.2 ⟨i, ?_, decide_eq_true hne⟩)
        rw [List.mem_range'_1]
        omega
      rw [not_not.1 hsize]
      obtain ⟨data', hwrite⟩ := writeBlocks_ok ((request ++ behind).drop 2)
        (List.range' first (first + more + 1 - first)) listener.data fun i hi => by
          refine ⟨hin i hi, ?_⟩
          rw [List.mem_range'_1] at hi
          have hle : listener.data.blockSize * i ≤ listener.data.blockSize * (first + more) :=
            Nat.mul_le_mul_left _ (by omega)
          rw [List.length_drop, List.length_append]
          omega
      rw [hwrite]
      exact ends_of_tx htx rfl

theorem getMultiBlocksSecurityHandler_ends :
    Ends (listener.getMultiBlocksSecurityHandler request) := by
  have hmore := (request.getD 1 0).toNat_lt
  unfold getMultiBlocksSecurityHandler
  dsimp only
  generalize (request.getD 0 0).toNat = first
  generalize (request.getD 1 0).toNat = more at hmore ⊢
  split_ifs with hlength hlast
  · exact ends_of_tx htx rfl
  · exact ends_of_tx htx rfl
  · rw [appendLocks_eq (List.range' first (first + more + 1 - first)) listener.txBuffer
      (fun i hi => by
        rw [List.mem_range'_1] at hi
        omega) (by
        rw [htx, List.length_range']
        simp only [List.length_singleton, ISO15693_3_LISTENER_BUFFER_SIZE]
        omega)]
    refine ends_of_appended htx ?_
    rw [List.length_map, List.length_range']
    omega

theorem getSystemInfoHandler_ends : Ends listener.getSystemInfoHandler := by
  have hfields : ((if hasFlag listener.data.flags 1 then [listener.data.dsfid] else []) ++
      (if hasFlag listener.data.flags 2 then [listener.data.afi] else []) ++
      (if hasFlag listener.data.flags 4 then
        [UInt8.ofNat (listener.data.blockCount + 255), UInt8.ofNat (listener.data.blockSize + 255)]
      else []) ++
      (if hasFlag listener.data.flags 8 then [listener.data.icRef] else [])).length ≤ 5 := by
    simp only [List.length_append]
    split_ifs <;> simp
  unfold getSystemInfoHandler
  dsimp only
  revert hfields
  generalize ((if hasFlag listener.data.flags 1 then [listener.data.dsfid] else []) ++
      (if hasFlag listener.data.flags 2 then [listener.data.afi] else []) ++
      (if hasFlag listener.data.flags 4 then
        [UInt8.ofNat (listener.data.blockCount + 255), UInt8.ofNat (listener.data.blockSize + 255)]
      else []) ++
      (if hasFlag listener.data.flags 8 then [listener.data.icRef] else [])) = fields
  intro hfields
  rw [htx, appendTx_of_le _ _ (by simp [ISO15693_3_LISTENER_BUFFER_SIZE])]
  simp only [bind, Except.bind, appendUid]
  rw [appendTx_of_le _ _ (by simp [ISO15693_3_LISTENER_BUFFER_SIZE])]
  have hroom := appendTx_of_le ([ISO15693_3_RESP_FLAG_NONE] ++ [listener.data.flags] ++
    listener.data.uid.toList.reverse) fields (by
      simp [ISO15693_3_LISTENER_BUFFER_SIZE]
      omega)
  simp only [hroom]
  exact Ends.ok (by
    simp
    omega)

theorem handler_ends {command : UInt8} {behind : List UInt8} {handled : Handled}
    (hhandler : listener.handler command request behind flags = some handled)
    (hbounds : listener.data.InBounds command request flags) : Ends handled := by
  obtain ⟨hcommand, hread, hwrite, -⟩ := hbounds
  unfold handler at hhandler
  split at hhandler <;> cases hhandler
  · exact absurd rfl hcommand
  · exact inventoryHandler_ends htx
  · exact ends_of_tx htx rfl
  · exact readBlockHandler_ends htx
  · exact writeBlockHandler_ends htx
  · exact lockBlockHandler_ends htx
  · exact readMultiBlocksHandler_ends htx (hread rfl)
  · exact writeMultiBlocksHandler_ends htx behind (hwrite rfl)
  · unfold selectHandler
    split_ifs <;> exact ends_of_tx htx rfl
  · exact ends_of_tx htx rfl
  · unfold writeAfiHandler writeField
    dsimp only
    split_ifs <;> exact ends_of_tx htx rfl
  · unfold lockAfiHandler lockField
    dsimp only
    split_ifs <;> exact ends_of_tx htx rfl
  · unfold writeDsfidHandler writeField
    dsimp only
    split_ifs <;> exact ends_of_tx htx rfl
  · unfold lockDsfidHandler lockField
    dsimp only
    split_ifs <;> exact ends_of_tx htx rfl
  · exact getSystemInfoHandler_ends htx
  · exact getMultiBlocksSecurityHandler_ends htx

end Ends

theorem differences_nonneg {command : UInt8}
    (h : listener.data.InBounds command request flags) :
    ∀ difference ∈ listener.data.differences command request, 0 ≤ difference := by
  have hlt := listener.data.blockCount_lt
  obtain ⟨-, hread, hwrite, hinfo⟩ := h
  unfold differences
  dsimp only
  split
  · split_ifs with hlength
    · simp
    · obtain ⟨hpos, hfirst, -⟩ := hread rfl (not_not.1 hlength)
      rw [sizeT_of_range (by omega) (by omega)]
      simp only [List.forall_mem_cons, List.not_mem_nil, false_implies, implies_true, and_true]
      omega
  · split_ifs with hlength
    · simp
    · obtain ⟨hfirst, -⟩ := hwrite rfl (not_le.1 hlength)
      simpa using hfirst
  · split_ifs with hmemory
    · obtain ⟨hcount, hsize⟩ := hinfo rfl hmemory
      simp only [List.forall_mem_cons, List.not_mem_nil, false_implies, implies_true, and_true]
      omega
    · simp
  · simp

theorem safeRequest_iff {command : UInt8} : listener.SafeRequest command request flags ↔
    listener.data.InBounds command request flags := by
  refine ⟨inBounds_of_safe, fun h => ⟨fun handled hhandler => ?_, differences_nonneg h⟩⟩
  have hends : Ends handled := handler_ends rfl hhandler h
  obtain ⟨error, after, rfl, -⟩ := hends
  exact ⟨_, rfl⟩

/-! ## Frames and runs in bounds -/

theorem handleStandardRequest_ok {command : UInt8} (behind : List UInt8)
    (h : listener.data.InBounds command request flags) :
    ∃ result, listener.handleStandardRequest command request behind flags = .ok result := by
  unfold handleStandardRequest
  rcases hhandler : ({ listener with txBuffer := [ISO15693_3_RESP_FLAG_NONE] } :
      Iso15693Listener).handler command request behind flags with _ | handled
  · exact ⟨_, rfl⟩
  · have hends : Ends handled := handler_ends rfl hhandler h
    obtain ⟨error, after, rfl, hlength⟩ := hends
    simp only [bind, Except.bind, pure, Except.pure]
    by_cases hsilent : error = .format ∨ error = .ignore
    · rw [if_pos hsilent]
      exact ⟨_, rfl⟩
    · rw [if_neg hsilent]
      have htx : (after.withError error).txBuffer.length ≤ 1025 := by
        unfold withError
        split_ifs
        · exact hlength
        · exact Nat.le_of_ble_eq_true rfl
      obtain ⟨reply, next, hreply, -⟩ := reply_ok (after.withError error) htx
      exact ⟨_, hreply⟩

theorem safeFrame_iff {frame : List UInt8 × List UInt8} :
    listener.SafeFrame frame ↔ listener.FrameInBounds frame := by
  refine ⟨fun h command request flags hrequest => safeRequest_iff.1 (h.2 _ _ _ hrequest),
    fun h => ⟨?_, fun command request flags hrequest => safeRequest_iff.2 (h _ _ _ hrequest)⟩⟩
  obtain ⟨rx, behind⟩ := frame
  unfold FrameInBounds standardRequest at h
  unfold run
  dsimp only at h ⊢
  by_cases hcrc : iso13239CrcCheck rx = true
  · rw [if_pos hcrc] at h
    rw [if_pos hcrc]
    have hdata := ({ listener with txBuffer := [] } : Iso15693Listener).address_data
      (rx.take (rx.length - ISO13239_CRC_SIZE))
    rcases haddress : ({ listener with txBuffer := [] } : Iso15693Listener).address
      (rx.take (rx.length - ISO13239_CRC_SIZE)) with ⟨error | ⟨command, request, flags⟩, next⟩
    · cases error <;> exact ⟨_, rfl⟩
    · rw [haddress] at h hdata
      dsimp only at h hdata ⊢
      refine handleStandardRequest_ok _ ?_
      rw [hdata]
      exact h command request flags rfl
  · rw [if_neg hcrc]
    split_ifs
    · unfold processSingleEof
      split_ifs
      · obtain ⟨after, hsend, -⟩ := sendFrame_ok
          { listener with txBuffer := [], waitForEof := false } (Nat.zero_le _)
        exact ⟨_, hsend⟩
      · exact ⟨_, rfl⟩
    · exact ⟨_, rfl⟩

/-- Every frame of a run is handled within bounds, as long as every request in them is in bounds, and
not beyond that. -/
theorem listener_in_bounds (data : Iso15693Data) (frames : List (List UInt8 × List UInt8)) :
    ExecAlong SafeFrame step (alloc data) frames ↔
      ExecAlong FrameInBounds step (alloc data) frames := by
  have hsame : SafeFrame = FrameInBounds := by
    funext listener frame
    exact propext safeFrame_iff
  rw [hsame]

set_option maxRecDepth 10000 in
/-- The command 0 looks in front of the table of the handlers. -/
theorem not_listener_in_bounds_command_zero : ¬∀ (data : Iso15693Data)
    (frames : List (List UInt8 × List UInt8)), ExecAlong SafeFrame step (alloc data) frames := by
  intro h
  have hrun : (alloc fourBlocks).run [0x02, 0x00, 0xF7, 0x3C] [] =
      .error .outOfBounds := by
    rfl
  obtain ⟨⟨⟨result, hok⟩, -⟩, -⟩ := h fourBlocks [([0x02, 0x00, 0xF7, 0x3C], [])]
  dsimp only at hok
  rw [hrun] at hok
  cases hok

end Iso15693Listener

end KiisuFirmware
