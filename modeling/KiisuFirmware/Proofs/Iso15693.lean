import KiisuFirmware.Iso15693

/-!
# What the memory of an emulated ISO15693-3 card keeps

What is locked stays locked and as it is, a request that fails changes nothing, and one that succeeds
does what its command says, unless it writes several blocks that do not begin with the first one, or
a field with one byte.
-/

namespace KiisuFirmware

/-! ## Pieces of a sequence -/

section Pieces

variable {α : Type*} {c bs : List α} {p q n : ℕ}

theorem take_drop_overwrite_self (hp : p ≤ c.length) :
    ((overwrite c p bs).drop p).take bs.length = bs := by
  rw [drop_overwrite hp, List.take_left' rfl]

theorem take_drop_overwrite_before (hp : p ≤ c.length) (hq : q + n ≤ p) :
    ((overwrite c p bs).drop q).take n = (c.drop q).take n := by
  have htake : ∀ l : List α, l.take (q + n) = (l.take p).take (q + n) := fun l => by
    rw [List.take_take, Nat.min_eq_left hq]
  rw [List.take_drop, List.take_drop, htake, take_overwrite hp, ← htake]

theorem take_drop_overwrite_behind (hp : p ≤ c.length) (hq : p + bs.length ≤ q) :
    ((overwrite c p bs).drop q).take n = (c.drop q).take n := by
  have hdrop : ∀ l : List α, l.drop q = (l.drop (p + bs.length)).drop (q - (p + bs.length)) :=
    fun l => by rw [List.drop_drop, Nat.add_sub_cancel' hq]
  rw [hdrop, drop_overwrite_length hp, ← hdrop]

end Pieces

namespace Iso15693Data

/-! ## The law of the memory -/

/-- What is locked stays locked and as it is. -/
structure Kept (before after : Iso15693Data) : Prop where
  blockCount : after.blockCount = before.blockCount
  blockSize : after.blockSize = before.blockSize
  block : ∀ i < before.blockCount, before.blockSecurity.getD i 0 ≠ 0 →
    after.blockSecurity.getD i 0 ≠ 0 ∧ after.block i = before.block i
  afi : before.lockAfi = true → after.lockAfi = true ∧ after.afi = before.afi
  dsfid : before.lockDsfid = true → after.lockDsfid = true ∧ after.dsfid = before.dsfid

theorem Kept.refl (data : Iso15693Data) : data.Kept data :=
  ⟨rfl, rfl, fun _ _ h => ⟨h, rfl⟩, fun h => ⟨h, rfl⟩, fun h => ⟨h, rfl⟩⟩

theorem Kept.trans {a b c : Iso15693Data} (hab : a.Kept b) (hbc : b.Kept c) : a.Kept c where
  blockCount := hbc.blockCount.trans hab.blockCount
  blockSize := hbc.blockSize.trans hab.blockSize
  block i hi h := by
    obtain ⟨hlocked, hblock⟩ := hab.block i hi h
    obtain ⟨hlocked', hblock'⟩ := hbc.block i (by rwa [hab.blockCount]) hlocked
    exact ⟨hlocked', hblock'.trans hblock⟩
  afi h := by
    obtain ⟨hlocked, hafi⟩ := hab.afi h
    exact ⟨(hbc.afi hlocked).1, (hbc.afi hlocked).2.trans hafi⟩
  dsfid h := by
    obtain ⟨hlocked, hdsfid⟩ := hab.dsfid h
    exact ⟨(hbc.dsfid hlocked).1, (hbc.dsfid hlocked).2.trans hdsfid⟩

/-- Blocks are written, or not, and nothing else. -/
structure Written (before after : Iso15693Data) (bytes : ℕ → List UInt8) (written : ℕ → Prop) :
    Prop where
  blockCount : after.blockCount = before.blockCount
  blockSize : after.blockSize = before.blockSize
  blockSecurity : after.blockSecurity = before.blockSecurity
  settings : after.afi = before.afi ∧ after.dsfid = before.dsfid ∧ after.lockAfi = before.lockAfi ∧
    after.lockDsfid = before.lockDsfid
  block_of : ∀ i < before.blockCount, written i → after.block i = bytes i
  block_of_not : ∀ i < before.blockCount, ¬written i → after.block i = before.block i

theorem Written.kept {before after : Iso15693Data} {bytes : ℕ → List UInt8} {written : ℕ → Prop}
    (h : before.Written after bytes written)
    (hlocked : ∀ i < before.blockCount, before.blockSecurity.getD i 0 ≠ 0 → ¬written i) :
    before.Kept after where
  blockCount := h.blockCount
  blockSize := h.blockSize
  block i hi hi' := ⟨by rwa [h.blockSecurity], h.block_of_not i hi (hlocked i hi hi')⟩
  afi h' := ⟨h.settings.2.2.1.trans h', h.settings.1⟩
  dsfid h' := ⟨h.settings.2.2.2.trans h', h.settings.2.1⟩

/-- The contents of a block as they are read. -/
def contents (data : Iso15693Data) (includeBlockSecurity : Bool) (i : ℕ) : List UInt8 :=
  (if includeBlockSecurity then [data.blockSecurity.getD i 0] else []) ++ data.block i

/-- What a request that succeeds has done to the memory and has put behind the flags of its
answer. -/
def Did (before after : Iso15693Data) (command : UInt8) (request : List UInt8) (flags : UInt8)
    (answer : List UInt8) : Prop :=
  let first := (request.getD 0 0).toNat
  let last := first + (request.getD 1 0).toNat
  let option := hasFlag flags ISO15693_3_REQ_FLAG_T4_OPTION
  match command with
  | 0x20 => answer = before.contents option first
  | 0x21 => before.Written after (fun _ => request.drop 1) fun i => i = first
  | 0x23 => answer = (List.range' first (min last (before.blockCount - 1) + 1 - first)).flatMap
      (before.contents option)
  | 0x24 => before.Written after
      (fun i => (request.drop (2 + (i - first) * before.blockSize)).take before.blockSize)
      fun i => first ≤ i ∧ i ≤ last
  | 0x2C => answer = (List.range' first (last + 1 - first)).map fun i =>
      if before.blockSecurity.getD i 0 ≠ 0 then 1 else 0
  | _ => True

end Iso15693Data

namespace Iso15693Listener

/-- The answer, which is sent with its checksum or waits. -/
def Reply.Answers (reply : Reply) (tx : List UInt8) : Prop :=
  reply = .sent (tx ++ iso13239Crc tx) ∨ reply = .deferred tx

/-- The law of the memory for a request: what is locked is kept, a request without an answer or with
an error changes nothing, and one that succeeds does what it says. -/
structure Law (before after : Iso15693Data) (command : UInt8) (request : List UInt8) (flags : UInt8)
    (reply : Reply) : Prop where
  kept : before.Kept after
  failed : (¬∃ answer, reply.Answers (ISO15693_3_RESP_FLAG_NONE :: answer)) → after = before
  did : ∀ answer, reply.Answers (ISO15693_3_RESP_FLAG_NONE :: answer) →
    before.Did after command request flags answer
  afi : command = 0x27 → request.length = 1 → before.lockAfi = false → after.afi = request.getD 0 0
  dsfid : command = 0x29 → request.length = 1 → before.lockDsfid = false →
    after.dsfid = request.getD 0 0

/-- The request of a frame, if it is one of the standard for this card. -/
def standardRequest (listener : Iso15693Listener) (rx : List UInt8) :
    Option (UInt8 × List UInt8 × UInt8) :=
  if iso13239CrcCheck rx then
    match ({ listener with txBuffer := [] }.address (rx.take (rx.length - ISO13239_CRC_SIZE))).1 with
    | .standard command request flags => some (command, request, flags)
    | .refused _ => none
  else none

/-- The law for a frame. -/
def FrameLaw (listener : Iso15693Listener) (rx : List UInt8) (reply : Reply)
    (after : Iso15693Listener) : Prop :=
  match listener.standardRequest rx with
  | some (command, request, flags) => Law listener.data after.data command request flags reply
  | none => after.data = listener.data

/-- One frame, with what its buffer holds behind it. -/
def step (listener : Iso15693Listener) (frame : List UInt8 × List UInt8) :
    Except Iso15693Fault Iso15693Listener :=
  (listener.run frame.1 frame.2).map Prod.snd

/-- Every frame is handled and meets the law. -/
def LawAlong : Iso15693Listener → List (List UInt8 × List UInt8) → Prop :=
  ExecAlong (fun listener frame => ∃ reply after, listener.run frame.1 frame.2 = .ok (reply, after) ∧
    FrameLaw listener frame.1 reply after) step

/-- Several blocks are not written, or begin with the first one of the card. -/
def MultiSound (data : Iso15693Data) (request : List UInt8) : Prop :=
  let first := (request.getD 0 0).toNat
  let count := (request.getD 1 0).toNat + 1
  request.length ≤ 2 ∨ first = 0 ∨ (first ≤ data.blockCount ∧ data.blockCount < first + count) ∨
    (request.length - 2) / count ≠ data.blockSize ∨
    ∃ i, first ≤ i ∧ i < first + count ∧ first + count ≤ data.blockCount ∧
      data.blockSecurity.getD i 0 ≠ 0

/-- A request of a command that there is: blocks of 255 bytes are not read with their locks, several
blocks are not written elsewhere than at the start, and a field is not written with one byte. -/
def SoundRequest (data : Iso15693Data) (command : UInt8) (request : List UInt8) (flags : UInt8) :
    Prop :=
  command ≠ 0 ∧
    (command = 0x23 → request.length = 2 → hasFlag flags ISO15693_3_REQ_FLAG_T4_OPTION = true →
      data.blockSize ≠ 255) ∧
    (command = 0x24 → MultiSound data request) ∧
    (command = 0x27 → request.length = 1 → data.lockAfi = true) ∧
    (command = 0x29 → request.length = 1 → data.lockDsfid = true)

def Sound (listener : Iso15693Listener) (frame : List UInt8 × List UInt8) : Prop :=
  ∀ command request flags, listener.standardRequest frame.1 = some (command, request, flags) →
    SoundRequest listener.data command request flags

/-! ## What is put into the answer -/

end Iso15693Listener

theorem appendTx_of_le (tx bytes : List UInt8)
    (h : tx.length + bytes.length ≤ ISO15693_3_LISTENER_BUFFER_SIZE) :
    appendTx tx bytes = .ok (tx ++ bytes) := if_pos h

namespace Iso15693Data

variable {data : Iso15693Data}

theorem blockNum_of_lt (hcount : data.blockCount ≤ 256) {i : ℕ} (hi : i < data.blockCount) :
    blockNum i = i := Nat.mod_eq_of_lt (by omega)

theorem blockNum_lt {i : ℕ} (hi : i < data.blockCount) : blockNum i < data.blockCount :=
  (Nat.mod_le _ _).trans_lt hi

theorem isBlockLocked_of_lt {i : ℕ} (hi : i < data.blockCount) :
    data.isBlockLocked i = .ok (data.blockSecurity.getD (blockNum i) 0 ≠ 0) :=
  if_pos (blockNum_lt hi)

theorem block_le (data : Iso15693Data) {i : ℕ} (hi : i < data.blockCount) :
    i * data.blockSize + data.blockSize ≤ data.blockData.length := by
  have hle : (i + 1) * data.blockSize ≤ data.blockCount * data.blockSize :=
    Nat.mul_le_mul_right _ hi
  rwa [Nat.succ_mul, ← data.length_blockData] at hle

theorem length_block (data : Iso15693Data) {i : ℕ} (hi : i < data.blockCount) :
    (data.block i).length = data.blockSize := by
  have hle := data.block_le hi
  rw [block, List.length_take, List.length_drop]
  omega

theorem length_contents (data : Iso15693Data) (includeBlockSecurity : Bool) {i : ℕ}
    (hi : i < data.blockCount) : (data.contents includeBlockSecurity i).length =
      (if includeBlockSecurity then 1 else 0) + data.blockSize := by
  rw [contents, List.length_append, data.length_block hi]
  rcases includeBlockSecurity with _ | _ <;> rfl

theorem append_contents {β : Type} {i : ℕ}
    (hi : blockNum i < data.blockCount) (includeBlockSecurity : Bool) (tx : List UInt8)
    (hroom : tx.length + ((if includeBlockSecurity then 1 else 0) + data.blockSize) ≤
      ISO15693_3_LISTENER_BUFFER_SIZE) (k : List UInt8 → Except Iso15693Fault β) :
    (do
      let tx ← if includeBlockSecurity then data.appendBlockSecurity i tx else pure tx
      let tx ← data.appendBlock i tx
      k tx) = k (tx ++ data.contents includeBlockSecurity (blockNum i)) := by
  have hlength := data.length_block hi
  unfold appendBlockSecurity appendBlock contents
  simp only [if_pos hi]
  rcases includeBlockSecurity with _ | _
  · have hblock := appendTx_of_le tx (data.block (blockNum i)) (by
      simp only [Bool.false_eq_true, if_false] at hroom
      omega)
    simp [hblock, bind, Except.bind, pure, Except.pure]
  · simp only [if_true] at hroom
    have hlock := appendTx_of_le tx [data.blockSecurity.getD (blockNum i) 0] (by
      simp only [List.length_singleton]
      omega)
    have hblock := appendTx_of_le (tx ++ [data.blockSecurity.getD (blockNum i) 0])
      (data.block (blockNum i)) (by
        simp only [List.length_append, List.length_singleton]
        omega)
    simp only [if_true, hlock, bind, Except.bind, hblock]
    rw [List.append_assoc]

end Iso15693Data

namespace Iso15693Listener

open Iso15693Data

theorem appendBlocks_eq {data : Iso15693Data} (includeBlockSecurity : Bool) :
    ∀ (is : List ℕ) (tx : List UInt8), (∀ i ∈ is, i < data.blockCount) →
      tx.length + is.length * ((if includeBlockSecurity then 1 else 0) + data.blockSize) ≤
        ISO15693_3_LISTENER_BUFFER_SIZE →
      appendBlocks data includeBlockSecurity is tx =
        .ok (tx ++ is.flatMap fun i => data.contents includeBlockSecurity (blockNum i))
  | [], tx, _, _ => by simp [appendBlocks]
  | i :: is, tx, hin, hroom => by
    have hi := blockNum_lt (hin i List.mem_cons_self)
    rw [List.length_cons, Nat.succ_mul] at hroom
    rw [appendBlocks, append_contents hi includeBlockSecurity tx (by omega),
      appendBlocks_eq includeBlockSecurity is _ (fun j hj => hin j (List.mem_cons_of_mem i hj))
        (by
          rw [List.length_append, data.length_contents includeBlockSecurity hi]
          omega),
      List.flatMap_cons, List.append_assoc]

theorem length_flatMap_contents {data : Iso15693Data} (includeBlockSecurity : Bool) :
    ∀ is : List ℕ, (∀ i ∈ is, i < data.blockCount) →
      (is.flatMap fun i => data.contents includeBlockSecurity (blockNum i)).length =
        is.length * ((if includeBlockSecurity then 1 else 0) + data.blockSize)
  | [], _ => by simp
  | i :: is, hin => by
    rw [List.flatMap_cons, List.length_append,
      data.length_contents includeBlockSecurity (blockNum_lt (hin i List.mem_cons_self)),
      length_flatMap_contents includeBlockSecurity is fun j hj => hin j (List.mem_cons_of_mem i hj),
      List.length_cons, Nat.succ_mul, Nat.add_comm]

theorem appendLocks_eq {data : Iso15693Data} :
    ∀ (is : List ℕ) (tx : List UInt8), (∀ i ∈ is, i < data.blockCount) →
      tx.length + is.length ≤ ISO15693_3_LISTENER_BUFFER_SIZE →
      appendLocks data is tx =
        .ok (tx ++ is.map fun i => if data.blockSecurity.getD (blockNum i) 0 ≠ 0 then 1 else 0)
  | [], tx, _, _ => by simp [appendLocks]
  | i :: is, tx, hin, hroom => by
    rw [List.length_cons] at hroom
    have hlocked := isBlockLocked_of_lt (hin i List.mem_cons_self)
    have happend := appendTx_of_le tx
      [if data.blockSecurity.getD (blockNum i) 0 ≠ 0 then 1 else 0] (by
        rw [List.length_singleton]
        omega)
    have hrest := appendLocks_eq is
      (tx ++ [if data.blockSecurity.getD (blockNum i) 0 ≠ 0 then 1 else 0]) (fun j hj => hin j (List.mem_cons_of_mem i hj)) (by
        rw [List.length_append, List.length_singleton]
        omega)
    rw [appendLocks, hlocked]
    simp only [bind, Except.bind, decide_eq_true_eq]
    rw [happend]
    simp only [hrest]
    rw [List.map_cons, List.append_assoc]
    rfl

theorem anyLocked_eq {data : Iso15693Data} :
    ∀ is : List ℕ, (∀ i ∈ is, i < data.blockCount) →
      anyLocked data is = .ok (is.any fun i => data.blockSecurity.getD (blockNum i) 0 ≠ 0)
  | [], _ => rfl
  | i :: is, hin => by
    have hrest := anyLocked_eq is fun j hj => hin j (List.mem_cons_of_mem i hj)
    rw [anyLocked, isBlockLocked_of_lt (hin i List.mem_cons_self), List.any_cons]
    simp only [bind, Except.bind, hrest]
    rcases decide (data.blockSecurity.getD (blockNum i) 0 ≠ 0) with _ | _ <;> rfl

/-! ## What is written -/

theorem setBlockData_written_of_num {data : Iso15693Data} {i : ℕ} (hnum : blockNum i = i)
    (hi : i < data.blockCount) (bytes : List UInt8) (hbytes : bytes.length = data.blockSize) :
    ∃ data', data.setBlockData i bytes = .ok data' ∧
      data.Written data' (fun _ => bytes) fun j => j = i := by
  have hcan : blockNum i < data.blockCount ∧ bytes.length = data.blockSize := by
    rw [hnum]
    exact ⟨hi, hbytes⟩
  have hle := data.block_le hi
  have hstart : i * data.blockSize ≤ data.blockData.length := by omega
  refine ⟨_, dif_pos hcan, rfl, rfl, rfl, ⟨rfl, rfl, rfl, rfl⟩, fun j _ hj => ?_, fun j hj hne => ?_⟩
  · show ((overwrite data.blockData (blockNum i * data.blockSize) bytes).drop
      (j * data.blockSize)).take data.blockSize = bytes
    rw [hnum, hj, ← hbytes]
    rw [← hbytes] at hstart
    exact take_drop_overwrite_self hstart
  · show ((overwrite data.blockData (blockNum i * data.blockSize) bytes).drop
      (j * data.blockSize)).take data.blockSize = data.block j
    rw [hnum, block]
    rcases Nat.lt_or_gt_of_ne hne with hlt | hgt
    · have hbefore : (j + 1) * data.blockSize ≤ i * data.blockSize := Nat.mul_le_mul_right _ hlt
      rw [Nat.succ_mul] at hbefore
      exact take_drop_overwrite_before hstart hbefore
    · have hbehind : (i + 1) * data.blockSize ≤ j * data.blockSize := Nat.mul_le_mul_right _ hgt
      rw [Nat.succ_mul] at hbehind
      exact take_drop_overwrite_behind hstart (by rwa [hbytes])

theorem setBlockData_written {data : Iso15693Data} (hcount : data.blockCount ≤ 256) {i : ℕ}
    (hi : i < data.blockCount) (bytes : List UInt8) (hbytes : bytes.length = data.blockSize) :
    ∃ data', data.setBlockData i bytes = .ok data' ∧
      data.Written data' (fun _ => bytes) fun j => j = i :=
  setBlockData_written_of_num (blockNum_of_lt hcount hi) hi bytes hbytes

theorem Written.cons {before middle after : Iso15693Data} {slice : ℕ → List UInt8} {i : ℕ}
    {is : List ℕ} (hfirst : before.Written middle (fun _ => slice i) fun j => j = i)
    (hrest : middle.Written after slice fun j => j ∈ is) :
    before.Written after slice fun j => j ∈ i :: is where
  blockCount := hrest.blockCount.trans hfirst.blockCount
  blockSize := hrest.blockSize.trans hfirst.blockSize
  blockSecurity := hrest.blockSecurity.trans hfirst.blockSecurity
  settings := by
    obtain ⟨h1, h2, h3, h4⟩ := hfirst.settings
    obtain ⟨h1', h2', h3', h4'⟩ := hrest.settings
    exact ⟨h1'.trans h1, h2'.trans h2, h3'.trans h3, h4'.trans h4⟩
  block_of j hj hin := by
    have hj' : j < middle.blockCount := by rwa [hfirst.blockCount]
    by_cases hlater : j ∈ is
    · exact hrest.block_of j hj' hlater
    · obtain rfl : j = i := (List.mem_cons.1 hin).resolve_right hlater
      exact (hrest.block_of_not j hj' hlater).trans (hfirst.block_of j hj rfl)
  block_of_not j hj hout := by
    rw [List.mem_cons, not_or] at hout
    exact (hrest.block_of_not j (by rwa [hfirst.blockCount]) hout.2).trans
      (hfirst.block_of_not j hj hout.1)

theorem writeBlocks_written (bytes : List UInt8) :
    ∀ (is : List ℕ) (data : Iso15693Data), data.blockCount ≤ 256 →
      (∀ i ∈ is, i < data.blockCount ∧ data.blockSize * i + data.blockSize ≤ bytes.length) →
      ∃ data', writeBlocks bytes data.blockSize is data = .ok data' ∧ data.Written data'
        (fun i => (bytes.drop (data.blockSize * i)).take data.blockSize) fun i => i ∈ is
  | [], data, _, _ => ⟨data, rfl, rfl, rfl, rfl, ⟨rfl, rfl, rfl, rfl⟩, fun _ _ => nofun,
      fun _ _ _ => rfl⟩
  | i :: is, data, hcount, hin => by
    obtain ⟨hi, hroom⟩ := hin i List.mem_cons_self
    have hread : readBytes bytes (data.blockSize * i) data.blockSize =
        .ok ((bytes.drop (data.blockSize * i)).take data.blockSize) := if_pos hroom
    obtain ⟨data₁, hset, hwritten⟩ := setBlockData_written hcount hi
      ((bytes.drop (data.blockSize * i)).take data.blockSize) (by
        rw [List.length_take, List.length_drop]
        omega)
    have hsize := hwritten.blockSize
    obtain ⟨data', hrest, hwritten'⟩ := writeBlocks_written bytes is data₁
      (by rwa [hwritten.blockCount]) (fun j hj => by
        rw [hwritten.blockCount, hsize]
        exact hin j (List.mem_cons_of_mem i hj))
    rw [hsize] at hrest hwritten'
    refine ⟨data', ?_, Written.cons hwritten hwritten'⟩
    rw [writeBlocks, hread]
    simp only [bind, Except.bind, hset]
    exact hrest

theorem setBlockLocked_kept {data : Iso15693Data} (hcount : data.blockCount ≤ 256) {i : ℕ}
    (hi : i < data.blockCount) :
    ∃ data', data.setBlockLocked i true = .ok data' ∧ data.Kept data' := by
  have hnum := blockNum_of_lt hcount hi
  refine ⟨_, if_pos (by rwa [hnum]), rfl, rfl, fun j _ hj => ⟨?_, rfl⟩, fun h => ⟨h, rfl⟩,
    fun h => ⟨h, rfl⟩⟩
  show (data.blockSecurity.set (blockNum i) 1).getD j 0 ≠ 0
  rw [List.getD_eq_getElem?_getD, List.getElem?_set]
  split_ifs with heq hlt
  · exact fun h => absurd h (by decide)
  · exact absurd (by rw [data.length_blockSecurity, hnum]; exact hi) hlt
  · rwa [← List.getD_eq_getElem?_getD]

/-! ## The handlers -/

/-- What a handler does when the buffer of the answer holds its flags. -/
structure Obeys (listener : Iso15693Listener) (command : UInt8) (request : List UInt8)
    (flags : UInt8) (error : Iso15693Error) (after : Iso15693Listener) : Prop where
  kept : listener.data.Kept after.data
  failed : error ≠ .none → after.data = listener.data
  did : error = .none → ∃ answer, after.txBuffer = ISO15693_3_RESP_FLAG_NONE :: answer ∧
    answer.length ≤ 1024 ∧ listener.data.Did after.data command request flags answer

def Handles (listener : Iso15693Listener) (command : UInt8) (request : List UInt8) (flags : UInt8)
    (handled : Handled) : Prop :=
  ∃ error after, handled = .ok (error, after) ∧ Obeys listener command request flags error after

theorem Handles.refused {listener after : Iso15693Listener} {command flags : UInt8}
    {request : List UInt8} {error : Iso15693Error} (herror : error ≠ .none)
    (hdata : after.data = listener.data) :
    Handles listener command request flags (.ok (error, after)) :=
  ⟨error, after, rfl, by rw [hdata]; exact Kept.refl _, fun _ => hdata, fun h => absurd h herror⟩

theorem Handles.answered {listener after : Iso15693Listener} {command flags : UInt8}
    {request answer : List UInt8} (hdata : after.data = listener.data)
    (htx : after.txBuffer = ISO15693_3_RESP_FLAG_NONE :: answer) (hlength : answer.length ≤ 1024)
    (hdid : listener.data.Did listener.data command request flags answer) :
    Handles listener command request flags (.ok (.none, after)) :=
  ⟨.none, after, rfl, by rw [hdata]; exact Kept.refl _, fun h => absurd rfl h,
    fun _ => ⟨answer, htx, hlength, by rwa [hdata]⟩⟩

/-- A listener whose answer begins, for a card of a size that there is. -/
structure Begun (listener : Iso15693Listener) : Prop where
  count_pos : 1 ≤ listener.data.blockCount
  size_pos : 1 ≤ listener.data.blockSize
  count_le : listener.data.blockCount ≤ 256
  tx_eq : listener.txBuffer = [ISO15693_3_RESP_FLAG_NONE]

theorem Handles.appended {listener after : Iso15693Listener} (h : Begun listener)
    {command flags : UInt8} {request answer : List UInt8} (hdata : after.data = listener.data)
    (htx : after.txBuffer = listener.txBuffer ++ answer) (hlength : answer.length ≤ 1024)
    (hdid : listener.data.Did listener.data command request flags answer) :
    Handles listener command request flags (.ok (.none, after)) := by
  refine Handles.answered hdata ?_ hlength hdid
  rw [htx, h.tx_eq]
  rfl

section Handlers

variable {listener : Iso15693Listener} (h : Begun listener) {request : List UInt8} {flags : UInt8}
include h

theorem appendTx_begun {β : Type} {bytes : List UInt8} (hlength : bytes.length ≤ 1024)
    (k : List UInt8 → Except Iso15693Fault β) :
    (appendTx listener.txBuffer bytes >>= k) = k (ISO15693_3_RESP_FLAG_NONE :: bytes) := by
  have happend := appendTx_of_le listener.txBuffer bytes (by
    simp [h.tx_eq, ISO15693_3_LISTENER_BUFFER_SIZE]
    omega)
  rw [happend, h.tx_eq]
  rfl

theorem inventoryHandler_handles :
    Handles listener 0x01 request flags (listener.inventoryHandler request flags) := by
  unfold inventoryHandler
  dsimp only
  generalize (if hasFlag flags ISO15693_3_REQ_FLAG_T5_AFI_PRESENT = true then 2 else 1) = size
  split_ifs
  · exact Handles.refused (by decide) rfl
  · exact Handles.answered rfl h.tx_eq (Nat.zero_le _) trivial
  · exact Handles.refused (by decide) rfl
  · rw [appendTx_begun h (by simp), appendUid, appendTx_of_le _ _ (by
      simp [ISO15693_3_LISTENER_BUFFER_SIZE])]
    exact Handles.answered rfl rfl (by simp) trivial

theorem getSystemInfoHandler_handles :
    Handles listener 0x2B request flags listener.getSystemInfoHandler := by
  have hfields : ((if hasFlag listener.data.flags 1 then [listener.data.dsfid] else []) ++
      (if hasFlag listener.data.flags 2 then [listener.data.afi] else []) ++
      (if hasFlag listener.data.flags 4 then
        [UInt8.ofNat (listener.data.blockCount + 255), UInt8.ofNat (listener.data.blockSize + 255)]
      else []) ++
      (if hasFlag listener.data.flags 8 then [listener.data.icRef] else [])).length ≤ 5 := by
    simp only [List.length_append]
    split_ifs <;> simp
  unfold getSystemInfoHandler
  dsimp only
  revert hfields
  generalize ((if hasFlag listener.data.flags 1 then [listener.data.dsfid] else []) ++
      (if hasFlag listener.data.flags 2 then [listener.data.afi] else []) ++
      (if hasFlag listener.data.flags 4 then
        [UInt8.ofNat (listener.data.blockCount + 255), UInt8.ofNat (listener.data.blockSize + 255)]
      else []) ++
      (if hasFlag listener.data.flags 8 then [listener.data.icRef] else [])) = fields
  intro hfields
  rw [appendTx_begun h (by simp), appendUid, appendTx_of_le _ _ (by
    simp [ISO15693_3_LISTENER_BUFFER_SIZE])]
  have hroom := appendTx_of_le ([ISO15693_3_RESP_FLAG_NONE, listener.data.flags] ++
    listener.data.uid.toList.reverse) fields (by
      simp [ISO15693_3_LISTENER_BUFFER_SIZE]
      omega)
  simp only [bind, Except.bind, hroom, pure, Except.pure]
  exact Handles.answered rfl rfl (by simp; omega) trivial

theorem readBlockHandler_handles :
    Handles listener 0x20 request flags (listener.readBlockHandler request flags) := by
  have hsize := listener.data.blockSize_lt
  unfold readBlockHandler
  dsimp only
  split_ifs with hlength hindex hoption
  · exact Handles.refused (by decide) rfl
  · exact Handles.refused (by decide) rfl
  all_goals
    have hi : (request.getD 0 0).toNat < listener.data.blockCount := by omega
    have hnum := blockNum_of_lt h.count_le hi
    have hcontents := append_contents (β := Iso15693Error × Iso15693Listener) (blockNum_lt hi)
      (hasFlag flags ISO15693_3_REQ_FLAG_T4_OPTION) listener.txBuffer (by
        rw [h.tx_eq]
        simp only [hoption, List.length_singleton, ISO15693_3_LISTENER_BUFFER_SIZE]
        split_ifs <;> omega) fun tx => pure (.none, { listener with txBuffer := tx })
    simp only [hoption, if_true, Bool.false_eq_true, if_false] at hcontents
    rw [hcontents, hnum]
    refine Handles.appended h rfl rfl ?_ ?_
    · rw [length_contents _ _ hi]
      split_ifs <;> omega
    · show _ = listener.data.contents (hasFlag flags ISO15693_3_REQ_FLAG_T4_OPTION) _
      simp only [hoption]

theorem readMultiBlocksHandler_handles (hsound : request.length = 2 →
      hasFlag flags ISO15693_3_REQ_FLAG_T4_OPTION = true → listener.data.blockSize ≠ 255) :
    Handles listener 0x23 request flags (listener.readMultiBlocksHandler request flags) := by
  have hsize := listener.data.blockSize_lt
  have hsize_pos := h.size_pos
  have hcount := h.count_le
  have hcount_pos := h.count_pos
  obtain ⟨first, hfirst⟩ : ∃ n, n = (request.getD 0 0).toNat := ⟨_, rfl⟩
  obtain ⟨more, hmore⟩ : ∃ n, n = (request.getD 1 0).toNat := ⟨_, rfl⟩
  have hfirst_lt : first < 256 := by
    rw [hfirst]
    exact UInt8.toNat_lt _
  unfold readMultiBlocksHandler
  dsimp only
  rw [← hfirst, ← hmore]
  have hmax : sizeT ((listener.data.blockCount : ℤ) - 1) = listener.data.blockCount - 1 := by
    rw [sizeT_of_range (by omega) (by omega)]
    omega
  rw [hmax]
  generalize hoption : hasFlag flags ISO15693_3_REQ_FLAG_T4_OPTION = option at hsound ⊢
  obtain ⟨each, heach⟩ : ∃ n, n = (if option = true then 1 else 0) + listener.data.blockSize :=
    ⟨_, rfl⟩
  rw [← heach]
  split_ifs with hlength hzero hmany
  · exact Handles.refused (by decide) rfl
  · exfalso
    have hsound' := hsound (not_not.1 hlength)
    rcases option with _ | _
    · simp only [Bool.false_eq_true, if_false] at heach
      omega
    · simp only [if_true] at heach
      have hne := hsound' rfl
      omega
  · exact Handles.refused (by decide) rfl
  · have heach_lt : each < 2 ^ 8 := by
      rcases option with _ | _
      · simp only [Bool.false_eq_true, if_false] at heach
        omega
      · simp only [if_true] at heach
        have hne := hsound (not_not.1 hlength) rfl
        omega
    rw [Nat.mod_eq_of_lt heach_lt] at hmany hzero
    obtain ⟨last, hlast⟩ : ∃ n, n = min (first + more) (listener.data.blockCount - 1) := ⟨_, rfl⟩
    rw [← hlast] at hmany ⊢
    have hnumber : last + 1 - first ≤ 1024 / each := by
      by_cases hle : first ≤ last + 1
      · have hnat : sizeT ((last : ℤ) - first + 1) = last + 1 - first := by
          rw [sizeT_of_range (by omega) (by omega)]
          omega
        rw [hnat] at hmany
        simpa [ISO15693_3_LISTENER_BUFFER_SIZE] using hmany
      · rw [Nat.sub_eq_zero_of_le (by omega)]
        exact Nat.zero_le _
    have hroom : (last + 1 - first) * each ≤ 1024 :=
      (Nat.mul_le_mul_right _ hnumber).trans (Nat.div_mul_le_self _ _)
    have hin : ∀ i ∈ List.range' first (last + 1 - first), i < listener.data.blockCount := by
      intro i hi
      rw [List.mem_range'_1] at hi
      omega
    have hblocks := appendBlocks_eq option (List.range' first (last + 1 - first))
      listener.txBuffer hin (by
        rw [h.tx_eq, List.length_range', ← heach]
        simp only [List.length_singleton, ISO15693_3_LISTENER_BUFFER_SIZE]
        omega)
    rw [hblocks]
    refine Handles.appended h rfl rfl ?_ ?_
    · rw [length_flatMap_contents option _ hin, List.length_range', ← heach]
      exact hroom
    · simp only [Did, ← hfirst, ← hmore, hoption, ← hlast]
      exact List.flatMap_congr fun i hi => by rw [blockNum_of_lt hcount (hin i hi)]

theorem getMultiBlocksSecurityHandler_handles :
    Handles listener 0x2C request flags (listener.getMultiBlocksSecurityHandler request) := by
  have hcount := h.count_le
  obtain ⟨first, hfirst⟩ : ∃ n, n = (request.getD 0 0).toNat := ⟨_, rfl⟩
  obtain ⟨more, hmore⟩ : ∃ n, n = (request.getD 1 0).toNat := ⟨_, rfl⟩
  unfold getMultiBlocksSecurityHandler
  dsimp only
  rw [← hfirst, ← hmore]
  split_ifs with hlength hlast
  · exact Handles.refused (by decide) rfl
  · exact Handles.refused (by decide) rfl
  · have hin : ∀ i ∈ List.range' first (first + more + 1 - first),
        i < listener.data.blockCount := fun i hi => by
      rw [List.mem_range'_1] at hi
      omega
    have hlocks := appendLocks_eq (List.range' first (first + more + 1 - first))
      listener.txBuffer hin (by
        rw [h.tx_eq, List.length_range']
        simp only [List.length_singleton, ISO15693_3_LISTENER_BUFFER_SIZE]
        omega)
    rw [hlocks]
    refine Handles.appended h rfl rfl ?_ ?_
    · rw [List.length_map, List.length_range']
      omega
    · simp only [Did, ← hfirst, ← hmore]
      exact List.map_congr_left fun i hi => by rw [blockNum_of_lt hcount (hin i hi)]

omit h in
@[simp] theorem setWaitForEof_data : (listener.setWaitForEof flags).data = listener.data := rfl

theorem writeBlockHandler_handles :
    Handles listener 0x21 request flags (listener.writeBlockHandler request flags) := by
  unfold writeBlockHandler
  dsimp only
  rw [setWaitForEof_data]
  split_ifs with hlength hindex hsize
  · exact Handles.refused (by decide) rfl
  · exact Handles.refused (by decide) rfl
  · exact Handles.refused (by decide) rfl
  · have hi : (request.getD 0 0).toNat < listener.data.blockCount := by omega
    rw [isBlockLocked_of_lt hi, blockNum_of_lt h.count_le hi]
    simp only [bind, Except.bind, decide_eq_true_eq]
    split_ifs with hlocked
    · exact Handles.refused (by decide) rfl
    · obtain ⟨data', hset, hwritten⟩ := setBlockData_written h.count_le hi _ (not_not.1 hsize)
      rw [hset]
      refine ⟨.none, _, rfl, hwritten.kept fun i _ hi' heq => ?_, fun hne => absurd rfl hne,
        fun _ => ⟨[], h.tx_eq, Nat.zero_le _, hwritten⟩⟩
      rw [heq] at hi'
      exact hlocked hi'

theorem lockBlockHandler_handles :
    Handles listener 0x22 request flags (listener.lockBlockHandler request flags) := by
  unfold lockBlockHandler
  dsimp only
  rw [setWaitForEof_data]
  split_ifs with hlength hindex
  · exact Handles.refused (by decide) rfl
  · exact Handles.refused (by decide) rfl
  · have hi : (request.getD 0 0).toNat < listener.data.blockCount := by omega
    rw [isBlockLocked_of_lt hi, blockNum_of_lt h.count_le hi]
    simp only [bind, Except.bind, decide_eq_true_eq]
    split_ifs with hlocked
    · exact Handles.refused (by decide) rfl
    · obtain ⟨data', hset, hkept⟩ := setBlockLocked_kept h.count_le hi
      rw [hset]
      exact ⟨.none, _, rfl, hkept, fun hne => absurd rfl hne,
        fun _ => ⟨[], h.tx_eq, Nat.zero_le _, trivial⟩⟩

theorem writeMultiBlocksHandler_handles (behind : List UInt8)
    (hsound : MultiSound listener.data request) : Handles listener 0x24 request flags
      (listener.writeMultiBlocksHandler request behind flags) := by
  have hcount := h.count_le
  obtain ⟨first, hfirst⟩ : ∃ n, n = (request.getD 0 0).toNat := ⟨_, rfl⟩
  obtain ⟨more, hmore⟩ : ∃ n, n = (request.getD 1 0).toNat := ⟨_, rfl⟩
  have hfirst_lt : first < 256 := by
    rw [hfirst]
    exact UInt8.toNat_lt _
  unfold MultiSound at hsound
  unfold writeMultiBlocksHandler
  dsimp only
  simp only [← hfirst, ← hmore] at hsound ⊢
  rw [setWaitForEof_data]
  split_ifs with hlength havailable hsize
  · exact Handles.refused (by decide) rfl
  · exact Handles.refused (by decide) rfl
  · exact Handles.refused (by decide) rfl
  · have hsize := not_not.1 hsize
    have hblocks : first ≤ listener.data.blockCount →
        first + more < listener.data.blockCount := by
      intro hle
      rw [sizeT_of_range (by omega) (by omega)] at havailable
      omega
    have hlocks : first + more < listener.data.blockCount →
        anyLocked listener.data (List.range' first (first + more + 1 - first)) =
          .ok ((List.range' first (first + more + 1 - first)).any fun i =>
            listener.data.blockSecurity.getD i 0 ≠ 0) := by
      intro hlt
      have hin : ∀ i ∈ List.range' first (first + more + 1 - first),
          i < listener.data.blockCount := fun i hi => by
        rw [List.mem_range'_1] at hi
        omega
      rw [anyLocked_eq _ hin, Except.ok.injEq, Bool.eq_iff_iff, List.any_eq_true, List.any_eq_true]
      exact exists_congr fun i => and_congr_right fun hi => by
        rw [blockNum_of_lt hcount (hin i hi)]
    rcases hsound with hshort | hzero | ⟨hle, hlt⟩ | hne | ⟨i, hle, hlt, hfits, hlocked⟩
    · exact absurd hshort hlength
    · have hlt := hblocks (by omega)
      rw [hlocks hlt]
      simp only [bind, Except.bind]
      split_ifs with hany
      · exact Handles.refused (by decide) rfl
      · have hroom : (more + 1) * listener.data.blockSize ≤ request.length - 2 := by
          rw [← hsize, Nat.mul_comm]
          exact Nat.div_mul_le_self _ _
        obtain ⟨data', hwrite, hwritten⟩ := writeBlocks_written
          ((request ++ behind).drop 2) (List.range' first (first + more + 1 - first)) _
          hcount (fun i hi => by
            rw [List.mem_range'_1] at hi
            have hslice : (i + 1) * listener.data.blockSize ≤ (more + 1) * listener.data.blockSize :=
              Nat.mul_le_mul_right _ (by omega)
            rw [Nat.succ_mul, Nat.mul_comm] at hslice
            rw [List.length_drop, List.length_append]
            omega)
        rw [hsize, hwrite]
        have hdid : listener.data.Written data'
            (fun i => (request.drop (2 + (i - first) * listener.data.blockSize)).take
              listener.data.blockSize) fun i => first ≤ i ∧ i ≤ first + more := by
          refine ⟨hwritten.blockCount, hwritten.blockSize, hwritten.blockSecurity, hwritten.settings,
            fun i hi hin => ?_, fun i hi hout => ?_⟩
          · have hslice : (i + 1) * listener.data.blockSize ≤
                (more + 1) * listener.data.blockSize := Nat.mul_le_mul_right _ (by omega)
            rw [Nat.succ_mul] at hslice
            rw [hwritten.block_of i hi (by
              rw [List.mem_range'_1]
              omega), List.drop_drop, hzero, Nat.sub_zero, Nat.mul_comm,
              List.drop_append_of_le_length (by omega), List.take_append_of_le_length (by
                rw [List.length_drop]
                omega)]
          · exact hwritten.block_of_not i hi (by
              rw [List.mem_range'_1]
              omega)
        refine ⟨.none, _, rfl, hdid.kept fun i hi hlocked hin => ?_, fun hne => absurd rfl hne,
          fun _ => ⟨[], h.tx_eq, Nat.zero_le _, ?_⟩⟩
        · refine hany (List.any_eq_true.2 ⟨i, ?_, decide_eq_true hlocked⟩)
          rw [List.mem_range'_1]
          omega
        · simp only [Did, ← hfirst, ← hmore]
          exact hdid
    · have hlt' := hblocks hle
      omega
    · exact absurd hsize hne
    · rw [hlocks (by omega)]
      have hany : ((List.range' first (first + more + 1 - first)).any fun i =>
          listener.data.blockSecurity.getD i 0 ≠ 0) = true := by
        refine List.any_eq_true.2 ⟨i, ?_, decide_eq_true hlocked⟩
        rw [List.mem_range'_1]
        omega
      rw [hany]
      exact Handles.refused (by decide) rfl

theorem writeField_handles {command : UInt8} {locked : Iso15693Data → Bool}
    {set : Iso15693Data → UInt8 → Iso15693Data}
    (hkept : ∀ byte, locked listener.data = false →
      listener.data.Kept (set listener.data byte))
    (hdid : ∀ data, listener.data.Did data command request flags []) :
    Handles listener command request flags (listener.writeField request flags locked set) := by
  unfold writeField
  dsimp only
  rw [setWaitForEof_data]
  split_ifs with hlength hlocked
  · exact Handles.refused (by decide) rfl
  · exact Handles.refused (by decide) rfl
  · exact ⟨.none, _, rfl, hkept _ (Bool.eq_false_of_not_eq_true hlocked), fun hne => absurd rfl hne,
      fun _ => ⟨[], h.tx_eq, Nat.zero_le _, hdid _⟩⟩

theorem lockField_handles {command : UInt8} {locked : Iso15693Data → Bool}
    {lock : Iso15693Data → Iso15693Data}
    (hkept : listener.data.Kept (lock listener.data))
    (hdid : ∀ data, listener.data.Did data command request flags []) :
    Handles listener command request flags (listener.lockField flags locked lock) := by
  unfold lockField
  dsimp only
  rw [setWaitForEof_data]
  split_ifs with hlocked
  · exact Handles.refused (by decide) rfl
  · exact ⟨.none, _, rfl, hkept, fun hne => absurd rfl hne,
      fun _ => ⟨[], h.tx_eq, Nat.zero_le _, hdid _⟩⟩

theorem handler_handles {command : UInt8} {behind : List UInt8} {handled : Handled}
    (hhandler : listener.handler command request behind flags = some handled)
    (hcommand : command ≠ 0)
    (hread : command = 0x23 → request.length = 2 →
      hasFlag flags ISO15693_3_REQ_FLAG_T4_OPTION = true → listener.data.blockSize ≠ 255)
    (hmulti : command = 0x24 → MultiSound listener.data request) :
    Handles listener command request flags handled := by
  unfold handler at hhandler
  split at hhandler <;> cases hhandler
  · exact absurd rfl hcommand
  · exact inventoryHandler_handles h
  · exact Handles.refused (by decide) rfl
  · exact readBlockHandler_handles h
  · exact writeBlockHandler_handles h
  · exact lockBlockHandler_handles h
  · exact readMultiBlocksHandler_handles h (hread rfl)
  · exact writeMultiBlocksHandler_handles h behind (hmulti rfl)
  · unfold selectHandler
    split_ifs
    · exact Handles.answered rfl h.tx_eq (Nat.zero_le _) trivial
    · exact Handles.refused (by decide) rfl
  · exact Handles.answered rfl h.tx_eq (Nat.zero_le _) trivial
  · exact writeField_handles h (fun byte hlocked => ⟨rfl, rfl, fun _ _ hi => ⟨hi, rfl⟩,
      fun hafi => absurd hafi (by rw [hlocked]; decide), fun hdsfid => ⟨hdsfid, rfl⟩⟩) fun _ => trivial
  · exact lockField_handles h ⟨rfl, rfl, fun _ _ hi => ⟨hi, rfl⟩, fun _ => ⟨rfl, rfl⟩,
      fun hdsfid => ⟨hdsfid, rfl⟩⟩ fun _ => trivial
  · exact writeField_handles h (fun byte hlocked => ⟨rfl, rfl, fun _ _ hi => ⟨hi, rfl⟩,
      fun hafi => ⟨hafi, rfl⟩, fun hdsfid => absurd hdsfid (by rw [hlocked]; decide)⟩) fun _ => trivial
  · exact lockField_handles h ⟨rfl, rfl, fun _ _ hi => ⟨hi, rfl⟩, fun hafi => ⟨hafi, rfl⟩,
      fun _ => ⟨rfl, rfl⟩⟩ fun _ => trivial
  · exact getSystemInfoHandler_handles h
  · exact getMultiBlocksSecurityHandler_handles h

end Handlers

/-! ## Answers -/

theorem Reply.Answers.inj {reply : Reply} {a b : List UInt8} (ha : reply.Answers a)
    (hb : reply.Answers b) : a = b := by
  rcases ha with rfl | rfl <;> rcases hb with hb | hb
  · rw [Reply.sent.injEq] at hb
    exact (List.append_inj' hb rfl).1
  · cases hb
  · cases hb
  · exact Reply.deferred.inj hb

theorem not_answers_silent {tx : List UInt8} : ¬Reply.silent.Answers tx := by
  rintro (h | h) <;> cases h

theorem sendFrame_ok (listener : Iso15693Listener) (htx : listener.txBuffer.length ≤ 1025) :
    ∃ after, listener.sendFrame =
        .ok (.sent (listener.txBuffer ++ iso13239Crc listener.txBuffer), after) ∧
      after.data = listener.data := by
  have happend := appendTx_of_le listener.txBuffer (iso13239Crc listener.txBuffer)
    (by
      simp [iso13239Crc, ISO15693_3_LISTENER_BUFFER_SIZE]
      omega)
  unfold sendFrame
  simp only [happend, bind, Except.bind, pure, Except.pure]
  exact ⟨_, rfl, rfl⟩

theorem reply_ok (listener : Iso15693Listener) (htx : listener.txBuffer.length ≤ 1025) :
    ∃ reply after, (if listener.waitForEof then .ok (.deferred listener.txBuffer, listener)
        else listener.sendFrame) = (.ok (reply, after) : Except Iso15693Fault _) ∧
      reply.Answers listener.txBuffer ∧ after.data = listener.data := by
  split_ifs
  · exact ⟨_, _, rfl, .inr rfl, rfl⟩
  · obtain ⟨after, hsend, hdata⟩ := sendFrame_ok listener htx
    exact ⟨_, after, hsend, .inl rfl, hdata⟩

/-- The size of a card is one that there is. -/
structure Sized (data : Iso15693Data) : Prop where
  count_pos : 1 ≤ data.blockCount
  size_pos : 1 ≤ data.blockSize
  count_le : data.blockCount ≤ 256

theorem Law.silent {data : Iso15693Data} {command flags : UInt8} {request : List UInt8}
    (hsound : SoundRequest data command request flags) :
    Law data data command request flags .silent where
  kept := Kept.refl _
  failed _ := rfl
  did _ h := absurd h not_answers_silent
  afi hcommand hlength hfree := by
    rw [hsound.2.2.2.1 hcommand hlength] at hfree
    cases hfree
  dsfid hcommand hlength hfree := by
    rw [hsound.2.2.2.2 hcommand hlength] at hfree
    cases hfree

theorem handleStandardRequest_law {listener : Iso15693Listener} (hsized : Sized listener.data)
    {command flags : UInt8} {request : List UInt8} (behind : List UInt8)
    (hsound : SoundRequest listener.data command request flags) :
    ∃ reply after, listener.handleStandardRequest command request behind flags =
      .ok (reply, after) ∧ Law listener.data after.data command request flags reply := by
  unfold handleStandardRequest
  rcases hhandler : ({ listener with txBuffer := [ISO15693_3_RESP_FLAG_NONE] } :
      Iso15693Listener).handler command request behind flags with _ | handled
  · exact ⟨.silent, listener, rfl, Law.silent hsound⟩
  · have hbegun : Begun { listener with txBuffer := [ISO15693_3_RESP_FLAG_NONE] } :=
      ⟨hsized.count_pos, hsized.size_pos, hsized.count_le, rfl⟩
    obtain ⟨error, after, rfl, hkept, hfailed, hdid⟩ :=
      handler_handles hbegun hhandler hsound.1 hsound.2.1 hsound.2.2.1
    dsimp only at hkept hfailed hdid
    simp only [bind, Except.bind, pure, Except.pure]
    have hafi : command = 0x27 → request.length = 1 → listener.data.lockAfi = false →
        after.data.afi = request.getD 0 0 := by
      intro hcommand hlength hfree
      rw [hsound.2.2.2.1 hcommand hlength] at hfree
      cases hfree
    have hdsfid : command = 0x29 → request.length = 1 → listener.data.lockDsfid = false →
        after.data.dsfid = request.getD 0 0 := by
      intro hcommand hlength hfree
      rw [hsound.2.2.2.2 hcommand hlength] at hfree
      cases hfree
    by_cases hsilent : error = .format ∨ error = .ignore
    · have hne : error ≠ .none := by
        rcases hsilent with rfl | rfl <;> nofun
      rw [if_pos hsilent]
      exact ⟨.silent, after, rfl, hkept, fun _ => hfailed hne,
        fun _ h => absurd h not_answers_silent, hafi, hdsfid⟩
    · rw [if_neg hsilent]
      by_cases hnone : error = .none
      · obtain ⟨answer, htx, hlength, hdid'⟩ := hdid hnone
        obtain ⟨reply, after', hreply, hanswers, hdata⟩ := reply_ok after (by
          rw [htx, List.length_cons]
          omega)
        have hsame : after.withError error = after := by
          rw [withError, if_pos hnone]
        rw [hsame]
        rw [htx] at hanswers
        refine ⟨reply, after', hreply, by rwa [hdata], fun h => absurd ⟨answer, hanswers⟩ h,
          fun answer' h => ?_, by rwa [hdata], by rwa [hdata]⟩
        obtain rfl : answer = answer' := (List.cons.inj (hanswers.inj h)).2
        rwa [hdata]
      · have herror : after.withError error = { after with
            txBuffer := [ISO15693_3_RESP_FLAG_ERROR, ISO15693_3_RESP_ERROR_UNKNOWN] } := by
          rw [withError, if_neg hnone]
        rw [herror]
        obtain ⟨reply, after', hreply, hanswers, hdata⟩ := reply_ok { after with
            txBuffer := [ISO15693_3_RESP_FLAG_ERROR, ISO15693_3_RESP_ERROR_UNKNOWN] }
          (Nat.le_of_ble_eq_true rfl)
        dsimp only at hdata hanswers
        refine ⟨reply, after', hreply, by rwa [hdata], fun _ => hdata.trans (hfailed hnone),
          fun answer h => ?_, by rwa [hdata], by rwa [hdata]⟩
        have hhead := (List.cons.inj (hanswers.inj h)).1
        exact absurd hhead (by decide)

/-! ## Frames and runs -/

theorem setMode_data (listener : Iso15693Listener) (flags : UInt8) :
    (listener.setMode flags).2.data = listener.data := by
  unfold setMode
  dsimp only
  split_ifs <;> rfl

theorem address_data (listener : Iso15693Listener) (rx : List UInt8) :
    (listener.address rx).2.data = listener.data := by
  rcases rx with _ | ⟨flags, _ | ⟨command, data⟩⟩
  · rfl
  · rfl
  · have hmode := listener.setMode_data flags
    unfold address
    dsimp only
    split_ifs <;> exact hmode

theorem run_law {listener : Iso15693Listener} (hsized : Sized listener.data)
    (frame : List UInt8 × List UInt8) (hsound : Sound listener frame) :
    ∃ reply after, listener.run frame.1 frame.2 = .ok (reply, after) ∧
      FrameLaw listener frame.1 reply after := by
  obtain ⟨rx, behind⟩ := frame
  unfold Sound standardRequest at hsound
  unfold run FrameLaw standardRequest
  dsimp only at hsound ⊢
  by_cases hcrc : iso13239CrcCheck rx = true
  · rw [if_pos hcrc] at hsound ⊢
    rw [if_pos hcrc]
    have hdata := ({ listener with txBuffer := [] } : Iso15693Listener).address_data
      (rx.take (rx.length - ISO13239_CRC_SIZE))
    rcases haddress : ({ listener with txBuffer := [] } : Iso15693Listener).address
      (rx.take (rx.length - ISO13239_CRC_SIZE)) with ⟨error | ⟨command, request, flags⟩, next⟩
    · rw [haddress] at hdata
      dsimp only at hdata ⊢
      rcases error with _ | _ | _ | _ | _ | _ | _
      all_goals try exact ⟨_, _, rfl, hdata⟩
      refine ⟨_, _, rfl, ?_⟩
      unfold processUidMismatch
      split_ifs <;> exact hdata
    · rw [haddress] at hsound hdata
      dsimp only at hsound hdata ⊢
      rw [← hdata]
      refine handleStandardRequest_law (by rwa [hdata]) _ ?_
      rw [hdata]
      exact hsound command request flags rfl
  · rw [if_neg hcrc, if_neg hcrc]
    split_ifs
    · unfold processSingleEof
      split_ifs
      · obtain ⟨after, hsend, hdata⟩ := sendFrame_ok
          { listener with txBuffer := [], waitForEof := false } (Nat.zero_le _)
        exact ⟨_, after, hsend, hdata⟩
      · exact ⟨_, _, rfl, rfl⟩
    · exact ⟨_, _, rfl, rfl⟩

theorem FrameLaw.law {listener after : Iso15693Listener} {rx : List UInt8} {reply : Reply}
    (h : FrameLaw listener rx reply after) {command flags : UInt8} {request : List UInt8}
    (hrequest : listener.standardRequest rx = some (command, request, flags)) :
    Law listener.data after.data command request flags reply := by
  unfold FrameLaw at h
  rwa [hrequest] at h

theorem FrameLaw.kept {listener after : Iso15693Listener} {rx : List UInt8} {reply : Reply}
    (h : FrameLaw listener rx reply after) : listener.data.Kept after.data := by
  unfold FrameLaw at h
  split at h
  · exact h.kept
  · rw [h]
    exact Kept.refl _

theorem Sized.of_kept {before after : Iso15693Data} (hsized : Sized before)
    (hkept : before.Kept after) : Sized after where
  count_pos := by rw [hkept.blockCount]; exact hsized.count_pos
  size_pos := by rw [hkept.blockSize]; exact hsized.size_pos
  count_le := by rw [hkept.blockCount]; exact hsized.count_le

/-- Every frame of a sound run meets the law, and what is locked when it begins is kept. -/
theorem memory_law : ∀ (frames : List (List UInt8 × List UInt8)) (listener : Iso15693Listener),
    Sized listener.data → ExecAlong Sound step listener frames →
    LawAlong listener frames ∧ ∃ after, exec step listener frames = .ok after ∧
      listener.data.Kept after.data
  | [], listener, _, _ => ⟨trivial, listener, rfl, Kept.refl _⟩
  | frame :: frames, listener, hsized, ⟨hsound, halong⟩ => by
    obtain ⟨reply, next, hrun, hlaw⟩ := run_law hsized frame hsound
    have hstep : step listener frame = .ok next := by
      rw [step, hrun]
      rfl
    obtain ⟨hlaws, after, hexec, hkept⟩ := memory_law frames next (hsized.of_kept hlaw.kept)
      (halong next hstep)
    refine ⟨⟨⟨reply, next, hrun, hlaw⟩, fun next' hnext => ?_⟩, after, ?_, hlaw.kept.trans hkept⟩
    · rw [hstep] at hnext
      cases hnext
      exact hlaws
    · rw [exec, List.foldlM_cons, hstep]
      exact hexec

theorem LawAlong.law {listener : Iso15693Listener} {frame : List UInt8 × List UInt8}
    {frames : List (List UInt8 × List UInt8)} (h : LawAlong listener (frame :: frames))
    {command flags : UInt8} {request : List UInt8}
    (hrequest : listener.standardRequest frame.1 = some (command, request, flags)) :
    ∃ reply after, listener.run frame.1 frame.2 = .ok (reply, after) ∧
      Law listener.data after.data command request flags reply := by
  obtain ⟨⟨reply, after, hrun, hlaw⟩, -⟩ := h
  exact ⟨reply, after, hrun, hlaw.law hrequest⟩

/-- Four blocks of one byte, none of them locked. -/
def fourBlocks : Iso15693Data where
  uid := Vector.replicate 8 0xE0
  flags := 0
  dsfid := 0
  afi := 0
  icRef := 0
  blockCount := 4
  blockSize := 1
  lockDsfid := false
  lockAfi := false
  blockData := [1, 2, 3, 4]
  blockSecurity := [0, 0, 0, 0]
  blockCount_lt := by norm_num
  blockSize_lt := by norm_num
  length_blockData := rfl
  length_blockSecurity := rfl

set_option maxRecDepth 10000 in
/-- Two blocks written from the first one on. -/
theorem memory_law_fourBlocks :
    LawAlong (alloc fourBlocks) [([0x02, 0x24, 0x00, 0x01, 0x07, 0x08, 0xC4, 0x29], [])] := by
  have hrequest : (alloc fourBlocks).standardRequest
      [0x02, 0x24, 0x00, 0x01, 0x07, 0x08, 0xC4, 0x29] =
        some (0x24, [0x00, 0x01, 0x07, 0x08], 0x02) := by
    rfl
  have hsound : Sound (alloc fourBlocks)
      ([0x02, 0x24, 0x00, 0x01, 0x07, 0x08, 0xC4, 0x29], []) := by
    intro command request flags heq
    rw [hrequest] at heq
    cases heq
    exact ⟨by decide, fun h => absurd h (by decide), fun _ => .inr (.inl rfl),
      fun h => absurd h (by decide), fun h => absurd h (by decide)⟩
  have halong : ExecAlong Sound step (alloc fourBlocks)
      [([0x02, 0x24, 0x00, 0x01, 0x07, 0x08, 0xC4, 0x29], [])] := ⟨hsound, fun _ _ => trivial⟩
  exact (memory_law _ _ ⟨by decide, by decide, by decide⟩ halong).1

set_option maxRecDepth 10000 in
/-- Two blocks written from the second one on are not what was sent. -/
theorem not_memory_law_second_block : ¬∀ (data : Iso15693Data)
    (frames : List (List UInt8 × List UInt8)), 1 ≤ data.blockCount → 1 ≤ data.blockSize →
      LawAlong (alloc data) frames := by
  intro h
  have hrequest : (alloc fourBlocks).standardRequest
      [0x02, 0x24, 0x01, 0x01, 0x07, 0x08, 0x09, 0xFC, 0xE6] =
        some (0x24, [0x01, 0x01, 0x07, 0x08, 0x09], 0x02) := by
    rfl
  obtain ⟨reply, after, hrun, hlaw⟩ := (h fourBlocks
    [([0x02, 0x24, 0x01, 0x01, 0x07, 0x08, 0x09, 0xFC, 0xE6], [])] (by decide) (by decide)).law
      hrequest
  have hresult : ((alloc fourBlocks).run [0x02, 0x24, 0x01, 0x01, 0x07, 0x08, 0x09, 0xFC, 0xE6]
      []).map (fun r => (r.1, r.2.data.block 1)) = .ok (.sent [0x00, 0x78, 0xF0], [8]) := by
    rfl
  dsimp only at hrun
  rw [hrun] at hresult
  have hpair : (reply, after.data.block 1) = (.sent [0x00, 0x78, 0xF0], [8]) :=
    Except.ok.inj hresult
  have hreply : reply = .sent [0x00, 0x78, 0xF0] := congrArg Prod.fst hpair
  have hblock : after.data.block 1 = [8] := congrArg Prod.snd hpair
  have hanswers : reply.Answers [ISO15693_3_RESP_FLAG_NONE] := .inl (by
    rw [hreply]
    rfl)
  have hwritten : fourBlocks.Written after.data _ _ := hlaw.did [] hanswers
  have hseven := hwritten.block_of 1 (by decide) (by decide)
  rw [hblock] at hseven
  exact absurd hseven (by decide)

end Iso15693Listener

end KiisuFirmware
