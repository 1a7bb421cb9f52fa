import KiisuFirmware.BitBuffer
import KiisuFirmware.ByteBits
import KiisuFirmware.Run

/-!
# Buffers after something was put into them
-/

namespace KiisuFirmware

namespace BitBuffer

variable {buf buf' : BitBuffer}

theorem sizeBytes_le (buf : BitBuffer) : buf.sizeBytes ≤ buf.data.length := by
  have hfits := buf.fits
  unfold sizeBytes
  unfold BITS_IN_BYTE at *
  split_ifs <;> omega

theorem length_bytes (buf : BitBuffer) : buf.bytes.length = buf.sizeBytes := by
  rw [bytes, List.length_take, min_eq_left buf.sizeBytes_le]

theorem put_eq (bytes : List UInt8) {offset sizeBits : ℕ} (hoffset : offset ≤ buf.capacityBytes)
    (h : sizeBits ≤ buf.capacityBytes * BITS_IN_BYTE) :
    ∃ buf', buf.put offset bytes sizeBits = some buf' ∧
      buf'.data = overwrite buf.data offset bytes ∧ buf'.sizeBits = sizeBits := by
  have hle : sizeBits ≤ (overwrite buf.data offset bytes).length * BITS_IN_BYTE := by
    rw [length_overwrite hoffset]
    exact h.trans (Nat.mul_le_mul_right _ (le_max_left _ _))
  refine ⟨⟨_, _, hle⟩, ?_, rfl, rfl⟩
  unfold put
  rw [dif_pos hle]

theorem eq_of_put {bytes : List UInt8} {offset sizeBits : ℕ}
    (h : buf.put offset bytes sizeBits = some buf') :
    buf'.data = overwrite buf.data offset bytes ∧ buf'.sizeBits = sizeBits := by
  unfold put at h
  split_ifs at h with hfits
  cases h
  exact ⟨rfl, rfl⟩

theorem length_writeBytesMid {bytes : List UInt8} {start size : ℕ}
    (h : buf.writeBytesMid start size = some bytes) : bytes.length = size := by
  have hsize := buf.sizeBytes_le
  unfold writeBytesMid at h
  split_ifs at h with hle
  cases h
  rw [List.length_take, List.length_drop]
  omega

theorem sizeBytes_add (n : ℕ) (h : buf'.sizeBits = buf.sizeBits + n * BITS_IN_BYTE) :
    buf'.sizeBytes = buf.sizeBytes + n := by
  unfold sizeBytes
  rw [h]
  unfold BITS_IN_BYTE
  split_ifs <;> omega

theorem bytes_copyBytes {data : List UInt8} (h : buf.copyBytes data = some buf') :
    buf'.bytes = data := by
  unfold copyBytes at h
  split_ifs at h with hcapacity
  obtain ⟨hdata, hsize⟩ := eq_of_put h
  have hsizeBytes : buf'.sizeBytes = data.length := by
    unfold sizeBytes
    rw [hsize]
    unfold BITS_IN_BYTE
    split_ifs <;> omega
  rw [bytes, hdata, hsizeBytes, overwrite, List.take_zero, List.nil_append, List.take_left' rfl]

theorem bytes_appendBytes {data : List UInt8} (h : buf.appendBytes data = some buf') :
    buf'.bytes = buf.bytes ++ data := by
  unfold appendBytes at h
  split_ifs at h with hcapacity
  obtain ⟨hdata, hsize⟩ := eq_of_put h
  rw [bytes, hdata, sizeBytes_add data.length hsize, take_overwrite_length buf.sizeBytes_le, bytes]

end BitBuffer

theorem bytes_crcAppend {buf buf' : BitBuffer} (h : iso14443CrcAppend buf = some buf') :
    ∃ crc, buf'.bytes = buf.bytes ++ crc ∧ crc.length = ISO14443_CRC_SIZE :=
  ⟨_, BitBuffer.bytes_appendBytes h, rfl⟩

/-!
## Buffers as sequences of bits

A bit is appended by setting it or by leaving what is there. What is there comes from operations
that made the buffer smaller or filled it anew, so it is a zero as long as none of them leaves a one
behind the size.
-/

namespace BitBuffer

variable {buf buf' : BitBuffer}

/-! ## Appending a bit -/

/-- The bits inside the size. -/
def bits (buf : BitBuffer) : List Bool := firstBits buf.data buf.sizeBits

/-- The bit that the next one to be appended is put over. -/
def staleBit (buf : BitBuffer) : Bool := bitAt buf.data buf.sizeBits

/-- A bit can be appended, and is. -/
def AppendsBit (buf : BitBuffer) (bit : Bool) : Prop :=
  ∃ buf', buf.appendBit bit = some buf' ∧ buf'.bits = buf.bits ++ [bit]

theorem data_of_put {bytes : List UInt8} {offset sizeBits : ℕ} (hoffset : offset ≤ buf.data.length)
    (h : buf.put offset bytes sizeBits = some buf') (i : ℕ) :
    bitAt buf'.data i = if 8 * offset ≤ i ∧ i < 8 * (offset + bytes.length) then
      bitAt bytes (i - 8 * offset) else bitAt buf.data i := by
  rw [(eq_of_put h).1, bitAt_overwrite hoffset]

theorem appendBit_isSome (h : buf.sizeBits < buf.capacityBytes * BITS_IN_BYTE) (bit : Bool) :
    ∃ buf', buf.appendBit bit = some buf' := by
  have hroom : buf.sizeBytes ≤ buf.capacityBytes - if buf.hasPartialByte then 0 else 1 := by
    unfold sizeBytes hasPartialByte
    unfold BITS_IN_BYTE at *
    split_ifs <;> simp_all <;> omega
  have hindex : buf.sizeBits / BITS_IN_BYTE ≤ buf.capacityBytes := by
    unfold BITS_IN_BYTE at *
    omega
  unfold appendBit
  rw [if_pos hroom]
  cases bit with
  | false =>
    obtain ⟨buf', hput, -⟩ := @put_eq buf [] 0 _ (Nat.zero_le _) h
    exact ⟨buf', hput⟩
  | true =>
    obtain ⟨buf', hput, -⟩ := put_eq _ hindex h
    exact ⟨buf', hput⟩

theorem data_of_appendBit {bit : Bool} (h : buf.appendBit bit = some buf') :
    buf'.sizeBits = buf.sizeBits + 1 ∧
      ∀ i, bitAt buf'.data i = (bitAt buf.data i || (decide (i = buf.sizeBits) && bit)) := by
  have hfits := buf.fits
  unfold appendBit at h
  by_cases hroom : buf.sizeBytes ≤ buf.capacityBytes - if buf.hasPartialByte then 0 else 1
  · rw [if_pos hroom] at h
    cases bit with
    | false =>
      have hput : buf.put 0 [] (buf.sizeBits + 1) = some buf' := h
      refine ⟨(eq_of_put hput).2, fun i => ?_⟩
      rw [data_of_put (Nat.zero_le _) hput, if_neg (by simp), Bool.and_false, Bool.or_false]
    | true =>
      have hput : buf.put (buf.sizeBits / 8) [buf.data.getD (buf.sizeBits / 8) 0 |||
          1 <<< (buf.sizeBits % 8).toUInt8] (buf.sizeBits + 1) = some buf' := h
      refine ⟨(eq_of_put hput).2, fun i => ?_⟩
      rw [data_of_put (by rw [BITS_IN_BYTE] at hfits; omega) hput, Bool.and_true,
        List.length_singleton]
      split_ifs with hi
      · have hplace : i / 8 = buf.sizeBits / 8 := by omega
        have hsub : i - 8 * (buf.sizeBits / 8) = i % 8 := by omega
        have hsame : i % 8 = buf.sizeBits % 8 ↔ i = buf.sizeBits := by omega
        rw [hsub, bitAt_singleton (by omega), UInt8.toNat_or, Nat.testBit_or,
          testBit_mask (by omega) (by omega), decide_eq_decide.2 hsame, bitAt, hplace]
      · have hne : i ≠ buf.sizeBits := by omega
        rw [decide_eq_false hne, Bool.or_false]
  · rw [if_neg hroom] at h
    cases h

theorem bits_appendBit (h : buf.sizeBits < buf.capacityBytes * BITS_IN_BYTE) (bit : Bool) :
    ∃ buf', buf.appendBit bit = some buf' ∧ buf'.bits = buf.bits ++ [buf.staleBit || bit] := by
  obtain ⟨buf', happend⟩ := appendBit_isSome h bit
  obtain ⟨hsize, hdata⟩ := data_of_appendBit happend
  refine ⟨buf', happend, ?_⟩
  rw [bits, hsize, firstBits_succ, hdata, decide_eq_true rfl, Bool.true_and]
  refine congrArg (· ++ _) (firstBits_congr fun i hi => ?_)
  rw [hdata, decide_eq_false hi.ne, Bool.false_and, Bool.or_false]

theorem appendsBit_iff (h : buf.sizeBits < buf.capacityBytes * BITS_IN_BYTE) (bit : Bool) :
    buf.AppendsBit bit ↔ bit = true ∨ buf.staleBit = false := by
  obtain ⟨buf', happend, hbits⟩ := bits_appendBit h bit
  constructor
  · rintro ⟨buf'', happend', hbits'⟩
    rw [happend] at happend'
    cases happend'
    rw [hbits] at hbits'
    have hlast := List.append_cancel_left hbits'
    rw [List.cons.injEq] at hlast
    cases bit with
    | false => exact .inr ((Bool.or_false _).symm.trans hlast.1)
    | true => exact .inl rfl
  · intro hclear
    refine ⟨buf', happend, hbits.trans ?_⟩
    rcases hclear with rfl | hstale
    · rw [Bool.or_true]
    · rw [hstale, Bool.false_or]

end BitBuffer

/-! ## Histories -/

/-- What is done to a buffer. -/
inductive BitBufferOp
  | reset
  | copyBytes (data : List UInt8)
  | copyBits (data : List UInt8) (sizeBits : ℕ)
  | setSize (newSize : ℕ)
  | appendByte (byte : UInt8)
  | appendBytes (data : List UInt8)
  | appendBit (bit : Bool)

namespace BitBuffer

def perform (buf : BitBuffer) : BitBufferOp → Option BitBuffer
  | .reset => some buf.reset
  | .copyBytes data => buf.copyBytes data
  | .copyBits data sizeBits => buf.copyBits data sizeBits
  | .setSize newSize => buf.setSize newSize
  | .appendByte byte => buf.appendByte byte
  | .appendBytes data => buf.appendBytes data
  | .appendBit bit => buf.appendBit bit

/-- A failed check ends everything. -/
def step (buf : BitBuffer) (op : BitBufferOp) : Except Unit BitBuffer :=
  (buf.perform op).elim (.error ()) .ok

/-- The operation leaves no one behind the size that it gives the buffer. -/
def Clears (buf : BitBuffer) : BitBufferOp → Prop
  | .copyBytes data => ∀ i, 8 * data.length ≤ i → bitAt buf.data i = false
  | .copyBits data sizeBits => ∀ i, sizeBits ≤ i →
    if i < 8 * ((sizeBits + 7) / 8) then bitAt data i = false else bitAt buf.data i = false
  | .setSize newSize => ∀ i, newSize ≤ i → bitAt buf.data i = false
  | .appendBytes data => ∀ i, buf.sizeBits + 8 * data.length ≤ 8 * buf.sizeBytes + i →
    bitAt data i = false
  | .reset | .appendByte _ | .appendBit _ => True

/-- There is no one behind the size. -/
def Cleared (buf : BitBuffer) : Prop := ∀ i, buf.sizeBits ≤ i → bitAt buf.data i = false

variable {buf buf' : BitBuffer}

theorem sizeBits_le (buf : BitBuffer) : buf.sizeBits ≤ 8 * buf.sizeBytes := by
  unfold sizeBytes BITS_IN_BYTE
  split_ifs <;> omega

theorem Cleared.perform {op : BitBufferOp} (h : buf.Cleared) (hop : buf.Clears op)
    (hperform : buf.perform op = some buf') : buf'.Cleared := by
  have hbytes := buf.sizeBytes_le
  have hbits := buf.sizeBits_le
  intro i hi
  cases op with
  | reset =>
    cases hperform
    exact bitAt_replicate _ _
  | copyBytes data =>
    simp only [BitBuffer.perform, copyBytes] at hperform
    split_ifs at hperform
    rw [(eq_of_put hperform).2, BITS_IN_BYTE] at hi
    rw [data_of_put (Nat.zero_le _) hperform, if_neg (by omega)]
    exact hop i (by omega)
  | copyBits data sizeBits =>
    simp only [BitBuffer.perform, copyBits] at hperform
    split_ifs at hperform with hfits
    rw [(eq_of_put hperform).2] at hi
    rw [data_of_put (Nat.zero_le _) hperform]
    have hclear := hop i hi
    unfold BITS_IN_BYTE at hfits ⊢
    rw [List.length_take, Nat.min_eq_left hfits.2, Nat.zero_add, Nat.mul_zero, Nat.sub_zero]
    split_ifs at hclear with hlt
    · rw [if_pos ⟨Nat.zero_le _, hlt⟩, bitAt_take (by omega), hclear]
    · rw [if_neg (fun hno => hlt hno.2), hclear]
  | setSize newSize =>
    have hput : buf.put 0 [] newSize = some buf' := hperform
    rw [(eq_of_put hput).2] at hi
    rw [data_of_put (Nat.zero_le _) hput, if_neg (by simp)]
    exact hop i hi
  | appendByte byte =>
    simp only [BitBuffer.perform, appendByte] at hperform
    split_ifs at hperform
    rw [(eq_of_put hperform).2, BITS_IN_BYTE] at hi
    rw [data_of_put hbytes hperform, List.length_singleton, if_neg (by omega)]
    exact h i (by omega)
  | appendBytes data =>
    simp only [BitBuffer.perform, appendBytes] at hperform
    split_ifs at hperform
    rw [(eq_of_put hperform).2, BITS_IN_BYTE] at hi
    rw [data_of_put hbytes hperform]
    split_ifs with hin
    · exact hop _ (by omega)
    · exact h i (by omega)
  | appendBit bit =>
    obtain ⟨hsize, hdata⟩ := data_of_appendBit hperform
    rw [hdata, h i (by omega), decide_eq_false (by omega), Bool.false_and]
    rfl

theorem Cleared.exec {ops : List BitBufferOp} (h : buf.Cleared)
    (hops : ExecAlong Clears step buf ops) (hexec : exec step buf ops = .ok buf') :
    buf'.Cleared := by
  refine (exec_inv (Q := fun _ => True) (fun buf op hbuf hop => ?_) ops h hops).of_ok hexec
  unfold step
  cases hperform : buf.perform op with
  | none => trivial
  | some buf'' => exact hbuf.perform hop hperform

/-- In every state that a history leads to, a one is appended if there is room, and a zero exactly
if the bit behind the size is no one that was left there; so both are in every state that a history
leads to whose operations leave no one behind the size. -/
theorem appendsBit_history (capacityBytes : ℕ) (ops : List BitBufferOp)
    (buf : BitBuffer) (hexec : exec step (alloc capacityBytes) ops = .ok buf)
    (hroom : buf.sizeBits < buf.capacityBytes * BITS_IN_BYTE) :
    (∀ bit, buf.AppendsBit bit ↔ bit = true ∨ buf.staleBit = false) ∧
    (ExecAlong Clears step (alloc capacityBytes) ops → ∀ bit, buf.AppendsBit bit) := by
  refine ⟨appendsBit_iff hroom, fun hops bit => (appendsBit_iff hroom bit).2 (.inr ?_)⟩
  have hstart : (alloc capacityBytes).Cleared := fun i _ => bitAt_replicate _ _
  exact hstart.exec hops hexec buf.sizeBits le_rfl

theorem appendsBit_history_appendByte :
    (⟨[5, 0], 8, by decide⟩ : BitBuffer).AppendsBit false :=
  (appendsBit_history 2 [.appendByte 5] ⟨[5, 0], 8, by decide⟩ rfl (by decide)).2
    ⟨trivial, fun _ _ => trivial⟩ false

/-- After a byte of ones was copied into a buffer and its size was set to zero, a one is appended
instead of a zero. -/
theorem not_appendsBit : ¬∀ (capacityBytes : ℕ) (ops : List BitBufferOp)
    (buf : BitBuffer), exec step (alloc capacityBytes) ops = .ok buf →
    buf.sizeBits < buf.capacityBytes * BITS_IN_BYTE → ∀ bit, buf.AppendsBit bit := fun h =>
  absurd ((appendsBit_iff (by decide) false).1
    (h 1 [.copyBytes [0xFF], .setSize 0] ⟨[0xFF], 0, Nat.zero_le _⟩ rfl (by decide) false))
    (by decide)

end BitBuffer

end KiisuFirmware
