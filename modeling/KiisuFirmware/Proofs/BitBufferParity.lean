import KiisuFirmware.ByteBits
import KiisuFirmware.BitBuffer
import KiisuFirmware.Proofs.BitBuffer

/-!
# Nine bits for a byte

Whatever their alignment, a step of either loop concerns the nine bits of one byte, two bytes of the
stream and one bit of the parity array. What is added to a cell is added to zeros, since the first
bit of a cell replaces all of it.
-/

namespace KiisuFirmware

/-! ## Bits and bytes -/

theorem testBit_furiBit (x : UInt8) (n i : ℕ) :
    (furiBit x n).toNat.testBit i = (decide (i = 0) && x.toNat.testBit n) := by
  have hbit : furiBit x n = (x.toNat.testBit n).toUInt8 := by
    rw [furiBit, Nat.testBit_eq_decide_div_mod_eq, Nat.shiftRight_eq_div_pow]
    rcases Nat.mod_two_eq_zero_or_one (x.toNat / 2 ^ n) with h | h <;> rw [h] <;> rfl
  rw [hbit, testBit_bool]

theorem storeByte_eq {bytes : List UInt8} {index : ℕ} (h : index < bytes.length) (byte : UInt8) :
    ∃ bytes', storeByte bytes index byte = some bytes' ∧ bytes'.length = bytes.length ∧
      ∀ i, bitAt bytes' i =
        if i / 8 = index then byte.toNat.testBit (i % 8) else bitAt bytes i := by
  refine ⟨bytes.set index byte, if_pos h, List.length_set, bitAt_set h byte⟩

namespace ParityBuffer

variable {buf : ParityBuffer}

theorem ofParts_eq {data parity : List UInt8} {sizeBits : ℕ} (hdata : data.length = buf.data.length)
    (hparity : parity.length = buf.parity.length) (hsize : sizeBits ≤ data.length * BITS_IN_BYTE) :
    ∃ buf', ofParts data sizeBits parity = some buf' ∧ buf'.data = data ∧
      buf'.sizeBits = sizeBits ∧ buf'.parity = parity := by
  have hparts : sizeBits ≤ data.length * BITS_IN_BYTE ∧
      parity.length = (data.length + BITS_IN_BYTE - 1) / BITS_IN_BYTE :=
    ⟨hsize, by rw [hparity, hdata, buf.paritySize]⟩
  exact ⟨⟨⟨data, sizeBits, hparts.1⟩, parity, hparts.2⟩, dif_pos hparts, rfl, rfl, rfl⟩

theorem parity_place {index : ℕ} (h : index < buf.data.length) : index / 8 < buf.parity.length := by
  rw [buf.paritySize, BITS_IN_BYTE]
  omega

/-! ## Writing -/

/-- A bit of the stream: of nine bits, the first eight are those of a byte and the last is its
parity bit. -/
def streamBit (buf : ParityBuffer) (j : ℕ) : Bool :=
  if j % 9 = 8 then bitAt buf.parity (j / 9) else bitAt buf.data (8 * (j / 9) + j % 9)

theorem streamBit_byte (buf : ParityBuffer) {i k : ℕ} (hk : k < 8) :
    buf.streamBit (9 * i + k) = bitAt buf.data (8 * i + k) := by
  rw [streamBit, if_neg (by omega), show (9 * i + k) / 9 = i by omega,
    show (9 * i + k) % 9 = k by omega]

theorem streamBit_parity (buf : ParityBuffer) (i : ℕ) :
    buf.streamBit (9 * i + 8) = bitAt buf.parity i := by
  rw [streamBit, if_pos (by omega), show (9 * i + 8) / 9 = i by omega]

/-- The bits of so many bytes are written, and nothing else. -/
def Written (buf : ParityBuffer) (size i : ℕ) (bitstream : List UInt8) : Prop :=
  bitstream.length = size ∧ ∀ j, bitAt bitstream j = (decide (j < 9 * i) && buf.streamBit j)

/-- The bits of two bytes of the stream after a step, where the second byte is new. -/
theorem Written.next {size i offset : ℕ} {bitstream bitstream' : List UInt8} {byte next cell : UInt8}
    (h : buf.Written size i bitstream) (hlength : bitstream'.length = bitstream.length)
    (hbyte : ∀ k < 8, byte.toNat.testBit k = bitAt buf.data (8 * i + k))
    (hnext : next = furiBit cell (i % 8))
    (hcell : ∀ k < 8, cell.toNat.testBit k = bitAt buf.parity (8 * (i / 8) + k))
    (hoffset : offset = 9 * i % 8)
    (hbits : ∀ j, bitAt bitstream' j =
      if j / 8 = 9 * i / 8 + 1 then
        (byte.toNat.testBit (8 - offset + j % 8) ||
          (decide (offset ≤ j % 8) && next.toNat.testBit (j % 8 - offset)))
      else if j / 8 = 9 * i / 8 then
        (bitAt bitstream j || (decide (offset ≤ j % 8) && byte.toNat.testBit (j % 8 - offset)))
      else bitAt bitstream j) : buf.Written size (i + 1) bitstream' := by
  refine ⟨hlength.trans h.1, fun j => ?_⟩
  have hparity := hcell (i % 8) (by omega)
  rw [show 8 * (i / 8) + i % 8 = i by omega] at hparity
  rw [hbits j, h.2 j, hnext, testBit_furiBit, hparity]
  rcases Nat.lt_or_ge j (9 * i) with hbefore | hfrom
  · have hnext : j < 9 * (i + 1) := by omega
    rw [if_neg (by omega), decide_eq_true hbefore, decide_eq_true hnext]
    split_ifs
    · have hlow : ¬offset ≤ j % 8 := by omega
      rw [decide_eq_false hlow, Bool.false_and, Bool.or_false]
    · rfl
  rw [decide_eq_false (Nat.not_lt.2 hfrom), Bool.false_and, Bool.false_or]
  rcases Nat.lt_or_ge j (9 * i + 8) with hin | hafter
  · obtain ⟨k, rfl⟩ := Nat.exists_eq_add_of_le hfrom
    have hk : k < 8 := by omega
    have hnext : 9 * i + k < 9 * (i + 1) := by omega
    rw [streamBit_byte buf hk, ← hbyte k hk, decide_eq_true hnext, Bool.true_and]
    split_ifs with hsecond hfirst
    · have hplace : 8 - offset + (9 * i + k) % 8 = k := by omega
      have hother : offset ≤ (9 * i + k) % 8 → (9 * i + k) % 8 - offset ≠ 0 := by omega
      rw [hplace]
      by_cases hle : offset ≤ (9 * i + k) % 8
      · simp [hother hle]
      · simp [hle]
    · have hle : offset ≤ (9 * i + k) % 8 := by omega
      have hplace : (9 * i + k) % 8 - offset = k := by omega
      rw [hplace, decide_eq_true hle, Bool.true_and]
    · omega
  · rcases hafter.eq_or_lt with rfl | hbehind
    · have hplace : (9 * i + 8) % 8 = offset := by omega
      have hnext : 9 * i + 8 < 9 * (i + 1) := by omega
      rw [if_pos (by omega), hplace, streamBit_parity, testBit_of_le _ (by omega)]
      simp [hnext]
    · have hnext : ¬j < 9 * (i + 1) := by omega
      rw [if_neg (by omega : ¬j / 8 = 9 * i / 8), decide_eq_false hnext]
      split_ifs
      · have hother : ¬(offset ≤ j % 8 ∧ j % 8 - offset = 0) := by omega
        rw [testBit_of_le _ (by omega)]
        simp only [not_and] at hother
        by_cases hle : offset ≤ j % 8
        · simp [hother hle]
        · simp [hle]
      · rfl

theorem Written.step {size i : ℕ} {bitstream : List UInt8} (left : ℕ)
    (h : buf.Written size i bitstream) (hi : i < buf.data.length) (hsize : 9 * (i + 1) ≤ 8 * size)
    (hmax : 9 * (i + 1) < 2 ^ 16) :
    ∃ bitstream', buf.writeGroups (left + 1) i (UInt16.ofNat (9 * i)) bitstream =
      buf.writeGroups left (i + 1) (UInt16.ofNat (9 * (i + 1))) bitstream' ∧
      buf.Written size (i + 1) bitstream' := by
  obtain ⟨cell, hcell, hcellBits⟩ := getElem?_bits (parity_place hi)
  obtain ⟨byte, hbyte, hbyteBits⟩ := getElem?_bits hi
  have hpos : (UInt16.ofNat (9 * i)).toNat = 9 * i := by
    rw [UInt16.toNat_ofNat']
    omega
  have hlength := h.1
  rw [writeGroups]
  simp only [BITS_IN_BYTE, hcell, hbyte, hpos, Option.bind_eq_bind, Option.bind_some]
  by_cases hoffset : 9 * i % 8 = 0
  · obtain ⟨first, hfirst, hfirstLength, hfirstBits⟩ :=
      @storeByte_eq bitstream (9 * i / 8) (by omega) byte
    have hpos' : (UInt16.ofNat (9 * i) + 8).toNat / 8 = 9 * i / 8 + 1 := by
      rw [UInt16.toNat_add, hpos]
      change (9 * i + 8) % 2 ^ 16 / 8 = _
      omega
    obtain ⟨second, hsecond, hsecondLength, hsecondBits⟩ :=
      @storeByte_eq first (9 * i / 8 + 1) (by omega) (furiBit cell (i % 8))
    have hnext : UInt16.ofNat (9 * i) + 8 + 1 = UInt16.ofNat (9 * (i + 1)) := by
      rw [← UInt16.toNat_inj, UInt16.toNat_add, UInt16.toNat_add, hpos, UInt16.toNat_ofNat']
      change ((9 * i + 8) % 2 ^ 16 + 1) % 2 ^ 16 = _
      omega
    rw [if_pos hoffset, hfirst, Option.bind_some, hpos', hsecond, Option.bind_some, hnext]
    refine ⟨second, rfl, h.next (hsecondLength.trans hfirstLength) hbyteBits rfl hcellBits
      hoffset.symm fun j => ?_⟩
    rw [hsecondBits, hfirstBits]
    split_ifs
    · rw [testBit_of_le byte (show 8 ≤ 8 - 0 + j % 8 by omega)]
      simp
    · have hfresh : ¬j < 9 * i := by omega
      rw [h.2, decide_eq_false hfresh]
      simp
    · rfl
  · obtain ⟨old, hold, holdBits⟩ := @getElem?_bits bitstream (9 * i / 8) (by omega)
    obtain ⟨first, hfirst, hfirstLength, hfirstBits⟩ :=
      @storeByte_eq bitstream (9 * i / 8) (by omega)
        (old ||| UInt8.ofNat (byte.toNat <<< (9 * i % 8)))
    obtain ⟨second, hsecond, hsecondLength, hsecondBits⟩ :=
      @storeByte_eq first (9 * i / 8 + 1) (by omega)
        (UInt8.ofNat (byte.toNat >>> (8 - 9 * i % 8)) |||
          UInt8.ofNat ((furiBit cell (i % 8)).toNat <<< (9 * i % 8)))
    have hnext : UInt16.ofNat (9 * i) + 9 = UInt16.ofNat (9 * (i + 1)) := by
      rw [← UInt16.toNat_inj, UInt16.toNat_add, hpos, UInt16.toNat_ofNat']
      rfl
    rw [if_neg hoffset, hold, Option.bind_some, hfirst, Option.bind_some, hsecond,
      Option.bind_some, hnext]
    refine ⟨second, rfl, h.next (hsecondLength.trans hfirstLength) hbyteBits rfl hcellBits rfl
      fun j => ?_⟩
    rw [hsecondBits, hfirstBits]
    split_ifs
    · rw [UInt8.toNat_or, Nat.testBit_or, testBit_ofNat_shiftRight _ _ (by omega),
        testBit_ofNat_shiftLeft _ _ (by omega)]
    · rw [UInt8.toNat_or, Nat.testBit_or, holdBits _ (by omega),
        testBit_ofNat_shiftLeft _ _ (by omega), show 8 * (9 * i / 8) + j % 8 = j by omega]
    · rfl

theorem Written.run {size : ℕ} : ∀ (left : ℕ) {i : ℕ} {bitstream : List UInt8},
    buf.Written size i bitstream → i + left ≤ buf.data.length → 9 * (i + left) ≤ 8 * size →
    9 * (i + left) < 2 ^ 16 →
    ∃ bitstream', buf.writeGroups left i (UInt16.ofNat (9 * i)) bitstream =
      some (bitstream', UInt16.ofNat (9 * (i + left))) ∧ buf.Written size (i + left) bitstream'
  | 0, i, bitstream, h, _, _, _ => ⟨bitstream, rfl, h⟩
  | left + 1, i, bitstream, h, hlength, hsize, hmax => by
    obtain ⟨bitstream₁, hstep, h₁⟩ := h.step left (by omega) (by omega) (by omega)
    obtain ⟨bitstream', hrun, h'⟩ := h₁.run left (by omega) (by omega) (by omega)
    rw [show i + (left + 1) = i + 1 + left by omega]
    exact ⟨bitstream', hstep.trans hrun, h'⟩

theorem writeBytesWithParity_eq {n count : ℕ} (hsize : buf.sizeBits = n * BITS_IN_BYTE)
    (hmax : 9 * n ≤ 65535) (hcount : (n * 9 + 8) / 8 ≤ count) :
    ∃ bitstream, buf.writeBytesWithParity (List.replicate count 0) = some (bitstream, 9 * n) ∧
      buf.Written count n bitstream := by
  have hbytes : buf.sizeBytes = n := by
    rw [BitBuffer.sizeBytes, hsize, BITS_IN_BYTE, if_neg (by omega)]
    omega
  have hfits := buf.sizeBytes_le
  have hstart : buf.Written count 0 (List.replicate count 0) :=
    ⟨List.length_replicate, fun j => by simp⟩
  obtain ⟨bitstream, hrun, hwritten⟩ := hstart.run n (by omega) (by omega) (by omega)
  rw [Nat.zero_add] at hrun hwritten
  refine ⟨bitstream, ?_, hwritten⟩
  have hroom : (n * (BITS_IN_BYTE + 1) + BITS_IN_BYTE) / BITS_IN_BYTE ≤
      (List.replicate count (0 : UInt8)).length := by
    rw [List.length_replicate]
    exact hcount
  have hstream : buf.writeGroups n 0 0 (List.replicate count 0) =
      some (bitstream, UInt16.ofNat (9 * n)) := hrun
  have hpos : (UInt16.ofNat (9 * n)).toNat = 9 * n := by
    rw [UInt16.toNat_ofNat']
    omega
  rw [writeBytesWithParity, hbytes, if_pos hroom, hstream]
  exact congrArg (fun pos => some (bitstream, pos)) hpos

/-! ## Reading -/

/-- The groups that were read, and what is behind them in the last cell. -/
structure Groups (source data₀ data parity₀ parity : List UInt8) (i : ℕ) : Prop where
  dataLength : data.length = data₀.length
  parityLength : parity.length = parity₀.length
  dataBits : ∀ j < i, ∀ k < 8, bitAt data (8 * j + k) = bitAt source (9 * j + k)
  parityBits : ∀ j < 8 * ((i + 7) / 8),
    bitAt parity j = (decide (j < i) && bitAt source (9 * j + 8))

theorem Groups.step {source data₀ data parity₀ parity : List UInt8} {i : ℕ} (groups : ℕ)
    (h : Groups source data₀ data parity₀ parity i) (hdata : i < data₀.length)
    (hparity : i / 8 < parity₀.length) (hsource : 9 * (i + 1) ≤ 8 * source.length) :
    ∃ data' parity', copyGroups source (groups + 1) (9 * i) i data parity =
        copyGroups source groups (9 * (i + 1)) (i + 1) data' parity' ∧
      Groups source data₀ data' parity₀ parity' (i + 1) := by
  have hdataLength := h.dataLength
  have hparityLength := h.parityLength
  obtain ⟨low, hlow, hlowBits⟩ := @getElem?_bits source (9 * i / 8) (by omega)
  obtain ⟨high, hhigh, hhighBits⟩ := @getElem?_bits source (9 * i / 8 + 1) (by omega)
  obtain ⟨cell, hcell, hcellBits⟩ := @getElem?_bits parity (i / 8) (by omega)
  obtain ⟨data', hstore, hlength, hbits⟩ := @storeByte_eq data i (by omega)
    (UInt8.ofNat (low.toNat >>> (9 * i % 8)) ||| UInt8.ofNat (high.toNat <<< (8 - 9 * i % 8)))
  obtain ⟨parity', hstore', hlength', hbits'⟩ := @storeByte_eq parity (i / 8) (by omega)
    (if 9 * i % 8 = 0 then furiBit high (9 * i % 8)
    else cell ||| UInt8.ofNat ((furiBit high (9 * i % 8)).toNat <<< (9 * i % 8)))
  refine ⟨data', parity', ?_, hlength.trans hdataLength, hlength'.trans hparityLength,
    fun j hj k hk => ?_, fun j hj => ?_⟩
  · rw [copyGroups]
    simp only [BITS_IN_BYTE, hlow, hhigh, hcell, hstore, Option.bind_eq_bind, Option.bind_some]
    exact congrArg (Option.bind · _) hstore'
  · rw [hbits, show (8 * j + k) / 8 = j by omega, show (8 * j + k) % 8 = k by omega]
    split_ifs with hji
    · subst hji
      rw [UInt8.toNat_or, Nat.testBit_or, testBit_ofNat_shiftRight _ _ hk,
        testBit_ofNat_shiftLeft _ _ hk]
      rcases Nat.lt_or_ge (9 * j % 8 + k) 8 with hin | hout
      · have hle : ¬8 - 9 * j % 8 ≤ k := by omega
        rw [hlowBits _ hin, decide_eq_false hle, Bool.false_and, Bool.or_false,
          show 8 * (9 * j / 8) + (9 * j % 8 + k) = 9 * j + k by omega]
      · have hle : 8 - 9 * j % 8 ≤ k := by omega
        rw [testBit_of_le _ hout, hhighBits _ (by omega), decide_eq_true hle, Bool.true_and,
          Bool.false_or,
          show 8 * (9 * j / 8 + 1) + (k - (8 - 9 * j % 8)) = 9 * j + k by omega]
    · exact h.dataBits j (by omega) k hk
  · have hbit : high.toNat.testBit (9 * i % 8) = bitAt source (9 * i + 8) := by
      rw [hhighBits _ (by omega), show 8 * (9 * i / 8 + 1) + 9 * i % 8 = 9 * i + 8 by omega]
    rw [hbits']
    by_cases hplace : j / 8 = i / 8
    · rw [if_pos hplace]
      by_cases hfirst : 9 * i % 8 = 0
      · rw [if_pos hfirst, testBit_furiBit, hbit]
        rcases Nat.eq_or_lt_of_le (show i ≤ j by omega) with rfl | hlt
        · simp [show i % 8 = 0 by omega]
        · have hother : ¬j % 8 = 0 := by omega
          have hout : ¬j < i + 1 := by omega
          rw [decide_eq_false hother, decide_eq_false hout, Bool.false_and, Bool.false_and]
      · have hrest : i % 8 ≠ 0 := by omega
        have hcells : (i + 7) / 8 = i / 8 + 1 := by omega
        have hold := h.parityBits j (by omega)
        rw [if_neg hfirst, UInt8.toNat_or, Nat.testBit_or, hcellBits _ (by omega),
          show 8 * (i / 8) + j % 8 = j by omega, hold, testBit_ofNat_shiftLeft _ _ (by omega),
          testBit_furiBit, hbit]
        rcases Nat.lt_trichotomy j i with hlt | rfl | hgt
        · have hin : j < i + 1 := by omega
          have hnot : ¬9 * i % 8 ≤ j % 8 := by omega
          simp [hlt, hin, hnot]
        · have hle : 9 * j % 8 = j % 8 := by omega
          simp [hle]
        · have hout : ¬j < i + 1 := by omega
          have hnot : ¬j % 8 - 9 * i % 8 = 0 := by omega
          simp [hout, hnot, hgt.not_gt]
    · have hin : j < i := by omega
      have hin' : j < i + 1 := by omega
      rw [if_neg hplace, h.parityBits j (by omega), decide_eq_true hin, decide_eq_true hin']

theorem Groups.run {source data₀ parity₀ : List UInt8} : ∀ (groups : ℕ) {i : ℕ}
    {data parity : List UInt8}, Groups source data₀ data parity₀ parity i →
    i + groups ≤ data₀.length → (data₀.length + 7) / 8 ≤ parity₀.length →
    9 * (i + groups) ≤ 8 * source.length →
    ∃ data' parity', copyGroups source groups (9 * i) i data parity =
        some (i + groups, data', parity') ∧
      Groups source data₀ data' parity₀ parity' (i + groups)
  | 0, i, data, parity, h, _, _, _ => ⟨data, parity, rfl, h⟩
  | groups + 1, i, data, parity, h, hdata, hparity, hsource => by
    obtain ⟨data₁, parity₁, hstep, h₁⟩ :=
      h.step groups (by omega) (by omega) (by omega)
    obtain ⟨data', parity', hrun, h'⟩ := h₁.run groups (by omega) hparity (by omega)
    rw [show i + (groups + 1) = i + 1 + groups by omega]
    exact ⟨data', parity', hstep.trans hrun, h'⟩

theorem copyBytesWithParity_eq {source : List UInt8} {n : ℕ} (hn : 0 < n)
    (hsource : 9 * n ≤ 8 * source.length) (hfits : n ≤ buf.capacityBytes) :
    ∃ buf', buf.copyBytesWithParity source (9 * n) = some buf' ∧
      buf'.sizeBits = n * BITS_IN_BYTE ∧ buf'.data.length = buf.data.length ∧
      (∀ j < n, ∀ k < 8, bitAt buf'.data (8 * j + k) = bitAt source (9 * j + k)) ∧
      ∀ j < n, bitAt buf'.parity j = bitAt source (9 * j + 8) := by
  have hstart : Groups source buf.data buf.data buf.parity buf.parity 0 :=
    ⟨rfl, rfl, fun j hj => absurd hj (Nat.not_lt_zero j), fun j hj => absurd hj (by omega)⟩
  have hcells : (buf.data.length + 7) / 8 ≤ buf.parity.length := by
    rw [buf.paritySize]
    rfl
  obtain ⟨data, parity, hrun, h⟩ := hstart.run n (by rw [Nat.zero_add]; exact hfits) hcells
    (by omega)
  rw [Nat.zero_add, Nat.mul_zero] at hrun
  rw [Nat.zero_add] at h
  obtain ⟨buf', hparts, hdata, hsize, hparity⟩ :=
    @ofParts_eq buf data parity (n * BITS_IN_BYTE) h.dataLength h.parityLength
      (by rw [h.dataLength]; exact Nat.mul_le_mul_right _ hfits)
  have hgroups : copyGroups source (9 * n / (BITS_IN_BYTE + 1)) 0 0 buf.data buf.parity =
      some (n, data, parity) := by
    rw [BITS_IN_BYTE, Nat.mul_div_cancel_left n (by norm_num)]
    exact hrun
  refine ⟨buf', ?_, hsize, hdata ▸ h.dataLength, hdata ▸ h.dataBits, fun j hj => ?_⟩
  · rw [copyBytesWithParity, if_neg (by rw [BITS_IN_BYTE]; omega),
      if_neg (by rw [BITS_IN_BYTE]; omega), hgroups]
    exact hparts
  · rw [hparity, h.parityBits j (by omega), decide_eq_true hj, Bool.true_and]

/-- The bytes of a buffer are written with their parity bits, nine bits for each, and read back from
what was written. -/
theorem parity_roundTrip (buf : ParityBuffer) {n count : ℕ} (hn : 1 ≤ n) (hmax : 9 * n ≤ 65535)
    (hsize : buf.sizeBits = n * BITS_IN_BYTE) (hcount : (n * 9 + 8) / 8 ≤ count) :
    ∃ bitstream, buf.writeBytesWithParity (List.replicate count 0) = some (bitstream, 9 * n) ∧
      bitstream.length = count ∧
      (∀ i < n, (∀ k < 8, bitAt bitstream (9 * i + k) = (buf.data.getD i 0).toNat.testBit k) ∧
        bitAt bitstream (9 * i + 8) = bitAt buf.parity i) ∧
      (∀ j, 9 * n ≤ j → bitAt bitstream j = false) ∧
      ∀ other : ParityBuffer, n ≤ other.capacityBytes →
        ∃ restored, other.copyBytesWithParity bitstream (9 * n) = some restored ∧
          restored.sizeBits = n * BITS_IN_BYTE ∧ restored.data.take n = buf.data.take n ∧
          ∀ i < n, bitAt restored.parity i = bitAt buf.parity i := by
  obtain ⟨bitstream, hwrite, hlength, hbits⟩ := writeBytesWithParity_eq hsize hmax hcount
  have hbyte : ∀ i < n, ∀ k < 8, bitAt bitstream (9 * i + k) = bitAt buf.data (8 * i + k) := by
    intro i hi k hk
    have hin : 9 * i + k < 9 * n := by omega
    rw [hbits, decide_eq_true hin, Bool.true_and, streamBit_byte buf hk]
  have hparity : ∀ i < n, bitAt bitstream (9 * i + 8) = bitAt buf.parity i := by
    intro i hi
    have hin : 9 * i + 8 < 9 * n := by omega
    rw [hbits, decide_eq_true hin, Bool.true_and, streamBit_parity]
  have hfits := buf.fits
  rw [hsize] at hfits
  unfold BITS_IN_BYTE at hfits
  refine ⟨bitstream, hwrite, hlength, fun i hi => ⟨fun k hk => ?_, hparity i hi⟩, fun j hj => ?_,
    fun other hother => ?_⟩
  · rw [hbyte i hi k hk, bitAt_byte _ _ hk]
  · rw [hbits, decide_eq_false (Nat.not_lt.2 hj), Bool.false_and]
  · obtain ⟨restored, hcopy, hsize', hlength', hdata, hcells⟩ :=
      @copyBytesWithParity_eq other bitstream n hn (by omega) hother
    refine ⟨restored, hcopy, hsize', ?_, fun i hi => (hcells i hi).trans (hparity i hi)⟩
    refine take_eq_of_bitAt (hlength'.symm ▸ hother) (by omega) fun j hj => ?_
    rw [← Nat.div_add_mod j 8, hdata _ (by omega) _ (by omega), hbyte _ (by omega) _ (by omega)]

/-- Two bytes and their parity bits. -/
theorem parity_roundTrip_two :
    ∃ bitstream, writeBytesWithParity ⟨⟨[0x5A, 0x81], 16, by decide⟩, [0x02], rfl⟩
      (List.replicate 3 0) = some (bitstream, 18) :=
  (parity_roundTrip ⟨⟨[0x5A, 0x81], 16, by decide⟩, [0x02], rfl⟩ (n := 2) (by decide) (by decide)
    rfl le_rfl).imp fun _ h => h.1

/-! ## Setting a byte -/

/-- A byte and its parity bit are set, and no other is changed. -/
def SetsByte (buf : ParityBuffer) (index : ℕ) (byte : UInt8) (parity : Bool) : Prop :=
  ∃ buf', buf.setByteWithParity index byte parity = some buf' ∧ buf'.sizeBits = buf.sizeBits ∧
    buf'.data = buf.data.set index byte ∧ bitAt buf'.parity index = parity ∧
    ∀ i < buf.capacityBytes, i ≠ index → bitAt buf'.parity i = bitAt buf.parity i

theorem setByteWithParity_eq {index : ℕ} (h : index < buf.sizeBits / BITS_IN_BYTE) (byte : UInt8)
    (parity : Bool) : ∃ buf', buf.setByteWithParity index byte parity = some buf' ∧
      buf'.sizeBits = buf.sizeBits ∧ buf'.data = buf.data.set index byte ∧
      ∀ i, bitAt buf'.parity i =
        if i / 8 = index / 8 then
          if index % 8 = 0 then decide (i = index) && parity
          else bitAt buf.parity i || (decide (i = index) && parity)
        else bitAt buf.parity i := by
  have hfits := buf.fits
  have hindex : index < buf.data.length := by
    unfold BITS_IN_BYTE at *
    omega
  obtain ⟨cell, hcell, hcellBits⟩ := getElem?_bits (parity_place hindex)
  obtain ⟨cells, hstore, hlength, hbits⟩ := storeByte_eq (parity_place hindex)
    (if index % 8 = 0 then parity.toUInt8
    else cell ||| UInt8.ofNat (parity.toUInt8.toNat <<< (index % 8)))
  obtain ⟨buf', hparts, hdata, hsize, hparity⟩ := @ofParts_eq buf (buf.data.set index byte) cells
    buf.sizeBits List.length_set hlength (by rw [List.length_set]; exact hfits)
  refine ⟨buf', ?_, hsize, hdata, fun i => ?_⟩
  · have hbyte : storeByte buf.data index byte = some (buf.data.set index byte) := if_pos hindex
    rw [setByteWithParity, if_pos h]
    simp only [BITS_IN_BYTE] at hcell hstore ⊢
    rw [hbyte, hcell]
    exact (congrArg (Option.bind · _) hstore).trans hparts
  · rw [hparity, hbits]
    by_cases hplace : i / 8 = index / 8
    · have hsame : i % 8 = index % 8 ↔ i = index := by omega
      rw [if_pos hplace, if_pos hplace]
      split_ifs with hfirst
      · have hzero : i % 8 = 0 ↔ i = index := by omega
        rw [testBit_bool, decide_eq_decide.2 hzero]
      · have hold := hcellBits (i % 8) (by omega)
        rw [show 8 * (index / 8) + i % 8 = i by omega] at hold
        rw [UInt8.toNat_or, Nat.testBit_or, hold, testBit_ofNat_shiftLeft _ _ (by omega),
          testBit_bool]
        rcases Nat.lt_trichotomy (i % 8) (index % 8) with hlt | heq | hgt
        · have hne : i ≠ index := by omega
          simp [hne, hlt.not_ge]
        · simp [hsame.1 heq]
        · have hne : i ≠ index := by omega
          have hrest : ¬i % 8 - index % 8 = 0 := by omega
          simp [hne, hrest]
    · rw [if_neg hplace, if_neg hplace]

/-- A byte is set with its parity bit exactly if the others that share its cell with the first one
are zero, or it is not the first and its bit is set or was not. -/
theorem setsByte_iff (buf : ParityBuffer) {index : ℕ} (h : index < buf.sizeBits / BITS_IN_BYTE)
    (byte : UInt8) (parity : Bool) : buf.SetsByte index byte parity ↔
      if index % 8 = 0 then
        ∀ i < buf.capacityBytes, index < i → i < index + 8 → bitAt buf.parity i = false
      else parity = true ∨ bitAt buf.parity index = false := by
  obtain ⟨buf', hset, hsize, hdata, hbits⟩ := setByteWithParity_eq h byte parity
  have hsets : buf.SetsByte index byte parity ↔ bitAt buf'.parity index = parity ∧
      ∀ i < buf.capacityBytes, i ≠ index → bitAt buf'.parity i = bitAt buf.parity i := by
    constructor
    · rintro ⟨buf'', hset', -, -, hothers⟩
      rw [hset] at hset'
      cases hset'
      exact hothers
    · exact fun hothers => ⟨buf', hset, hsize, hdata, hothers⟩
  rw [hsets, hbits index, if_pos rfl]
  split_ifs with hfirst
  · constructor
    · rintro ⟨-, hothers⟩ i hi hlow hhigh
      have hi' := hothers i hi hlow.ne'
      rw [hbits, if_pos (by omega), if_pos hfirst, decide_eq_false hlow.ne', Bool.false_and] at hi'
      exact hi'.symm
    · intro hzero
      refine ⟨by simp, fun i hi hne => ?_⟩
      rw [hbits]
      split_ifs with hplace
      · rw [decide_eq_false hne, Bool.false_and, hzero i hi (by omega) (by omega)]
      · rfl
  · constructor
    · rintro ⟨hindex, -⟩
      rw [decide_eq_true rfl, Bool.true_and] at hindex
      cases parity with
      | true => exact .inl rfl
      | false => exact .inr ((Bool.or_false _).symm.trans hindex)
    · intro hclear
      refine ⟨?_, fun i hi hne => ?_⟩
      · rcases hclear with rfl | hzero
        · simp
        · simp [hzero]
      · rw [hbits]
        split_ifs
        · rw [decide_eq_false hne, Bool.false_and, Bool.or_false]
        · rfl

/-- The second byte of a buffer, which has had no parity bit. -/
theorem setsByte_iff_second : SetsByte ⟨⟨[0, 0], 16, by decide⟩, [0], rfl⟩ 1 0xFF false :=
  (setsByte_iff ⟨⟨[0, 0], 16, by decide⟩, [0], rfl⟩ (by decide) 0xFF false).2 (.inr rfl)

/-- A parity bit that was set is not cleared. -/
theorem not_setsByte : ¬∀ (buf : ParityBuffer) (index : ℕ), index < buf.sizeBits / BITS_IN_BYTE →
    ∀ (byte : UInt8) (parity : Bool), buf.SetsByte index byte parity := fun h => by
  obtain ⟨buf', hset, -, -, hparity, -⟩ :=
    h ⟨⟨[0, 0], 16, by decide⟩, [2], rfl⟩ 1 (by decide) 0xFF false
  cases hset
  exact absurd hparity (by decide)

/-- Bytes and their parity bits are set one after the other, as everything that encrypts does. -/
def setBytes : ℕ → List (UInt8 × Bool) → ParityBuffer → Option ParityBuffer
  | _, [], buf => some buf
  | index, (byte, parity) :: rest, buf =>
    (buf.setByteWithParity index byte parity).bind (setBytes (index + 1) rest)

/-- The bits of the cell that is being filled are zero from here on. -/
def FreshFrom (buf : ParityBuffer) (index : ℕ) : Prop :=
  index % 8 ≠ 0 → ∀ i, index ≤ i → i / 8 = index / 8 → bitAt buf.parity i = false

theorem FreshFrom.next {buf' : ParityBuffer} {index : ℕ} {parity : Bool} (h : buf.FreshFrom index)
    (hbits : ∀ i, bitAt buf'.parity i =
      if i / 8 = index / 8 then
        if index % 8 = 0 then decide (i = index) && parity
        else bitAt buf.parity i || (decide (i = index) && parity)
      else bitAt buf.parity i) : bitAt buf'.parity index = parity ∧ buf'.FreshFrom (index + 1) := by
  refine ⟨?_, fun hnext i hi hplace => ?_⟩
  · rw [hbits, if_pos rfl]
    split_ifs with hfirst
    · simp
    · simp [h hfirst index le_rfl rfl]
  · have hne : ¬i = index := by omega
    rw [hbits, if_pos (by omega), decide_eq_false hne, Bool.false_and, Bool.or_false]
    split_ifs with hfirst
    · rfl
    · exact h hfirst i (by omega) (by omega)

/-- Whatever was in a buffer, what is set from its start on is there afterwards. -/
theorem setBytes_eq : ∀ (values : List (UInt8 × Bool)) {buf : ParityBuffer} {index : ℕ},
    buf.FreshFrom index → index + values.length ≤ buf.sizeBits / BITS_IN_BYTE →
    ∃ buf', setBytes index values buf = some buf' ∧
      (∀ i < index, bitAt buf'.parity i = bitAt buf.parity i ∧ buf'.data[i]? = buf.data[i]?) ∧
      ∀ i (hi : i < values.length), buf'.data[index + i]? = some values[i].1 ∧
        bitAt buf'.parity (index + i) = values[i].2
  | [], buf, index, _, _ =>
    ⟨buf, rfl, fun _ _ => ⟨rfl, rfl⟩, fun i hi => absurd hi (Nat.not_lt_zero i)⟩
  | (byte, parity) :: values, buf, index, hfresh, hroom => by
    rw [List.length_cons] at hroom
    have hfits := buf.fits
    have hindex : index < buf.data.length := by
      unfold BITS_IN_BYTE at *
      omega
    obtain ⟨buf₁, hset, hsize, hdata, hbits⟩ :=
      @setByteWithParity_eq buf index (by omega) byte parity
    obtain ⟨hparity, hfresh₁⟩ := hfresh.next hbits
    obtain ⟨buf', hrest, hbefore, hafter⟩ :=
      @setBytes_eq values buf₁ (index + 1) hfresh₁ (by rw [hsize]; omega)
    refine ⟨buf', by rw [setBytes, hset]; exact hrest, fun i hi => ?_, fun i hi => ?_⟩
    · obtain ⟨hcell, hbyte⟩ := hbefore i (by omega)
      have hne : ¬i = index := by omega
      rw [hcell, hbyte, hdata, List.getElem?_set_ne (Ne.symm hne), hbits]
      refine ⟨?_, rfl⟩
      split_ifs with hplace hfirst
      · omega
      · rw [decide_eq_false hne, Bool.false_and, Bool.or_false]
      · rfl
    · cases i with
      | zero =>
        obtain ⟨hcell, hbyte⟩ := hbefore index (Nat.lt_succ_self _)
        rw [Nat.add_zero, hcell, hbyte, hparity, hdata, List.getElem?_set_self hindex]
        exact ⟨rfl, rfl⟩
      | succ i =>
        have hnext := hafter i (Nat.lt_of_succ_lt_succ hi)
        rw [show index + 1 + i = index + (i + 1) by omega] at hnext
        exact hnext

/-- Whatever the parity bits have been, those of the bytes that are set from the first one on are
right afterwards. -/
theorem setBytes_sets (buf : ParityBuffer) {values : List (UInt8 × Bool)}
    (hroom : values.length ≤ buf.sizeBits / BITS_IN_BYTE) :
    ∃ buf', setBytes 0 values buf = some buf' ∧ ∀ i (hi : i < values.length),
      buf'.data[i]? = some values[i].1 ∧ bitAt buf'.parity i = values[i].2 := by
  obtain ⟨buf', hset, -, hvalues⟩ :=
    @setBytes_eq values buf 0 (fun hfirst => absurd rfl hfirst) (by rwa [Nat.zero_add])
  refine ⟨buf', hset, fun i hi => ?_⟩
  have hvalue := hvalues i hi
  rwa [Nat.zero_add] at hvalue

theorem setBytes_sets_stale : ∃ buf', setBytes 0 [(0x12, true), (0x34, false)]
    ⟨⟨[0, 0], 16, by decide⟩, [0xFF], rfl⟩ = some buf' ∧ ∀ i (hi : i < 2),
      buf'.data[i]? = some ([(0x12, true), (0x34, false)] : List (UInt8 × Bool))[i].1 ∧
        bitAt buf'.parity i = ([(0x12, true), (0x34, false)] : List (UInt8 × Bool))[i].2 :=
  setBytes_sets _ (by decide)

end ParityBuffer

end KiisuFirmware
