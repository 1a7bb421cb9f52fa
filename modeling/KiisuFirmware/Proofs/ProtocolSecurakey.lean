import KiisuFirmware.ProtocolSecurakey
import KiisuFirmware.Proofs.BitLib
import KiisuFirmware.Proofs.Manchester

/-!
# Securakey cards are read as they are sent

Nine ones in a row stand nowhere in a frame but at its start, so that a decoder reads whole frames
only. Of the longer format the encoder takes seven bits of the facility number from the wrong place:
a card is read as another one unless these bits are the same.
-/

namespace KiisuFirmware

namespace ProtocolSecurakey

/-- The format of what a card has in it. -/
inductive Denotes (data : Vector UInt8 6) : UInt8 → Prop
  | rkkth (zero : data[0] = 0 ∧ data[1] = 0) : Denotes data 0
  | rkkt26 (zero : data[0] = 0 ∧ data[1] ≠ 0) : Denotes data 26
  | rkkt32 (high : data[0] < 64 ∧ data[0] ≠ 0) : Denotes data 32

/-- What is read of a card, and in which format, after so many bits of it were sent. -/
def readings (decoding encoding : ProtocolSecurakey) (data : Vector UInt8 6) (count : ℕ) :
    List (Vector UInt8 6 × UInt8) :=
  reads decoderFeed (fun protocol => (protocol.data, protocol.bitFormat)) decoding.decoderStart
    (onLine (yields encoderYield (2 * count) { encoding with data := data }.encoderStart))

/-- The places of the bits of a Wiegand word in a frame; in the middle there is another half. -/
def wiegandPlaces (format : UInt8) : List ℕ × List ℕ :=
  if format = 26 then
    ([35, 36] ++ List.range' 38 8 ++ List.range' 47 3, List.range' 50 5 ++ List.range' 56 8)
  else (List.range' 29 8 ++ List.range' 38 8, List.range' 47 8 ++ List.range' 56 8)

/-- The first half of the word has an even number of ones, and the second an odd one. -/
def ParityOk (encoding : ProtocolSecurakey) (data : Vector UInt8 6) (format : UInt8) : Prop :=
  let frame := encoder.bit { encoding with data := data }.encoderStart
  format ≠ 0 → parityOf ((wiegandPlaces format).1.map frame) = false ∧
    parityOf ((wiegandPlaces format).2.map frame) = true

/-- Whatever was done before, a card is read in the third frame at the latest, and never as another
one. -/
def RoundTrips (data : Vector UInt8 6) (format : UInt8) : Prop :=
  ∀ decoding encoding : ProtocolSecurakey,
    (∀ count, ∀ reading ∈ readings decoding encoding data count, reading = (data, format)) ∧
    readings decoding encoding data
      (3 * encoder.bitSize { encoding with data := data }.encoderStart) ≠ [] ∧
    ParityOk encoding data format

/-! ## Frames -/

section Frames

variable (protocol : ProtocolSecurakey)

theorem preamble_rkkth (i : ℕ) :
    (if 8 ≤ i ∧ i < 11 then (0b110 : UInt8).toNat.testBit (3 - 1 - (i - 8))
      else if 0 ≤ i ∧ i < 8 then (0b01111111 : UInt8).toNat.testBit (8 - 1 - (i - 0)) else false) =
      decide (1 ≤ i ∧ i < 10) := by
  by_cases hi : i < 11
  · interval_cases i <;> rfl
  · rw [if_neg (by omega), if_neg (by omega), decide_eq_false (by omega)]

/-- The bits of the shorter frame. -/
def rkkthBit (d : ℕ → Bool) (i : ℕ) : Bool :=
  if 56 ≤ i ∧ i < 64 then d (40 + (i - 56))
  else if 47 ≤ i ∧ i < 55 then d (32 + (i - 47))
  else if 38 ≤ i ∧ i < 46 then d (24 + (i - 38))
  else if 29 ≤ i ∧ i < 37 then d (16 + (i - 29))
  else decide (1 ≤ i ∧ i < 10)

theorem getBit_encodeRkkth {i : ℕ} (hi : i < 64) :
    bitLibGetBit protocol.encodeRkkth i = rkkthBit (bitLibGetBit protocol.data) i := by
  unfold encodeRkkth
  dsimp only
  rw [getBit_copyBits (by norm_num) hi, getBit_copyBits (by norm_num) hi,
    getBit_copyBits (by norm_num) hi, getBit_copyBits (by norm_num) hi,
    getBit_setBits (by norm_num) (by norm_num) _ hi, getBit_setBits (by norm_num) (by norm_num) _ hi,
    getBit_replicate, preamble_rkkth]
  rfl

theorem preamble_rkkt (i : ℕ) :
    (if 8 ≤ i ∧ i < 13 then (0b11001 : UInt8).toNat.testBit (5 - 1 - (i - 8))
      else if 0 ≤ i ∧ i < 8 then (0b01111111 : UInt8).toNat.testBit (8 - 1 - (i - 0)) else false) =
      decide (1 ≤ i ∧ i < 10 ∨ i = 12) := by
  by_cases hi : i < 13
  · interval_cases i <;> rfl
  · rw [if_neg (by omega), if_neg (by omega), decide_eq_false (by omega)]

theorem getBit_setBitIf {condition : Bool} {encoded : Vector UInt8 12} {position i : ℕ}
    (hposition : position < 96) (hi : i < 96) (hclear : bitLibGetBit encoded position = false) :
    bitLibGetBit (setBitIf condition encoded position) i =
      if i = position then condition else bitLibGetBit encoded i := by
  cases condition with
  | true => exact getBit_setBit hposition true hi
  | false =>
    show bitLibGetBit encoded i = _
    split_ifs with h
    · rw [h, hclear]
    · rfl

/-- A frame of one of the two formats with a Wiegand word: where the word starts, where its
facility number is taken from in front of and behind a spacer, and how long its halves are. -/
structure RkktFormat where
  format : UInt8
  start : ℕ
  first : ℕ
  second : ℕ
  half : ℕ
  deriving DecidableEq

def rkkt26 : RkktFormat := ⟨26, 36, 8, 9, 12⟩

def rkkt32 : RkktFormat := ⟨32, 30, 2, 3, 15⟩

/-- The bits of a frame, from the end to the start of it. -/
def frameBit (f : RkktFormat) (d : ℕ → Bool) (i : ℕ) : Bool :=
  if 74 ≤ i ∧ i < 82 then d (40 + (i - 74))
  else if 65 ≤ i ∧ i < 73 then d (32 + (i - 65))
  else if 56 ≤ i ∧ i < 63 then d (25 + (i - 56))
  else if 47 ≤ i ∧ i < 55 then d (17 + (i - 47))
  else if 45 ≤ i ∧ i < 46 then d (16 + (i - 45))
  else if 38 ≤ i ∧ i < 45 then d (f.second + (i - 38))
  else if f.start ≤ i ∧ i < 37 then d (f.first + (i - f.start))
  else if i = 63 then !parityOf ((List.range f.half).map fun k => d (f.first + f.half + k))
  else if i = f.start - 1 then parityOf ((List.range f.half).map fun k => d (f.first + k))
  else if 13 ≤ i ∧ i < 19 then f.format.toNat.testBit (5 - (i - 13))
  else decide (1 ≤ i ∧ i < 10 ∨ i = 12)

/-- What the encoder puts into a frame that depends on the format. -/
def putFacility (f : RkktFormat) (data : Vector UInt8 6) (encoded : Vector UInt8 12) :
    Vector UInt8 12 :=
  let encoded := bitLibSetBits encoded 13 f.format 6
  let encoded := setBitIf (!bitLibTestParity data f.first f.half .odd f.half) encoded (f.start - 1)
  let encoded := setBitIf (bitLibTestParity data (f.first + f.half) f.half .odd f.half) encoded 63
  let encoded := bitLibCopyBits encoded f.start (37 - f.start) data f.first
  bitLibCopyBits encoded 38 7 data f.second

theorem encodeFacility_26 (h : bitLibGetBits protocol.data 0 8 = 0) (encoded : Vector UInt8 12) :
    protocol.encodeFacility encoded = (26, putFacility rkkt26 protocol.data encoded) := by
  rw [encodeFacility, if_pos h]
  rfl

theorem encodeFacility_32 (h : bitLibGetBits protocol.data 0 8 ≠ 0) (encoded : Vector UInt8 12) :
    protocol.encodeFacility encoded = (32, putFacility rkkt32 protocol.data encoded) := by
  rw [encodeFacility, if_neg h]
  rfl

variable {f : RkktFormat} (hstart : 20 ≤ f.start ∧ f.start < 37) (hhalf : 0 < f.half ∧ f.half ≤ 32)

include hstart hhalf

theorem getBit_putFacility (data : Vector UInt8 6) {encoded : Vector UInt8 12}
    (hclear : ∀ i < 96, 19 ≤ i → bitLibGetBit encoded i = false) {i : ℕ} (hi : i < 96) :
    bitLibGetBit (putFacility f data encoded) i =
      if 38 ≤ i ∧ i < 45 then bitLibGetBit data (f.second + (i - 38))
      else if f.start ≤ i ∧ i < 37 then bitLibGetBit data (f.first + (i - f.start))
      else if i = 63 then !parityOf ((List.range f.half).map fun k =>
        bitLibGetBit data (f.first + f.half + k))
      else if i = f.start - 1 then parityOf ((List.range f.half).map fun k =>
        bitLibGetBit data (f.first + k))
      else if 13 ≤ i ∧ i < 19 then f.format.toNat.testBit (5 - (i - 13))
      else bitLibGetBit encoded i := by
  have hformat : ∀ i < 96, bitLibGetBit (bitLibSetBits encoded 13 f.format 6) i =
      if 13 ≤ i ∧ i < 19 then f.format.toNat.testBit (5 - (i - 13))
      else bitLibGetBit encoded i :=
    fun i hi => getBit_setBits (by norm_num) (by norm_num) _ hi
  have hzero : ∀ i < 96, 19 ≤ i → bitLibGetBit (bitLibSetBits encoded 13 f.format 6) i = false := by
    intro i hi hle
    rw [hformat i hi, if_neg (by omega), hclear i hi hle]
  unfold putFacility
  dsimp only
  rw [getBit_copyBits (by norm_num) hi, getBit_copyBits (by omega) hi,
    getBit_setBitIf (by norm_num) hi ?_, getBit_setBitIf (by omega) hi (hzero _ (by omega) (by omega)),
    hformat i hi, testParity_odd _ _ hhalf.1 hhalf.2, testParity_odd _ _ hhalf.1 hhalf.2,
    Bool.not_not, show f.start + (37 - f.start) = 37 by omega]
  rw [getBit_setBitIf (by omega) (by norm_num) (hzero _ (by omega) (by omega)), if_neg (by omega),
    hzero _ (by norm_num) (by norm_num)]

theorem getBit_encodeRkkt (hfacility : ∀ encoded, (protocol.encodeFacility encoded).2 =
    putFacility f protocol.data encoded) {i : ℕ} (hi : i < 96) :
    bitLibGetBit protocol.encodeRkkt.2 i = frameBit f (bitLibGetBit protocol.data) i := by
  obtain ⟨base, hbase⟩ : ∃ base, base = bitLibSetBits (bitLibSetBits (Vector.replicate 12 0) 0
    0b01111111 8) 8 0b11001 5 := ⟨_, rfl⟩
  have hbit : ∀ i < 96, bitLibGetBit base i = decide (1 ≤ i ∧ i < 10 ∨ i = 12) := by
    intro i hi
    rw [hbase, getBit_setBits (by norm_num) (by norm_num) _ hi,
      getBit_setBits (by norm_num) (by norm_num) _ hi, getBit_replicate, preamble_rkkt]
  have hclear : ∀ i < 96, 19 ≤ i → bitLibGetBit base i = false := by
    intro i hi hle
    rw [hbit i hi, decide_eq_false (by omega)]
  unfold encodeRkkt
  dsimp only
  rw [← hbase, getBit_copyBits (by norm_num) hi, getBit_copyBits (by norm_num) hi,
    getBit_copyBits (by norm_num) hi, getBit_copyBits (by norm_num) hi,
    getBit_copyBits (by norm_num) hi, hfacility,
    getBit_putFacility hstart hhalf _ hclear hi, hbit i hi]
  rfl

end Frames

/-! ## Windows -/

section Windows

variable {protocol : ProtocolSecurakey} {d : ℕ → Bool}

theorem getBits32_eq_iff {data : Vector UInt8 12} {value : UInt32}
    (hvalue : value.toNat < 2 ^ 19) : bitLibGetBits32 data 0 19 = value ↔
      ∀ i < 19, bitLibGetBit data i = value.toNat.testBit (18 - i) := by
  rw [← UInt32.toNat_inj,
    (part_getBits32 data 0 (by norm_num) (by norm_num)).eq_iff hvalue]
  simp only [Nat.zero_add]

theorem getBits_eq_iff {data : Vector UInt8 12} {value : UInt8} (hvalue : value.toNat < 2 ^ 6) :
    bitLibGetBits data 13 6 = value ↔
      ∀ i < 6, bitLibGetBit data (13 + i) = value.toNat.testBit (5 - i) := by
  rw [← UInt8.toNat_inj]
  exact (part_last data 13 (by norm_num) (by norm_num) (Nat.zero_add 6)).eq_iff hvalue

theorem preamble_of_canBeDecoded {found : ProtocolSecurakey}
    (h : protocol.canBeDecoded = some found) : ∀ i < 10,
      bitLibGetBit protocol.rkktEncodedData i = decide (1 ≤ i) := by
  have hvalue : ∀ value : UInt32, value.toNat < 2 ^ 19 →
      (∀ i < 10, value.toNat.testBit (18 - i) = decide (1 ≤ i)) →
      bitLibGetBits32 protocol.rkktEncodedData 0 19 = value →
      ∀ i < 10, bitLibGetBit protocol.rkktEncodedData i = decide (1 ≤ i) := by
    intro value hlt hbits heq i hi
    rw [(getBits32_eq_iff hlt).1 heq i (by omega), hbits i hi]
  unfold canBeDecoded at h
  dsimp only at h
  split_ifs at h with h₀ _ h₂₆ _ h₃₂
  · exact hvalue _ (by decide) (by decide) h₀
  · exact hvalue _ (by decide) (by decide) h₂₆
  · exact hvalue _ (by decide) (by decide) h₃₂

/-- The formats there are. -/
def RkktFormat.Known (f : RkktFormat) : Prop := f = rkkt26 ∨ f = rkkt32

theorem frameBit_preamble {f : RkktFormat} (hf : f.Known) {i : ℕ} (hi : i < 19) :
    frameBit f d i = if 13 ≤ i then f.format.toNat.testBit (5 - (i - 13))
      else decide (1 ≤ i ∧ i < 10 ∨ i = 12) := by
  rcases hf with rfl | rfl <;> interval_cases i <;> rfl

theorem frameBit_spacer {f : RkktFormat} (hf : f.Known) {i : ℕ} (hi : i < 10) :
    frameBit f d (2 + i * 9 + 9 - 1) = false := by
  rcases hf with rfl | rfl <;> interval_cases i <;> rfl

theorem canBeDecoded_rkkt {f : RkktFormat} (hf : f.Known)
    (h : ∀ i < 96, bitLibGetBit protocol.rkktEncodedData i = frameBit f d i) :
    protocol.canBeDecoded = some { protocol with bitFormat := f.format } := by
  have hparity : bitLibTestParity protocol.rkktEncodedData 2 90 .always0 9 = true := by
    refine testParity_always0.2 fun i hi => ?_
    have hlt : i < 10 := hi
    rw [h _ (by omega), frameBit_spacer hf hlt]
  have hpreamble : ∀ value : UInt32, value.toNat < 2 ^ 19 →
      (bitLibGetBits32 protocol.rkktEncodedData 0 19 = value ↔
        ∀ i < 19, (if 13 ≤ i then f.format.toNat.testBit (5 - (i - 13))
          else decide (1 ≤ i ∧ i < 10 ∨ i = 12)) = value.toNat.testBit (18 - i)) := by
    intro value hvalue
    rw [getBits32_eq_iff hvalue]
    exact forall₂_congr fun i hi => by rw [h i (by omega), frameBit_preamble hf hi]
  unfold canBeDecoded
  dsimp only
  rcases hf with rfl | rfl
  · rw [if_neg, if_pos, if_pos hparity]
    · rfl
    · rw [hpreamble _ (by decide)]
      decide
    · rw [hpreamble _ (by decide)]
      decide
  · rw [if_neg, if_neg, if_pos, if_pos hparity]
    · rfl
    · rw [hpreamble _ (by decide)]
      decide
    · rw [hpreamble _ (by decide)]
      decide
    · rw [hpreamble _ (by decide)]
      decide

theorem getBit_decode_rkkt {f : RkktFormat} (hf : f.Known)
    (h : ∀ i < 96, bitLibGetBit protocol.rkktEncodedData i = frameBit f d i) :
    protocol.decode.bitFormat = f.format ∧ ∀ i < 48, bitLibGetBit protocol.decode.data i =
      if 9 ≤ i ∧ i < 16 then d (f.second + (i - 9)) else if i < f.first then false else d i := by
  have hformat : ∀ value : UInt8, value.toNat < 2 ^ 6 →
      (bitLibGetBits protocol.rkktEncodedData 13 6 = value ↔
        ∀ i < 6, f.format.toNat.testBit (5 - i) = value.toNat.testBit (5 - i)) := by
    intro value hvalue
    rw [getBits_eq_iff hvalue]
    refine forall₂_congr fun i hi => ?_
    rw [h _ (by omega), frameBit_preamble hf (by omega), if_pos (by omega), Nat.add_sub_cancel_left]
  have hfacility : protocol.decodeFacility.bitFormat = f.format ∧
      ∀ i < 48, bitLibGetBit protocol.decodeFacility.data i =
        if 9 ≤ i ∧ i < 16 then bitLibGetBit protocol.rkktEncodedData (38 + (i - 9))
        else if f.first ≤ i ∧ i < 9 then
          bitLibGetBit protocol.rkktEncodedData (f.start + (i - f.first))
        else false := by
    unfold decodeFacility
    dsimp only
    rcases hf with rfl | rfl
    · rw [if_pos ((hformat 26 (by decide)).2 (by decide))]
      refine ⟨rfl, fun i hi => ?_⟩
      rw [getBit_copyBits (by norm_num) hi, getBit_copyBits (by norm_num) hi, getBit_replicate]
      rfl
    · rw [if_neg (by rw [hformat 26 (by decide)]; decide),
        if_pos ((hformat 32 (by decide)).2 (by decide))]
      refine ⟨rfl, fun i hi => ?_⟩
      rw [getBit_copyBits (by norm_num) hi, getBit_copyBits (by norm_num) hi, getBit_replicate]
      rfl
  have hrkkt : bitLibGetBits protocol.rkktEncodedData 13 6 ≠ 0 := by
    rw [ne_eq, hformat 0 (by decide)]
    rcases hf with rfl | rfl <;> decide
  unfold decode
  dsimp only
  rw [if_neg hrkkt]
  refine ⟨hfacility.1, fun i hi => ?_⟩
  rw [getBit_copyBits (by norm_num) hi, getBit_copyBits (by norm_num) hi,
    getBit_copyBits (by norm_num) hi, getBit_copyBits (by norm_num) hi,
    getBit_copyBits (by norm_num) hi, hfacility.2 i hi]
  rcases hf with rfl | rfl <;> interval_cases i <;> first | rfl | exact h _ (by decide)

theorem canBeDecoded_rkkth
    (h : ∀ i < 64, bitLibGetBit protocol.rkktEncodedData i = rkkthBit d i) :
    protocol.canBeDecoded = some { protocol with bitFormat := 0 } := by
  have hspacer : bitLibTestParity protocol.rkktEncodedData 2 54 .always0 9 = true := by
    refine testParity_always0.2 fun i hi => ?_
    have hlt : i < 6 := hi
    rw [h _ (by omega)]
    interval_cases i <;> rfl
  have hpreamble :
      bitLibGetBits32 protocol.rkktEncodedData 0 19 = 0b0111111111000000000 := by
    refine (getBits32_eq_iff (by decide)).2 fun i hi => ?_
    rw [h i (by omega)]
    interval_cases i <;> rfl
  unfold canBeDecoded
  dsimp only
  rw [if_pos hpreamble, if_pos hspacer]

theorem getBit_decode_rkkth
    (h : ∀ i < 64, bitLibGetBit protocol.rkktEncodedData i = rkkthBit d i) :
    protocol.decode.bitFormat = 0 ∧
      ∀ i < 48, bitLibGetBit protocol.decode.data i = if i < 16 then false else d i := by
  have hformat : bitLibGetBits protocol.rkktEncodedData 13 6 = 0 := by
    refine (getBits_eq_iff (by decide)).2 fun i hi => ?_
    rw [h _ (by omega)]
    interval_cases i <;> rfl
  unfold decode decodeRkkth
  dsimp only
  rw [if_pos hformat]
  refine ⟨rfl, fun i hi => ?_⟩
  rw [getBit_copyBits (by norm_num) hi, getBit_copyBits (by norm_num) hi,
    getBit_copyBits (by norm_num) hi, getBit_copyBits (by norm_num) hi, getBit_replicate]
  interval_cases i <;> first | rfl | exact h _ (by decide)

end Windows

/-! ## Alignment -/

/-- Where there is a zero in all frames. -/
def Spacer (i : ℕ) : Prop := i = 0 ∨ 10 ≤ i ∧ i % 9 = 1 ∨ 82 ≤ i

instance : DecidablePred Spacer := fun _ => inferInstanceAs (Decidable (_ ∨ _))

/-- What is sent again and again, and what a window is decoded to that it stands in. -/
structure Frame (size : ℕ) (bit : ℕ → Bool) (reading : Vector UInt8 6 × UInt8) : Prop where
  sizes : size = 64 ∨ size = 96
  start : ∀ i < 10, bit i = decide (1 ≤ i)
  spacer : ∀ i < size, Spacer i → bit i = false
  decoded (protocol : ProtocolSecurakey)
    (h : ∀ i < 96, bitLibGetBit protocol.rkktEncodedData i = bit (i % size)) :
    ∃ found, protocol.canBeDecoded = some found ∧
      (found.decode.data, found.decode.bitFormat) = reading

theorem exists_spacer : ∀ size, size = 64 ∨ size = 96 → ∀ s < size, s ≠ 0 →
    ∃ j < 10, 1 ≤ j ∧ Spacer ((s + j) % size) := by
  rintro size (rfl | rfl)
  · decide
  · decide

section Frame

variable {size : ℕ} {bit : ℕ → Bool} {reading : Vector UInt8 6 × UInt8}

theorem Frame.aligned (h : Frame size bit reading) {s : ℕ}
    (hs : ∀ i < 10, bit ((s + i) % size) = decide (1 ≤ i)) : s % size = 0 := by
  have hpos : 0 < size := by rcases h.sizes with hsize | hsize <;> omega
  by_contra hne
  obtain ⟨j, hj, hle, hspacer⟩ := exists_spacer size h.sizes (s % size) (Nat.mod_lt _ hpos) hne
  have hbit := hs j hj
  rw [← Nat.mod_add_mod, h.spacer _ (Nat.mod_lt _ hpos) hspacer, decide_eq_true hle] at hbit
  exact Bool.false_ne_true hbit

end Frame

/-! ## Receiving -/

section Receiving

variable (protocol : ProtocolSecurakey)

theorem decode_eq : ∃ data bitFormat,
    protocol.decode = { protocol with data := data, bitFormat := bitFormat } := by
  unfold decode decodeRkkth decodeFacility
  dsimp only
  split_ifs <;> exact ⟨_, _, rfl⟩

theorem decode_setState (state : ManchesterState) :
    { protocol with decoderManchesterState := state }.decode =
      { protocol.decode with decoderManchesterState := state } := by
  unfold decode decodeRkkth decodeFacility
  dsimp only
  split_ifs <;> rfl

theorem canBeDecoded_eq : ∃ format : Option UInt8, ∀ state,
    { protocol with decoderManchesterState := state }.canBeDecoded =
      format.map fun format =>
        { protocol with decoderManchesterState := state, bitFormat := format } := by
  unfold canBeDecoded
  dsimp only
  split_ifs
  · exact ⟨some 0, fun _ => rfl⟩
  · exact ⟨none, fun _ => rfl⟩
  · exact ⟨some 26, fun _ => rfl⟩
  · exact ⟨none, fun _ => rfl⟩
  · exact ⟨some 32, fun _ => rfl⟩
  · exact ⟨none, fun _ => rfl⟩
  · exact ⟨none, fun _ => rfl⟩

theorem store_eq (bit : Bool) : ∃ data bitFormat, (protocol.store bit).2 =
    { protocol with
      rkktEncodedData := bitLibPushBit protocol.rkktEncodedData bit
      data := data
      bitFormat := bitFormat } := by
  obtain ⟨format, hformat⟩ := canBeDecoded_eq
    { protocol with rkktEncodedData := bitLibPushBit protocol.rkktEncodedData bit }
  have hfound := hformat protocol.decoderManchesterState
  unfold store
  dsimp only at hfound ⊢
  rw [hfound]
  cases format with
  | none => exact ⟨protocol.data, protocol.bitFormat, rfl⟩
  | some format =>
    obtain ⟨data, bitFormat, hdecode⟩ := decode_eq
      { protocol with
        rkktEncodedData := bitLibPushBit protocol.rkktEncodedData bit, bitFormat := format }
    exact ⟨data, bitFormat, hdecode⟩

theorem lawful_decoder :
    decoder.Lawful fun protocol : ProtocolSecurakey => (protocol.data, protocol.bitFormat) where
  state_setState _ _ := rfl
  state_store p bit := by
    obtain ⟨data, bitFormat, hstore⟩ := p.store_eq bit
    show (p.store bit).2.decoderManchesterState = p.decoderManchesterState
    rw [hstore]
  store_setState p state bit := by
    obtain ⟨format, hformat⟩ := canBeDecoded_eq
      { p with rkktEncodedData := bitLibPushBit p.rkktEncodedData bit }
    have hfound := hformat p.decoderManchesterState
    have hset := hformat state
    show store { p with decoderManchesterState := state } bit =
      ((p.store bit).1, { (p.store bit).2 with decoderManchesterState := state })
    unfold store
    dsimp only at hfound hset ⊢
    rw [hfound, hset]
    cases format with
    | none => rfl
    | some format =>
      exact congrArg (Prod.mk true) (decode_setState
        { p with rkktEncodedData := bitLibPushBit p.rkktEncodedData bit, bitFormat := format } state)
  times_setState _ _ := rfl
  times_store _ _ := rfl
  getData_setState _ _ := rfl

theorem lawful_encoder : encoder.Lawful where
  bit _ _ _ := rfl
  duration _ _ _ := rfl
  bitSize _ _ _ := rfl
  index _ _ _ := rfl
  polarity _ _ _ := rfl

theorem fits_readTimes : readTimes.Fits (SECURAKEY_CLOCK_PER_BIT / 2) where
  short level := by cases level <;> rfl
  long level := by cases level <;> rfl

end Receiving

section Frame

variable {size : ℕ} {bit : ℕ → Bool} {reading : Vector UInt8 6 × UInt8}

theorem window_store (protocol : ProtocolSecurakey) (bit : Bool) :
    (protocol.store bit).2.rkktEncodedData = bitLibPushBit protocol.rkktEncodedData bit := by
  obtain ⟨data, bitFormat, hstore⟩ := protocol.store_eq bit
  rw [hstore]

/-- A protocol with one more bit in its window. -/
def push (protocol : ProtocolSecurakey) (bit : Bool) : ProtocolSecurakey :=
  { protocol with rkktEncodedData := bitLibPushBit protocol.rkktEncodedData bit }

theorem store_spec (protocol : ProtocolSecurakey) (bit : Bool) :
    protocol.store bit = match (protocol.push bit).canBeDecoded with
      | some found => (true, found.decode)
      | none => (false, protocol.push bit) := rfl

/-- Of the bits of a frame, from the third one on, nothing but what is in it is read. -/
theorem Frame.reads_iff (h : Frame size bit reading) {protocol : ProtocolSecurakey}
    (hwindow : protocol.rkktEncodedData = Vector.replicate 12 0) (count : ℕ)
    (r : Vector UInt8 6 × UInt8) :
    r ∈ reads store (fun protocol => (protocol.data, protocol.bitFormat)) protocol
      ((List.range count).map fun k => bit ((k + 2) % size)) ↔ r = reading ∧ 94 + size ≤ count := by
  have hsize : 64 ≤ size ∧ size ≤ 96 := by rcases h.sizes with hsize | hsize <;> omega
  obtain ⟨next, hnext⟩ : ∃ next : ℕ → Bool, next = fun k => bit ((k + 2) % size) := ⟨_, rfl⟩
  obtain ⟨pushed, hpushed⟩ : ∃ pushed : ℕ → ProtocolSecurakey, pushed = fun t =>
    (stateAfter store protocol ((List.range t).map next)).push (next t) := ⟨_, rfl⟩
  have hbit : ∀ t, ∀ i < 96, bitLibGetBit (pushed t).rkktEncodedData i =
      (decide (96 ≤ t + 1 + i) && bit ((t + 1 + i - 96 + 2) % size)) := by
    intro t i hi
    have hpush := (isWindow_pushBit (n := 12)).foldl_range
      (fun i _ => getBit_replicate i) next (t + 1) hi
    rw [List.range_succ, List.map_append, List.foldl_append, ← hwindow,
      ← @window_stateAfter _ _ _ _ rkktEncodedData window_store] at hpush
    rw [hpushed]
    rw [hnext] at hpush ⊢
    exact hpush
  have hfound : ∀ t, 96 ≤ t + 1 → (t + 1 - 94) % size = 0 →
      ∃ found, (pushed t).canBeDecoded = some found ∧
        (found.decode.data, found.decode.bitFormat) = reading := by
    intro t hle hmod
    refine h.decoded _ fun i hi => ?_
    rw [hbit t i hi, decide_eq_true (by omega), Bool.true_and,
      show t + 1 + i - 96 + 2 = t + 1 - 94 + i by omega, ← Nat.mod_add_mod, hmod, Nat.zero_add]
  have hlate : ∀ t, ∀ found, (pushed t).canBeDecoded = some found → 96 ≤ t + 1 := by
    intro t found hdecoded
    have hpreamble := preamble_of_canBeDecoded hdecoded
    by_contra hearly
    have hone := hpreamble 1 (by norm_num)
    have hnine := hpreamble 9 (by norm_num)
    rw [hbit t 1 (by norm_num)] at hone
    rw [hbit t 9 (by norm_num)] at hnine
    rcases Nat.lt_or_ge (t + 2) 96 with hless | hmore
    · rw [decide_eq_false (by omega), Bool.false_and] at hone
      exact Bool.false_ne_true hone
    · rw [show t + 1 + 9 - 96 + 2 = 10 by omega, Nat.mod_eq_of_lt (by omega),
        h.spacer 10 (by omega) (by decide), Bool.and_false] at hnine
      exact Bool.false_ne_true hnine
  have hmod : ∀ t, ∀ found, (pushed t).canBeDecoded = some found → (t + 1 - 94) % size = 0 := by
    intro t found hdecoded
    have hle := hlate t found hdecoded
    refine h.aligned fun i hi => ?_
    have hone := preamble_of_canBeDecoded hdecoded i hi
    rw [hbit t i (by omega), decide_eq_true (by omega), Bool.true_and] at hone
    rw [← hone]
    exact congrArg _ (congrArg (· % size) (by omega))
  have hstore : ∀ t, store (stateAfter store protocol ((List.range t).map next)) (next t) =
      match (pushed t).canBeDecoded with
      | some found => (true, found.decode)
      | none => (false, pushed t) := by
    intro t
    rw [store_spec, hpushed]
  rw [← hnext, mem_reads_range]
  simp only [hstore]
  constructor
  · rintro ⟨t, ht, hresult, hdata⟩
    cases hdecoded : (pushed t).canBeDecoded with
    | none =>
      rw [hdecoded] at hresult
      exact absurd hresult Bool.false_ne_true
    | some found =>
      have hle := hlate t found hdecoded
      obtain ⟨found', hfound', hreading⟩ := hfound t hle (hmod t found hdecoded)
      rw [hfound'] at hdata
      obtain ⟨k, hk⟩ := Nat.dvd_of_mod_eq_zero (hmod t found hdecoded)
      have hk₀ : 0 < k := by
        rcases Nat.eq_zero_or_pos k with rfl | hpos
        · omega
        · exact hpos
      have hsizeLe := Nat.le_mul_of_pos_right size hk₀
      exact ⟨hdata.symm.trans hreading, by omega⟩
  · rintro ⟨rfl, hcount⟩
    obtain ⟨found, hdecoded, hreading⟩ := hfound (93 + size) (by omega)
      (by rw [show 93 + size + 1 - 94 = size by omega, Nat.mod_self])
    refine ⟨93 + size, by omega, ?_⟩
    rw [hdecoded]
    exact ⟨rfl, hreading⟩

end Frame

/-! ## What is read of a card -/

theorem encoderStart_index (protocol : ProtocolSecurakey) :
    encoder.polarity protocol.encoderStart = true ∧
      encoder.index protocol.encoderStart < encoder.bitSize protocol.encoderStart := by
  have hsize : 0 < encoder.bitSize protocol.encoderStart := by
    show 0 < if _ then _ else _
    split_ifs <;> decide
  have hstart : encoder.polarity protocol.encoderStart = true ∧
      encoder.index protocol.encoderStart = 0 := by
    unfold encoderStart
    dsimp only
    split_ifs <;> exact ⟨rfl, rfl⟩
  exact ⟨hstart.1, hstart.2.trans_lt hsize⟩

theorem Frame.mem_readings {encoding : ProtocolSecurakey} {data : Vector UInt8 6}
    {reading : Vector UInt8 6 × UInt8}
    (h : Frame (encoder.bitSize { encoding with data := data }.encoderStart)
      (encoder.bit { encoding with data := data }.encoderStart) reading)
    (decoding : ProtocolSecurakey) :
    (∀ count, ∀ r ∈ readings decoding encoding data count, r = reading) ∧
      reading ∈ readings decoding encoding data
        (3 * encoder.bitSize { encoding with data := data }.encoderStart) := by
  obtain ⟨p, hp⟩ : ∃ p, p = { encoding with data := data }.encoderStart := ⟨_, rfl⟩
  have hindex := encoderStart_index { encoding with data := data }
  have hzero : encoder.index p = 0 := by
    rw [hp]
    show encodedDataIndex (encoderStart _) = 0
    unfold encoderStart
    dsimp only
    split_ifs <;> rfl
  rw [← hp] at h hindex ⊢
  have hsizes := h.sizes
  have hline : ∀ count, ∃ k, count ≤ k + 2 ∧ readings decoding encoding data count =
      reads store (fun protocol => (protocol.data, protocol.bitFormat)) decoding.decoderStart
        ((List.range k).map fun k => encoder.bit p ((k + 2) % encoder.bitSize p)) := by
    intro count
    obtain ⟨bits, last, hyields, hbits⟩ :=
      ManchesterEncoder.yields_whole lawful_encoder (2 * count) hindex.1 hindex.2
    have hnext : ∀ i, encoder.next p i = encoder.bit p (i % encoder.bitSize p) := by
      intro i
      rw [ManchesterEncoder.next, hzero, Nat.zero_add]
    have hfirst : ∀ i < 10, encoder.next p i = decide (1 ≤ i) := by
      intro i hi
      rw [hnext, Nat.mod_eq_of_lt (by omega), h.start i hi]
    obtain ⟨k, hk, hreceived⟩ := received_zero_ones hbits (hfirst 0 (by norm_num))
      (hfirst 1 (by norm_num)) (hfirst 2 (by norm_num))
    refine ⟨k, by omega, ?_⟩
    have hread := bitsOf_halves fits_readTimes bits last
    have hreads := ManchesterProtocol.reads_decoderFeed lawful_decoder
      (onLine (halves (SECURAKEY_CLOCK_PER_BIT / 2) bits ++
        half (SECURAKEY_CLOCK_PER_BIT / 2) last)) decoding.decoderStart
    rw [readings, ← hp]
    show reads decoder.decoderFeed _ _ (onLine (yields encoder.encoderYield (2 * count) p)) = _
    rw [hyields]
    refine hreads.trans (congrArg _ (hread.trans (hreceived.trans ?_)))
    exact List.map_congr_left fun i _ => hnext (i + 2)
  constructor
  · intro count r hr
    obtain ⟨k, -, hreads⟩ := hline count
    rw [hreads] at hr
    exact ((h.reads_iff rfl k r).1 hr).1
  · obtain ⟨k, hk, hreads⟩ := hline (3 * encoder.bitSize p)
    rw [hreads]
    exact (h.reads_iff rfl k reading).2 ⟨rfl, by omega⟩

section Data

variable {data : Vector UInt8 6}

theorem getBits16_eq_zero_iff :
    bitLibGetBits16 data 0 16 = 0 ↔ ∀ i < 16, bitLibGetBit data i = false := by
  rw [← UInt16.toNat_inj, (part_getBits16 data 0 (by norm_num) le_rfl).eq_iff (by decide)]
  simp only [Nat.zero_add, UInt16.toNat_zero, Nat.zero_testBit]

theorem getBits_eq_zero_iff :
    bitLibGetBits data 0 8 = 0 ↔ ∀ i < 8, bitLibGetBit data i = false := by
  rw [← UInt8.toNat_inj]
  refine ((part_last data 0 (by norm_num) le_rfl (Nat.zero_add 8)).eq_iff (by decide)).trans ?_
  simp only [Nat.zero_add, UInt8.toNat_zero, Nat.zero_testBit]

theorem getBit_byte {k j : ℕ} (hk : k < 6) (hj : j < 8) :
    bitLibGetBit data (8 * k + j) = data[k].toNat.testBit (7 - j) := by
  rw [getBit_eq, show (8 * k + j) / 8 = k by omega, show (8 * k + j) % 8 = j by omega]
  simp [Vector.getD, hk]

theorem byte_eq_zero_iff {k : ℕ} (hk : k < 6) :
    data[k] = 0 ↔ ∀ j < 8, bitLibGetBit data (8 * k + j) = false := by
  constructor
  · intro hzero j hj
    rw [getBit_byte hk hj, hzero]
    exact Nat.zero_testBit _
  · intro hbits
    refine UInt8.toNat_inj.1 (Nat.eq_of_testBit_eq fun j => ?_)
    rcases Nat.lt_or_ge j 8 with hj | hj
    · have hbit := hbits (7 - j) (by omega)
      rw [getBit_byte hk (by omega), show 7 - (7 - j) = j by omega] at hbit
      rw [hbit]
      exact (Nat.zero_testBit _).symm
    · rw [testBit_of_le _ hj]
      exact (Nat.zero_testBit _).symm

end Data

section Formats

variable (protocol : ProtocolSecurakey)

theorem isRkkth_iff : protocol.isRkkth = true ↔ protocol.data[0] = 0 ∧ protocol.data[1] = 0 := by
  rw [isRkkth, beq_iff_eq, getBits16_eq_zero_iff, byte_eq_zero_iff (by norm_num : 0 < 6),
    byte_eq_zero_iff (by norm_num : 1 < 6)]
  constructor
  · intro h
    exact ⟨fun j hj => h _ (by omega), fun j hj => h _ (by omega)⟩
  · rintro ⟨hfirst, hsecond⟩ i hi
    rcases Nat.lt_or_ge i 8 with hlt | hge
    · have hbit := hfirst i hlt
      rwa [Nat.mul_zero, Nat.zero_add] at hbit
    · have hbit := hsecond (i - 8) (by omega)
      rwa [show 8 * 1 + (i - 8) = i by omega] at hbit

theorem encoder_rkkth (h : protocol.isRkkth = true) :
    encoder.bitSize protocol.encoderStart = 64 ∧
      encoder.bit protocol.encoderStart = bitLibGetBit protocol.encodeRkkth := by
  have hstart : protocol.encoderStart = { protocol with
      encodedDataIndex := 0
      encodedPolarity := true
      rkkthEncodedData := protocol.encodeRkkth
      rkktEncodedData := Vector.replicate 12 0 } := if_pos h
  rw [hstart]
  exact ⟨if_pos h, if_pos h⟩

theorem encoder_rkkt (h : ¬protocol.isRkkth = true) :
    encoder.bitSize protocol.encoderStart = 96 ∧
      encoder.bit protocol.encoderStart = bitLibGetBit protocol.encodeRkkt.2 := by
  have hstart : protocol.encoderStart = { protocol with
      encodedDataIndex := 0
      encodedPolarity := true
      rkkthEncodedData := Vector.replicate 8 0
      rkktEncodedData := protocol.encodeRkkt.2
      bitFormat := protocol.encodeRkkt.1 } := if_neg h
  rw [hstart]
  exact ⟨if_neg h, if_neg h⟩

theorem frame_rkkth (hzero : protocol.data[0] = 0 ∧ protocol.data[1] = 0) :
    Frame (encoder.bitSize protocol.encoderStart) (encoder.bit protocol.encoderStart)
      (protocol.data, 0) := by
  obtain ⟨hsize, hencoded⟩ := protocol.encoder_rkkth (protocol.isRkkth_iff.2 hzero)
  have hbit : ∀ i < 64, encoder.bit protocol.encoderStart i =
      rkkthBit (bitLibGetBit protocol.data) i := by
    intro i hi
    rw [hencoded, getBit_encodeRkkth protocol hi]
  rw [hsize]
  refine ⟨.inl rfl, fun i hi => ?_, fun i hi hspacer => ?_, fun p hp => ?_⟩
  · rw [hbit i (by omega)]
    interval_cases i <;> rfl
  · rw [hbit i hi]
    unfold Spacer at hspacer
    rw [rkkthBit, if_neg (by omega), if_neg (by omega), if_neg (by omega), if_neg (by omega),
      decide_eq_false (by omega)]
  · have hwindow : ∀ i < 64, bitLibGetBit p.rkktEncodedData i =
        rkkthBit (bitLibGetBit protocol.data) i := by
      intro i hi
      rw [hp i (by omega), Nat.mod_eq_of_lt hi, hbit i hi]
    obtain ⟨hformat, hdata⟩ := @getBit_decode_rkkth { p with bitFormat := 0 } _ hwindow
    refine ⟨_, canBeDecoded_rkkth hwindow, Prod.ext (ext_getBit fun i hi => ?_) hformat⟩
    rw [hdata i hi]
    split_ifs with hlow
    · exact ((getBits16_eq_zero_iff.1 (beq_iff_eq.1 (protocol.isRkkth_iff.2 hzero))) i hlow).symm
    · rfl

variable {f : RkktFormat}

theorem RkktFormat.Known.bounds (hf : f.Known) :
    (20 ≤ f.start ∧ f.start < 37) ∧ 0 < f.half ∧ f.half ≤ 32 := by
  rcases hf with rfl | rfl <;> decide

theorem getBit_encoder_rkkt (hf : f.Known) (h : ¬protocol.isRkkth = true)
    (hfacility : ∀ encoded, (protocol.encodeFacility encoded).2 =
      putFacility f protocol.data encoded) {i : ℕ} (hi : i < 96) :
    encoder.bit protocol.encoderStart i = frameBit f (bitLibGetBit protocol.data) i := by
  rw [(protocol.encoder_rkkt h).2]
  exact getBit_encodeRkkt protocol hf.bounds.1 hf.bounds.2 hfacility hi

theorem frameBit_zero {d : ℕ → Bool} (hf : f.Known) {i : ℕ} (hi : i < 96) (hspacer : Spacer i) :
    frameBit f d i = false := by
  have hlow : Spacer i → i < 37 → i = 0 ∨ i = 10 ∨ i = 19 ∨ i = 28 := by
    unfold Spacer
    omega
  rcases Nat.lt_or_ge i 37 with hlt | hge
  · rcases hf with rfl | rfl <;> rcases hlow hspacer hlt with rfl | rfl | rfl | rfl <;> rfl
  · have hstart := hf.bounds.1
    unfold Spacer at hspacer
    rw [frameBit, if_neg (by omega), if_neg (by omega), if_neg (by omega), if_neg (by omega),
      if_neg (by omega), if_neg (by omega), if_neg (by omega), if_neg (by omega), if_neg (by omega),
      if_neg (by omega), decide_eq_false (by omega)]

theorem frame_rkkt (hf : f.Known) (h : ¬protocol.isRkkth = true)
    (hfacility : ∀ encoded, (protocol.encodeFacility encoded).2 =
      putFacility f protocol.data encoded) :
    ∃ data : Vector UInt8 6, (∀ i < 48, bitLibGetBit data i =
      if 9 ≤ i ∧ i < 16 then bitLibGetBit protocol.data (f.second + (i - 9))
      else if i < f.first then false else bitLibGetBit protocol.data i) ∧
      Frame (encoder.bitSize protocol.encoderStart) (encoder.bit protocol.encoderStart)
        (data, f.format) := by
  have hbit := fun i (hi : i < 96) => getBit_encoder_rkkt protocol hf h hfacility hi
  have hsize := (protocol.encoder_rkkt h).1
  have hsent : ∀ i < 96, bitLibGetBit
      { alloc with rkktEncodedData := protocol.encodeRkkt.2 }.rkktEncodedData i =
        frameBit f (bitLibGetBit protocol.data) i :=
    fun i hi => getBit_encodeRkkt protocol hf.bounds.1 hf.bounds.2 hfacility hi
  obtain ⟨-, hdata⟩ := getBit_decode_rkkt hf hsent
  refine ⟨_, hdata, ?_⟩
  rw [hsize]
  refine ⟨.inr rfl, fun i hi => ?_, fun i hi hspacer => ?_, fun p hp => ?_⟩
  · rw [hbit i (by omega), frameBit_preamble hf (by omega), if_neg (by omega)]
    exact decide_eq_decide.2 (by omega)
  · rw [hbit i hi, frameBit_zero hf hi hspacer]
  · have hwindow : ∀ i < 96, bitLibGetBit p.rkktEncodedData i =
        frameBit f (bitLibGetBit protocol.data) i := by
      intro i hi
      rw [hp i hi, Nat.mod_eq_of_lt hi, hbit i hi]
    obtain ⟨hformat, hfound⟩ :=
      @getBit_decode_rkkt { p with bitFormat := f.format } _ f hf hwindow
    refine ⟨_, canBeDecoded_rkkt hf hwindow, Prod.ext (ext_getBit fun i hi => ?_) hformat⟩
    rw [hfound i hi, hdata i hi]

end Formats

/-! ## The round trip -/

theorem frameBit_second {f : RkktFormat} {d : ℕ → Bool}
    (h : ∀ i < 7, d (f.second + i) = d (9 + i)) (i : ℕ) :
    frameBit f d i = frameBit { f with second := 9 } d i := by
  by_cases hi : 38 ≤ i ∧ i < 45
  · rw [frameBit, frameBit, if_neg (by omega), if_neg (by omega), if_neg (by omega),
      if_neg (by omega), if_neg (by omega), if_pos hi, if_neg (by omega), if_neg (by omega),
      if_neg (by omega), if_neg (by omega), if_neg (by omega), if_pos hi, h _ (by omega)]
  · simp only [frameBit, if_neg hi]

theorem parityOk_of_frameBit {encoding : ProtocolSecurakey} {data : Vector UInt8 6} {d : ℕ → Bool}
    {f : RkktFormat} (hf : f.Known)
    (hbit : ∀ i < 96, encoder.bit { encoding with data := data }.encoderStart i =
      frameBit { f with second := 9 } d i) : ParityOk encoding data f.format := by
  intro _
  have hplaces : (∀ i ∈ (wiegandPlaces f.format).1, i < 96) ∧
      ∀ i ∈ (wiegandPlaces f.format).2, i < 96 := by
    rcases hf with rfl | rfl <;> decide
  rw [List.map_congr_left fun i hi => hbit i (hplaces.1 i hi),
    List.map_congr_left fun i hi => hbit i (hplaces.2 i hi)]
  rcases hf with rfl | rfl
  · exact ⟨parityOf_cons_parityOf ((List.range 12).map fun k => d (8 + k)),
      parityOf_append_not ((List.range 12).map fun k => d (8 + 12 + k))⟩
  · exact ⟨parityOf_cons_parityOf ((List.range 15).map fun k => d (2 + k)),
      parityOf_append_not ((List.range 15).map fun k => d (2 + 15 + k))⟩

theorem roundTrips_rkkt {data : Vector UInt8 6} {f : RkktFormat} (hf : f.Known)
    (hrkkt : ¬(data[0] = 0 ∧ data[1] = 0))
    (hfacility : ∀ encoding : ProtocolSecurakey, encoding.data = data → ∀ encoded,
      (encoding.encodeFacility encoded).2 = putFacility f encoding.data encoded)
    (hlow : ∀ i < f.first, bitLibGetBit data i = false) :
    RoundTrips data f.format ↔
      ∀ i < 7, bitLibGetBit data (f.second + i) = bitLibGetBit data (9 + i) := by
  have hsent : ∀ encoding : ProtocolSecurakey, ¬isRkkth { encoding with data := data } = true :=
    fun encoding h => hrkkt ((isRkkth_iff _).1 h)
  constructor
  · intro htrips i hi
    obtain ⟨hall, hread, -⟩ := htrips alloc alloc
    obtain ⟨found, hfound, hframe⟩ := frame_rkkt { alloc with data := data } hf (hsent alloc)
      (hfacility _ rfl)
    have heq := hall _ _ (hframe.mem_readings alloc).2
    have hdata : found = data := congrArg Prod.fst heq
    have hbit := hfound (9 + i) (by omega)
    rw [if_pos (by omega), hdata, Nat.add_sub_cancel_left] at hbit
    exact hbit.symm
  · intro hsame decoding encoding
    obtain ⟨found, hfound, hframe⟩ := frame_rkkt { encoding with data := data } hf (hsent encoding)
      (hfacility _ rfl)
    have hdata : found = data := by
      refine ext_getBit fun i hi => ?_
      rw [hfound i hi]
      split_ifs with hfacility hfirst
      · have hbit := hsame (i - 9) (by omega)
        rwa [show 9 + (i - 9) = i by omega] at hbit
      · exact (hlow i hfirst).symm
      · rfl
    rw [hdata] at hframe
    obtain ⟨hall, hread⟩ := hframe.mem_readings decoding
    refine ⟨hall, List.ne_nil_of_mem hread, parityOk_of_frameBit (d := bitLibGetBit data) hf
      fun i hi => ?_⟩
    rw [getBit_encoder_rkkt _ hf (hsent encoding) (hfacility _ rfl) hi]
    exact frameBit_second hsame i

theorem roundTrips_rkkth {data : Vector UInt8 6} (hzero : data[0] = 0 ∧ data[1] = 0) :
    RoundTrips data 0 := by
  intro decoding encoding
  obtain ⟨hall, hread⟩ := (frame_rkkth { encoding with data := data } hzero).mem_readings decoding
  exact ⟨hall, List.ne_nil_of_mem hread, fun h => absurd rfl h⟩

theorem roundTrips_rkkt26 {data : Vector UInt8 6} (hzero : data[0] = 0 ∧ data[1] ≠ 0) :
    RoundTrips data 26 := by
  have hfirst : ∀ i < 8, bitLibGetBit data i = false := by
    intro i hi
    have hbit := (byte_eq_zero_iff (by norm_num : 0 < 6)).1 hzero.1 i hi
    rwa [Nat.mul_zero, Nat.zero_add] at hbit
  have htrips := roundTrips_rkkt (f := rkkt26) (.inl rfl) (fun h => hzero.2 h.2)
    (fun encoding hdata encoded => by
      rw [encodeFacility_26 _ (by rw [hdata]; exact getBits_eq_zero_iff.2 hfirst)]) hfirst
  exact htrips.2 fun _ _ => rfl

theorem roundTrips_rkkt32 {data : Vector UInt8 6} (hhigh : data[0] < 64 ∧ data[0] ≠ 0) :
    RoundTrips data 32 ↔ ∀ i < 7, bitLibGetBit data (3 + i) = bitLibGetBit data (9 + i) := by
  have hbyte : ∀ i < 8, bitLibGetBit data i = data[0].toNat.testBit (7 - i) := by
    intro i hi
    have hbit := @getBit_byte data 0 i (by norm_num) hi
    rwa [Nat.mul_zero, Nat.zero_add] at hbit
  have hlow : ∀ i < 2, bitLibGetBit data i = false := by
    intro i hi
    rw [hbyte i (by omega)]
    exact Nat.testBit_lt_two_pow ((UInt8.lt_iff_toNat_lt.1 hhigh.1).trans_le
      (Nat.pow_le_pow_right (by norm_num : 0 < 2) (by omega : 6 ≤ 7 - i)))
  have hne : bitLibGetBits data 0 8 ≠ 0 := by
    intro h
    refine hhigh.2 ((byte_eq_zero_iff (by norm_num : 0 < 6)).2 fun j hj => ?_)
    rw [Nat.mul_zero, Nat.zero_add]
    exact getBits_eq_zero_iff.1 h j hj
  exact roundTrips_rkkt (f := rkkt32) (.inr rfl) (fun h => hhigh.2 h.1)
    (fun encoding hdata encoded => by
      rw [encodeFacility_32 _ (by rw [hdata]; exact hne)]) hlow

/-- A card is read as it is sent in all formats but the longest, and in that one if the encoder
happens to find the right bits in the wrong place. -/
theorem read_as_sent_iff {data : Vector UInt8 6} {format : UInt8} (h : Denotes data format) :
    RoundTrips data format ↔ (format = 32 →
      ∀ i < 7, bitLibGetBit data (3 + i) = bitLibGetBit data (9 + i)) := by
  cases h with
  | rkkth hzero => exact ⟨fun _ h => absurd h (by decide), fun _ => roundTrips_rkkth hzero⟩
  | rkkt26 hzero => exact ⟨fun _ h => absurd h (by decide), fun _ => roundTrips_rkkt26 hzero⟩
  | rkkt32 hhigh =>
    have htrips := roundTrips_rkkt32 hhigh
    exact ⟨fun h _ => htrips.1 h, fun h => htrips.2 (h rfl)⟩

theorem plaintext_read_as_sent :
    RoundTrips (Vector.mk #[0, 0, 0x65, 0x2d, 0xab, 0x16] rfl) 0 :=
  (read_as_sent_iff (.rkkth (by decide))).2 fun h => absurd h (by decide)

/-- The facility number 202, in front of a card number. -/
theorem facility_read_as_another :
    Denotes (Vector.mk #[2, 0x65, 0x2d, 0xab, 0x16, 0xe0] rfl) 32 ∧
      ¬RoundTrips (Vector.mk #[2, 0x65, 0x2d, 0xab, 0x16, 0xe0] rfl) 32 := by
  refine ⟨.rkkt32 (by decide), fun h => ?_⟩
  have hbits := (roundTrips_rkkt32 (by decide)).1 h
  exact absurd (hbits 1 (by norm_num)) (by decide)

end ProtocolSecurakey

end KiisuFirmware
