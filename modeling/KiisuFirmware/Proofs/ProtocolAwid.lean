import KiisuFirmware.ProtocolAwid
import KiisuFirmware.Proofs.BitLibParity
import KiisuFirmware.Proofs.BitReader

/-!
# What an AWID card has been tested for

An odd parity of all the groups of four bits is what is tested as an even one: only an array all of
whose groups have an even number of bits set is turned down for them. Behind that the parities are
removed in place, whether there is a card or not.
-/

namespace KiisuFirmware

namespace ProtocolAwid

/-! ## What is tested -/

/-- The arrays that are looked at for a card. -/
def testedLoop (value : Bool) : ℕ → ProtocolAwid → List (Vector UInt8 13)
  | 0, _ => []
  | left + 1, protocol =>
    let window := bitLibPushBit protocol.encodedData value
    let (decoded, encodedData) := canBeDecoded window
    window :: if decoded then []
      else testedLoop value left { protocol with encodedData := encodedData }

/-- All of them, for pulses that are fed one after the other. -/
def tested (protocol : ProtocolAwid) : List LevelDuration → List (Vector UInt8 13)
  | [] => []
  | pulse :: pulses =>
    let ((value, count), fskDemod) := protocol.fskDemod.feed pulse.level pulse.duration
    testedLoop value count { protocol with fskDemod := fskDemod } ++
      tested (protocol.decoderFeed pulse).2 pulses

/-! ## An array -/

/-- Whether an odd number of bits is set in a group. -/
def groupOdd (data : Vector UInt8 13) (group : ℕ) : Bool :=
  parityOf ((List.range 4).map fun i => bitLibGetBit data (8 + group * 4 + i))

/-- A card that is found has odd parities, and else the array is left as it is. -/
structure Intact (data : Vector UInt8 13) : Prop where
  accepted : (canBeDecoded data).1 = true → ∀ group < 22, groupOdd data group = true
  rejected : (canBeDecoded data).1 = false → (canBeDecoded data).2 = data

/-- There is a preamble, and another one behind the groups. -/
def Framed (data : Vector UInt8 13) : Prop :=
  data.getD 0 0 = 0b00000001 ∧ data.getD 12 0 = 0b00000001

/-- The first eight bits, without the parities between them. -/
def formatLength (data : Vector UInt8 13) : ℕ :=
  BitReader.number ((List.range 8).map fun i => bitLibGetBit data (8 + (i + i / 3)))

def KnownFormat (data : Vector UInt8 13) : Prop := formatLength data ∈ [26, 50, 37, 34, 36]

instance (data : Vector UInt8 13) : Decidable (KnownFormat data) :=
  inferInstanceAs (Decidable (formatLength data ∈ [26, 50, 37, 34, 36]))

/-- The bits are where they would be without parities, too. -/
def Still (data : Vector UInt8 13) : Prop :=
  ∀ i < 66, bitLibGetBit data (8 + i) = bitLibGetBit data (8 + (i + i / 3))

theorem testParity_groups (data : Vector UInt8 13) :
    bitLibTestParity data 8 88 .odd 4 = true ↔ ∀ group < 22, groupOdd data group = false := by
  simpa only [groupOdd] using testParity_odd_iff data 8 (by norm_num : 0 < 4) (by norm_num)

/-- The array without the parities. -/
def unparitied (data : Vector UInt8 13) : Vector UInt8 13 := (bitLibRemoveBitEveryNth data 8 88 4).1

theorem getBit_unparitied (data : Vector UInt8 13) {i : ℕ} (hi : i < 104) :
    bitLibGetBit (unparitied data) i =
      if 8 ≤ i ∧ i < 74 then bitLibGetBit data (8 + (i - 8 + (i - 8) / 3))
      else bitLibGetBit data i := by
  have hkept := @keptBits_groups (fun i => bitLibGetBit data (8 + i))
    (fun i => bitLibGetBit data (8 + (i + i / 3))) 4 (by norm_num) 22
    fun group _ i hi => congrArg (bitLibGetBit data) (by omega)
  have hremoved := (@removeBitEveryNth_eq 13 data 8 88 4 (by norm_num) _ hkept).2 i hi
  rw [List.length_map, List.length_range] at hremoved
  rw [unparitied, hremoved]
  by_cases hin : 8 ≤ i ∧ i < 74
  · rw [if_pos (by omega), if_pos hin, List.getD_eq_getElem _ _ (by simp; omega),
      List.getElem_map, List.getElem_range]
  · rw [if_neg (by omega), if_neg hin]

theorem len_eq (data : Vector UInt8 13) :
    (bitLibGetBits (unparitied data) 8 8).toNat = formatLength data := by
  have hpart := part_last (unparitied data) 8 (by norm_num : 0 < 8) le_rfl (Nat.zero_add 8)
  rw [Nat.add_zero] at hpart
  rw [BitReader.number_of_part hpart, formatLength]
  refine congrArg BitReader.number (List.map_congr_left fun i hi => ?_)
  have hlt := List.mem_range.1 hi
  rw [getBit_unparitied data (by omega), if_pos (by omega), Nat.add_sub_cancel_left]

theorem unparitied_eq_iff (data : Vector UInt8 13) : unparitied data = data ↔ Still data := by
  constructor
  · intro h i hi
    have hbit := getBit_unparitied data (by omega : 8 + i < 104)
    rw [h, if_pos (by omega), Nat.add_sub_cancel_left] at hbit
    exact hbit
  · intro h
    refine ext_getBit fun i hi => ?_
    rw [getBit_unparitied data hi]
    by_cases hin : 8 ≤ i ∧ i < 74
    · rw [if_pos hin, ← h (i - 8) (by omega)]
      exact congrArg (bitLibGetBit data) (by omega)
    · rw [if_neg hin]

/-! ## The test -/

theorem framed_iff (data : Vector UInt8 13) :
    (data.getD 0 0 != 0b00000001 || data.getD 12 0 != 0b00000001) = false ↔ Framed data := by
  simp [Framed]

theorem canBeDecoded_of_not_framed {data : Vector UInt8 13} (h : ¬Framed data) :
    canBeDecoded data = (false, data) := by
  rw [← framed_iff, Bool.not_eq_false] at h
  rw [canBeDecoded, if_pos h]

theorem canBeDecoded_of_even {data : Vector UInt8 13}
    (h : ∀ group < 22, groupOdd data group = false) : canBeDecoded data = (false, data) := by
  by_cases hframed : Framed data
  · rw [canBeDecoded, if_neg (by rw [(framed_iff data).2 hframed]; exact Bool.false_ne_true)]
    dsimp only
    rw [if_pos ((testParity_groups data).2 h)]
  · exact canBeDecoded_of_not_framed hframed

theorem unknown_iff (data : Vector UInt8 13) {len : UInt8} (h : len.toNat = formatLength data) :
    (len != 26 && len != 50 && len != 37 && len != 34 && len != 36) = true ↔
      ¬KnownFormat data := by
  simp only [KnownFormat, ← h, Bool.and_eq_true, bne_iff_ne, ne_eq, ← UInt8.toNat_inj,
    List.mem_cons, List.not_mem_nil, or_false, not_or, and_assoc]
  rfl

theorem canBeDecoded_of_odd {data : Vector UInt8 13} (hframed : Framed data)
    (h : ¬∀ group < 22, groupOdd data group = false) :
    canBeDecoded data = (decide (KnownFormat data), unparitied data) := by
  rw [canBeDecoded, if_neg (by rw [(framed_iff data).2 hframed]; exact Bool.false_ne_true)]
  dsimp only
  rw [if_neg (mt (testParity_groups data).1 h)]
  rw [show (bitLibRemoveBitEveryNth data 8 88 4).1 = unparitied data from rfl]
  by_cases hknown : KnownFormat data
  · rw [if_neg fun hunknown => (unknown_iff data (len_eq data)).1 hunknown hknown,
      decide_eq_true hknown]
  · rw [if_pos ((unknown_iff data (len_eq data)).2 hknown), decide_eq_false hknown]

/-- A card is found with a known format, if only one of the parities is odd. -/
theorem intact_iff (data : Vector UInt8 13) :
    Intact data ↔ ¬Framed data ∨ (∀ group < 22, groupOdd data group = false) ∨
      (KnownFormat data ∧ ∀ group < 22, groupOdd data group = true) ∨
      (¬KnownFormat data ∧ Still data) := by
  by_cases hframed : Framed data
  · by_cases heven : ∀ group < 22, groupOdd data group = false
    · refine iff_of_true ⟨?_, ?_⟩ (.inr (.inl heven))
      · rw [canBeDecoded_of_even heven]
        rintro ⟨⟩
      · rw [canBeDecoded_of_even heven]
        exact fun _ => rfl
    · rw [or_iff_right (not_not.2 hframed), or_iff_right heven, ← unparitied_eq_iff]
      have heq := canBeDecoded_of_odd hframed heven
      by_cases hknown : KnownFormat data
      · rw [decide_eq_true hknown] at heq
        constructor
        · exact fun h => .inl ⟨hknown, h.accepted (congrArg Prod.fst heq)⟩
        · rintro (⟨-, hodd⟩ | ⟨hunknown, -⟩)
          · exact ⟨fun _ => hodd, by rw [heq]; rintro ⟨⟩⟩
          · exact absurd hknown hunknown
      · rw [decide_eq_false hknown] at heq
        constructor
        · intro h
          have hrejected := h.rejected (congrArg Prod.fst heq)
          rw [heq] at hrejected
          dsimp only at hrejected
          exact .inr ⟨hknown, hrejected⟩
        · rintro (⟨hknown', -⟩ | ⟨-, hstill⟩)
          · exact absurd hknown' hknown
          · exact ⟨by rw [heq]; rintro ⟨⟩, by rw [heq]; dsimp only; exact fun _ => hstill⟩
  · refine iff_of_true ⟨?_, ?_⟩ (.inl hframed)
    · rw [canBeDecoded_of_not_framed hframed]
      rintro ⟨⟩
    · rw [canBeDecoded_of_not_framed hframed]
      exact fun _ => rfl

/-- Whatever is fed, these are the arrays for which the test is what it should be. -/
theorem tested_intact_iff (protocol : ProtocolAwid) (pulses : List LevelDuration) :
    (∀ data ∈ tested protocol pulses, Intact data) ↔
      ∀ data ∈ tested protocol pulses, ¬Framed data ∨
        (∀ group < 22, groupOdd data group = false) ∨
        (KnownFormat data ∧ ∀ group < 22, groupOdd data group = true) ∨
        (¬KnownFormat data ∧ Still data) :=
  forall₂_congr fun data _ => intact_iff data

/-! ## A card with a bit turned over -/

/-- The pulses of some bits. -/
def pulsesOf (bits : List Bool) : List LevelDuration :=
  bits.flatMap fun bit =>
    (List.replicate (if bit then 5 else 6) [⟨true, 0⟩, ⟨false, if bit then 80 else 64⟩]).flatten

/-- A card of the 26 bit format between its preambles, the last bit before the second one turned
over. -/
def turned : Vector UInt8 13 := #v[1, 29, 135, 180, 17, 66, 209, 17, 17, 17, 17, 16, 1]

theorem not_tested_intact :
    ¬∀ data ∈ tested alloc.decoderStart
      (pulsesOf ((List.range' 7 97).map (bitLibGetBit turned) ++ [false])), Intact data := by
  intro h
  have hmem : turned ∈ tested alloc.decoderStart
      (pulsesOf ((List.range' 7 97).map (bitLibGetBit turned) ++ [false])) := by decide +kernel
  have hodd := (h turned hmem).accepted (by decide +kernel) 21 (by norm_num)
  exact absurd hodd (by decide)

end ProtocolAwid

end KiisuFirmware
