import KiisuFirmware.Cursor
import KiisuFirmware.MfClassic

/-!
# Blocks of MIFARE Classic cards

The fields of a trailer after one of them was written, and the blocks of a sector.
-/

namespace KiisuFirmware

/-! ## Sectors -/

theorem sectorByBlock_toNat (block : UInt8) : (mfClassicGetSectorByBlock block).toNat =
    if block.toNat < 128 then block.toNat / 4 else 32 + (block.toNat - 128) / 16 := by
  have hlt := block.toNat_lt
  unfold mfClassicGetSectorByBlock
  simp only [UInt8.lt_iff_toNat_lt, show (128 : UInt8).toNat = 128 from rfl]
  split_ifs with hlow
  · rw [UInt8.toNat_div, UInt8.toNat_or]
    exact (Nat.or_div_two_pow (a := block.toNat) (b := 3) (n := 2)).trans (Nat.or_zero _)
  · have hdiv : (block ||| 0x0f).toNat / 16 = block.toNat / 16 := by
      rw [UInt8.toNat_or]
      exact (Nat.or_div_two_pow (a := block.toNat) (b := 15) (n := 4)).trans (Nat.or_zero _)
    have hle : (32 * 4 : UInt8) ≤ block ||| 0x0f := by
      rw [UInt8.le_iff_toNat_le, UInt8.toNat_or]
      exact (Nat.not_lt.1 hlow).trans Nat.left_le_or
    have hor := (block ||| 0x0f).toNat_lt
    have h32 : (32 : UInt8).toNat = 32 := rfl
    have h16 : (16 : UInt8).toNat = 16 := rfl
    have h128 : (32 * 4 : UInt8).toNat = 128 := rfl
    rw [UInt8.toNat_add, UInt8.toNat_div, UInt8.toNat_sub_of_le _ _ hle, h32, h16, h128]
    omega

theorem lt_totalBlockNum {a b : UInt8} {type : MfClassicType}
    (h : mfClassicGetSectorByBlock a = mfClassicGetSectorByBlock b)
    (hb : b.toNat < mfClassicGetTotalBlockNum type) :
    a.toNat < mfClassicGetTotalBlockNum type := by
  have hsector := congrArg UInt8.toNat h
  rw [sectorByBlock_toNat, sectorByBlock_toNat] at hsector
  have := a.toNat_lt
  cases type with
  | mini =>
    simp only [mfClassicGetTotalBlockNum] at hb ⊢
    split_ifs at hsector <;> omega
  | type1k =>
    simp only [mfClassicGetTotalBlockNum] at hb ⊢
    split_ifs at hsector <;> omega
  | type4k =>
    simp only [mfClassicGetTotalBlockNum]
    omega

/-! ## Fields -/

namespace MfClassicBlock

variable (block : MfClassicBlock) {start : ℕ} {data : List UInt8}

theorem toList_copy (h : start + data.length ≤ 16) :
    (block.copy start data).toList = overwrite block.toList start data := by
  have hlen : block.toList.length = 16 := Vector.length_toList
  refine List.ext_getElem ?_ fun i hi hi' => ?_
  · rw [Vector.length_toList, length_overwrite (by omega)]
    omega
  · rw [Vector.getElem_toList]
    simp only [copy, Vector.getElem_ofFn]
    grind [overwrite]

theorem length_keyA : block.keyA.length = 6 := by
  rw [keyA, List.length_take, Vector.length_toList]
  rfl

theorem length_accessBits : block.accessBits.length = 4 := by
  rw [accessBits, List.length_take, List.length_drop, Vector.length_toList]
  rfl

theorem length_keyB : block.keyB.length = 6 := by
  rw [keyB, List.length_drop, Vector.length_toList]

theorem keyA_copy (h : data.length = 6) : (block.copy 0 data).keyA = data := by
  rw [keyA, toList_copy block (by omega), overwrite, List.take_zero, List.nil_append,
    List.take_left' h]

theorem keyA_copy_above (h : start + data.length ≤ 16) (hstart : 6 ≤ start) :
    (block.copy start data).keyA = block.keyA := by
  have hlen : block.toList.length = 16 := Vector.length_toList
  rw [keyA, toList_copy block h, ← min_eq_left hstart, ← List.take_take,
    take_overwrite (by omega), List.take_take, min_eq_left hstart, keyA]

theorem accessBits_copy (h : data.length = 4) : (block.copy 6 data).accessBits = data := by
  have hlen : block.toList.length = 16 := Vector.length_toList
  rw [accessBits, toList_copy block (by omega), drop_overwrite (by omega), List.take_left' h]

theorem accessBits_copy_below (h : start + data.length ≤ 6) :
    (block.copy start data).accessBits = block.accessBits := by
  have hlen : block.toList.length = 16 := Vector.length_toList
  obtain ⟨n, hn⟩ := Nat.exists_eq_add_of_le h
  rw [accessBits, toList_copy block (by omega), hn, ← List.drop_drop,
    drop_overwrite_length (by omega), List.drop_drop, ← hn, accessBits]

theorem accessBits_copy_above (h : start + data.length ≤ 16) (hstart : 10 ≤ start) :
    (block.copy start data).accessBits = block.accessBits := by
  have hlen : block.toList.length = 16 := Vector.length_toList
  have hfield : ∀ bytes : List UInt8, (bytes.drop 6).take 4 = (bytes.take 10).drop 6 := by
    intro bytes
    rw [List.drop_take]
  rw [accessBits, hfield, toList_copy block h, ← min_eq_left hstart, ← List.take_take,
    take_overwrite (by omega), List.take_take, min_eq_left hstart, ← hfield, accessBits]

theorem keyB_copy (h : data.length = 6) : (block.copy 10 data).keyB = data := by
  have hlen : block.toList.length = 16 := Vector.length_toList
  rw [keyB, toList_copy block (by omega), drop_overwrite (by omega),
    List.drop_of_length_le (by omega), List.append_nil]

theorem keyB_copy_below (h : start + data.length ≤ 10) :
    (block.copy start data).keyB = block.keyB := by
  have hlen : block.toList.length = 16 := Vector.length_toList
  obtain ⟨n, hn⟩ := Nat.exists_eq_add_of_le h
  rw [keyB, toList_copy block (by omega), hn, ← List.drop_drop,
    drop_overwrite_length (by omega), List.drop_drop, ← hn, keyB]

end MfClassicBlock

end KiisuFirmware
