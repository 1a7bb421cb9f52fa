import KiisuFirmware.Came
import KiisuFirmware.Proofs.SubGhzBlocks

/-!
# Sending what a CAME remote has sent

The gap before each repetition ends the key of the one before it, so all keys are read but the last
one. Of a key so many bits are sent as were counted. The count is a byte: a key of more than 255
bits may be taken for one of a length that is found, and then it is not sent whole.
-/

namespace KiisuFirmware

namespace SubGhzProtocolDecoderCame

open SubGhzProtocolEncoderCame

variable {p : SubGhzProtocolDecoderCame}

/-! ## What is read -/

theorem feed_bit_low (hstep : p.decoder.parserStep = .saveDuration) (bit : Bool) :
    p.feed ⟨false, if bit then CAME_TE_LONG else CAME_TE_SHORT⟩ =
      (false, { p with decoder := { p.decoder with
        teLast := if bit then CAME_TE_LONG else CAME_TE_SHORT
        parserStep := .checkDuration } }) := by
  rw [feed, hstep]
  cases bit <;> rfl

theorem feed_bit_high (hstep : p.decoder.parserStep = .checkDuration) {bit : Bool}
    (hte : p.decoder.teLast = if bit then CAME_TE_LONG else CAME_TE_SHORT) :
    p.feed ⟨true, if bit then CAME_TE_SHORT else CAME_TE_LONG⟩ =
      (false, (p.addBit bit).setStep .saveDuration) := by
  rw [feed, hstep]
  dsimp only
  rw [hte]
  cases bit <;> rfl

/-- The decoder between two bits, with this data and this count. -/
structure Between (p : SubGhzProtocolDecoderCame) (read : BitVec 64 × BitVec 8) : Prop where
  parserStep : p.decoder.parserStep = .saveDuration
  decodeData : p.decoder.decodeData = read.1
  decodeCountBit : p.decoder.decodeCountBit = read.2

theorem Between.readings_bit {read : BitVec 64 × BitVec 8} (h : Between p read) (bit : Bool) :
    ∃ q, Between q (pushBit read bit) ∧ ∀ rest,
      subghzProtocolCame.readings p (bitUpload bit ++ rest) =
        subghzProtocolCame.readings q rest := by
  set low : SubGhzProtocolDecoderCame := { p with decoder := { p.decoder with
    teLast := if bit then CAME_TE_LONG else CAME_TE_SHORT
    parserStep := .checkDuration } } with hlow
  refine ⟨(low.addBit bit).setStep .saveDuration, ⟨rfl, ?_, ?_⟩, fun rest => ?_⟩
  · rw [pushBit, ← h.decodeData]
    rfl
  · rw [pushBit, ← h.decodeCountBit]
    rfl
  · have hupload : bitUpload bit = [⟨false, if bit then CAME_TE_LONG else CAME_TE_SHORT⟩,
        ⟨true, if bit then CAME_TE_SHORT else CAME_TE_LONG⟩] := by
      cases bit <;> rfl
    rw [hupload, List.cons_append,
      SubGhzProtocol.readings_of_false (feed_bit_low h.parserStep bit), List.cons_append,
      SubGhzProtocol.readings_of_false (feed_bit_high (p := low) rfl rfl)]
    rfl

/-- What is sent of a key behind the gap. -/
def frame (data : BitVec 64) (count : ℕ) : List LevelDuration :=
  ⟨true, CAME_TE_SHORT⟩ :: (keyBits data count).flatMap bitUpload

theorem readings_frame (hstep : p.decoder.parserStep = .foundStartBit) (data : BitVec 64)
    (count : ℕ) (rest : List LevelDuration) :
    ∃ q, Between q (pushBits 0 (keyBits data count), BitVec.ofNat 8 count) ∧
      subghzProtocolCame.readings p (frame data count ++ rest) =
        subghzProtocolCame.readings q rest := by
  set start : SubGhzProtocolDecoderCame := { p with decoder := { p.decoder with
    parserStep := .saveDuration
    decodeData := 0
    decodeCountBit := 0 } } with hstart
  have hfeed : p.feed ⟨true, CAME_TE_SHORT⟩ = (false, start) := by
    rw [feed, hstep]
    rfl
  have hbetween : Between start (0, 0#8) := ⟨rfl, rfl, rfl⟩
  obtain ⟨q, hq, hrest⟩ := SubGhzProtocol.readings_flatMap rest
    (fun bit _ => fun {p read} (h : Between p read) => h.readings_bit bit) hbetween
  refine ⟨q, ?_, ?_⟩
  · rw [foldl_pushBit, length_keyBits, BitVec.zero_add] at hq
    exact hq
  · rw [frame, List.cons_append, SubGhzProtocol.readings_of_false hfeed]
    exact hrest

theorem header_long : ∀ count ∈ countBits, CAME_TE_SHORT * 4 ≤ CAME_TE_SHORT * headerTe count ∧
    durationDiff (CAME_TE_SHORT * headerTe count) (CAME_TE_SHORT * 56) < CAME_TE_DELTA * 63 ∧
    count ≤ PRASTEL_42_COUNT_BIT := by
  decide

theorem readings_gap {data : BitVec 64} {count gap : ℕ} (h : Between p (data, BitVec.ofNat 8 count))
    (hcount : count ∈ countBits) (hgap : CAME_TE_SHORT * 4 ≤ gap) (rest : List LevelDuration) :
    ∃ q : SubGhzProtocolDecoderCame, q.decoder.parserStep = .foundStartBit ∧
      subghzProtocolCame.readings p (⟨false, gap⟩ :: rest) =
        (data, count) :: subghzProtocolCame.readings q rest := by
  have htoNat : (BitVec.ofNat 8 count).toNat = count := by
    obtain ⟨-, -, hle⟩ := header_long count hcount
    rw [BitVec.toNat_ofNat]
    exact Nat.mod_eq_of_lt (hle.trans_lt (by decide))
  set inst : SubGhzProtocolDecoderCame := p.setStep .foundStartBit with hinst
  set q : SubGhzProtocolDecoderCame := { inst with generic := { inst.generic with
    serial := 0
    btn := 0
    data := data
    dataCountBit := count } } with hq
  have hfeed : p.feed ⟨false, gap⟩ = (true, q) := by
    have hmem : inst.decoder.decodeCountBit.toNat ∈ countBits := by
      show p.decoder.decodeCountBit.toNat ∈ countBits
      rw [h.decodeCountBit, htoNat]
      exact hcount
    rw [feed, h.parserStep]
    dsimp only
    rw [if_pos rfl, if_pos hgap, ← hinst, if_pos hmem]
    have hdata : inst.decoder.decodeData = data := h.decodeData
    have hcount' : inst.decoder.decodeCountBit.toNat = count := by
      show p.decoder.decodeCountBit.toNat = count
      rw [h.decodeCountBit, htoNat]
    rw [hdata, hcount']
  have hread := @SubGhzProtocol.readings_of_true _ _ subghzProtocolCame _ _ _ hfeed rest
  exact ⟨q, rfl, hread⟩

theorem readings_repeated {count : ℕ} (hcount : count ∈ countBits) (data : BitVec 64) :
    ∀ (repeats : ℕ) {p : SubGhzProtocolDecoderCame}, p.decoder.parserStep = .foundStartBit →
      subghzProtocolCame.readings p (frame data count ++ (List.replicate repeats
        (⟨false, CAME_TE_SHORT * headerTe count⟩ :: frame data count)).flatten) =
          List.replicate repeats (pushBits 0 (keyBits data count), count)
  | 0, p, hstep => by
    obtain ⟨q, -, hread⟩ := readings_frame hstep data count []
    rw [List.replicate_zero, List.flatten_nil, hread]
    rfl
  | repeats + 1, p, hstep => by
    obtain ⟨hlong, -, -⟩ := header_long count hcount
    rw [List.replicate_succ, List.flatten_cons, List.cons_append]
    obtain ⟨q, hq, hframe⟩ := readings_frame hstep data count
      (⟨false, CAME_TE_SHORT * headerTe count⟩ :: (frame data count ++ (List.replicate repeats
        (⟨false, CAME_TE_SHORT * headerTe count⟩ :: frame data count)).flatten))
    obtain ⟨r, hr, hgap⟩ := readings_gap hq hcount hlong (frame data count ++
      (List.replicate repeats
        (⟨false, CAME_TE_SHORT * headerTe count⟩ :: frame data count)).flatten)
    rw [hframe, hgap, readings_repeated hcount data repeats hr, List.replicate_succ]

theorem readings_reset {count : ℕ} (hcount : count ∈ countBits) (data : BitVec 64) (repeats : ℕ) :
    subghzProtocolCame.readings p.reset (List.replicate repeats
      (⟨false, CAME_TE_SHORT * headerTe count⟩ :: frame data count)).flatten =
        List.replicate (repeats - 1) (pushBits 0 (keyBits data count), count) := by
  cases repeats with
  | zero => rfl
  | succ repeats =>
    obtain ⟨-, hheader, -⟩ := header_long count hcount
    have hfeed : p.reset.feed ⟨false, CAME_TE_SHORT * headerTe count⟩ =
        (false, p.reset.setStep .foundStartBit) := by
      show (if _ then _ else _) = _
      rw [if_pos ⟨rfl, hheader⟩]
    rw [List.replicate_succ, List.flatten_cons, List.cons_append,
      SubGhzProtocol.readings_of_false hfeed, Nat.add_sub_cancel]
    exact readings_repeated hcount data repeats rfl

/-! ## What is sent -/

theorem length_flatMap_bitUpload : ∀ bits : List Bool,
    (bits.flatMap bitUpload).length = bits.length * 2
  | [] => rfl
  | bit :: bits => by
    have hbit : (bitUpload bit).length = 2 := by cases bit <;> rfl
    rw [List.flatMap_cons, List.length_append, length_flatMap_bitUpload bits, List.length_cons,
      hbit]
    omega

theorem deserialize_serialize {generic : SubGhzBlockGeneric}
    (hcount : generic.dataCountBit ∈ countBits) :
    ∃ inst, SubGhzProtocolEncoderCame.alloc.deserialize generic.serialize = .ok inst ∧
      ∀ repeats : ℕ, { inst.encoder with repeats := repeats }.emitted = (List.replicate repeats
        (⟨false, CAME_TE_SHORT * headerTe generic.dataCountBit⟩ ::
          frame generic.data generic.dataCountBit)).flatten := by
  obtain ⟨-, -, hle⟩ := header_long generic.dataCountBit hcount
  have h42 : generic.dataCountBit ≤ 42 := hle
  set loaded : SubGhzBlockGeneric := { SubGhzProtocolEncoderCame.alloc.generic with
    dataCountBit := generic.dataCountBit, data := generic.data } with hloaded
  have hgeneric : SubGhzProtocolEncoderCame.alloc.generic.deserialize generic.serialize =
      .ok loaded := SubGhzBlockGeneric.deserialize_serialize generic _ (by omega)
  rw [SubGhzProtocolEncoderCame.deserialize, hgeneric]
  dsimp only [bind, Except.bind]
  rw [if_neg (by show ¬42 < generic.dataCountBit; omega), getUpload,
    if_neg (by show ¬128 < generic.dataCountBit * 2 + 2; omega)]
  refine ⟨_, rfl, fun repeats => ?_⟩
  refine SubGhzProtocolBlockEncoder.emitted_repeats rfl rfl ?_ (List.cons_ne_nil _ _) repeats
  show generic.dataCountBit * 2 + 2 = _
  rw [List.length_cons, List.length_cons, length_flatMap_bitUpload, length_keyBits]

/-! ## What has been read -/

theorem feed_true {pulse : LevelDuration} (h : (p.feed pulse).1 = true) :
    p.decoder.decodeCountBit.toNat ∈ countBits ∧
      (p.feed pulse).2.generic.data = p.decoder.decodeData ∧
      (p.feed pulse).2.generic.dataCountBit = p.decoder.decodeCountBit.toNat := by
  rw [feed] at h ⊢
  cases hstep : p.decoder.parserStep <;> rw [hstep] at h <;> dsimp only at h ⊢
  · split_ifs at h
  · split_ifs at h
  · split_ifs at h with hlevel hgap hcount
    rw [if_pos hlevel, if_pos hgap, if_pos hcount]
    exact ⟨hcount, rfl, rfl⟩
  · split_ifs at h

theorem replays_iff {pulse : LevelDuration} (h : (p.feed pulse).1 = true) :
    subghzProtocolCame.Replays 2 (p.feed pulse).2 ↔
      p.decoder.decodeData.toNat < 2 ^ p.decoder.decodeCountBit.toNat := by
  obtain ⟨hcount, hdata, hcountBit⟩ := feed_true h
  set captured := (p.feed pulse).2 with hcaptured
  rw [← hcountBit] at hcount
  obtain ⟨inst, hload, hemitted⟩ := deserialize_serialize hcount
  have hload' : subghzProtocolCame.load (subghzProtocolCame.serialize captured) =
      some inst.encoder :=
    congrArg (fun result : Except _ _ =>
      result.toOption.map SubGhzProtocolEncoderCame.encoder) hload
  have hread : ∀ (q : SubGhzProtocolDecoderCame) (repeats : ℕ), subghzProtocolCame.readings q.reset
      { inst.encoder with repeats := repeats }.emitted = List.replicate (repeats - 1)
        (pushBits 0 (keyBits captured.generic.data captured.generic.dataCountBit),
          captured.generic.dataCountBit) := by
    intro q repeats
    rw [hemitted]
    exact readings_reset hcount captured.generic.data repeats
  rw [SubGhzProtocol.replays_iff (fun repeats => repeats - 1) hload'
    (fun repeats hrepeats => Nat.sub_ne_zero_of_lt hrepeats) hread]
  rw [Prod.mk.injEq, and_iff_left (show captured.generic.dataCountBit =
    (subghzProtocolCame.generic captured).dataCountBit from rfl)]
  show pushBits 0 (keyBits captured.generic.data captured.generic.dataCountBit) =
    captured.generic.data ↔ _
  rw [pushBits_keyBits_iff, hdata, hcountBit]

end SubGhzProtocolDecoderCame

end KiisuFirmware
