import KiisuFirmware.SubGhzHash

/-!
# What the hash depends on

When the decoder of KeeLoq reports a key it has counted 64 bits or up to two more, so that a byte is
read behind the key, which is the count (`hashLength_keeloq`). That of Security+ 1.0 has counted the
21 digits of a packet, and its word is never anything but zero (`reading_secplusV1`).
-/

namespace KiisuFirmware

section Captures

variable {π σ : Type} {feed : π → LevelDuration → Option (SubGhzCapture σ) × π}

theorem forall_captures {Inv : π → Prop} {Good : SubGhzCapture σ → Prop}
    (hinv : ∀ p pulse, Inv p → Inv (feed p pulse).2)
    (hgood : ∀ p pulse capture, Inv p → (feed p pulse).1 = some capture → Good capture) :
    ∀ (pulses : List LevelDuration) (p : π), Inv p → ∀ capture ∈ captures feed p pulses,
      Good capture
  | [], _, _, capture, hmem => by simp [captures] at hmem
  | pulse :: pulses, p, hp, capture, hmem => by
    rw [captures, List.mem_append, Option.mem_toList] at hmem
    rcases hmem with hnow | hlater
    · exact hgood p pulse capture hp hnow
    · exact forall_captures hinv hgood pulses _ (hinv p pulse hp) capture hlater

end Captures

/-! ## KeeLoq -/

namespace SubGhzProtocolDecoderKeeloq

variable {inst : SubGhzProtocolDecoderKeeloq} {capture : SubGhzCapture KeeloqDecoderStep}

theorem count_of_endTx (h : inst.endTx.1 = some capture) :
    KEELOQ_MIN_COUNT_BIT_FOR_FOUND ≤ capture.decoder.decodeCountBit.toNat ∧
      capture.decoder.decodeCountBit.toNat ≤ KEELOQ_MIN_COUNT_BIT_FOR_FOUND + 2 := by
  unfold endTx at h
  generalize inst.step .reset = inst at h
  dsimp only at h
  by_cases hcount : KEELOQ_MIN_COUNT_BIT_FOR_FOUND ≤ inst.decoder.decodeCountBit.toNat ∧
      inst.decoder.decodeCountBit.toNat ≤ KEELOQ_MIN_COUNT_BIT_FOR_FOUND + 2
  · rw [if_pos hcount] at h
    by_cases hdata : inst.generic.data ≠ inst.decoder.decodeData
    · rw [if_pos hdata] at h
      cases h
      exact hcount
    · rw [if_neg hdata] at h
      cases h
  · rw [if_neg hcount] at h
    cases h

theorem count_of_feed {pulse : LevelDuration} (h : (inst.feed pulse).1 = some capture) :
    KEELOQ_MIN_COUNT_BIT_FOR_FOUND ≤ capture.decoder.decodeCountBit.toNat ∧
      capture.decoder.decodeCountBit.toNat ≤ KEELOQ_MIN_COUNT_BIT_FOR_FOUND + 2 := by
  rw [feed] at h
  rcases hstep : inst.decoder.parserStep with _ | _ | _ | _ <;> simp only [hstep] at h <;>
    split_ifs at h
  exact count_of_endTx h

theorem hashLength_keeloq (h : KEELOQ_MIN_COUNT_BIT_FOR_FOUND ≤
      capture.decoder.decodeCountBit.toNat ∧
    capture.decoder.decodeCountBit.toNat ≤ KEELOQ_MIN_COUNT_BIT_FOR_FOUND + 2) :
    capture.hashLength = 9 := by
  rw [KEELOQ_MIN_COUNT_BIT_FOR_FOUND] at h
  rw [SubGhzCapture.hashLength]
  omega

end SubGhzProtocolDecoderKeeloq

theorem length_of_keeloq {pulses : List LevelDuration} {reading : HashReading}
    (h : reading ∈ HashDecoder.keeloq.readings pulses) : reading.length = 9 := by
  rw [HashDecoder.readings, List.mem_map] at h
  obtain ⟨capture, hcapture, rfl⟩ := h
  exact @forall_captures _ _ SubGhzProtocolDecoderKeeloq.feed (fun _ => True)
    (fun capture => capture.hashLength = 9) (fun _ _ _ => trivial)
    (fun _ _ _ _ hsome => SubGhzProtocolDecoderKeeloq.hashLength_keeloq
      (SubGhzProtocolDecoderKeeloq.count_of_feed hsome)) pulses _ trivial capture hcapture

/-! ## Security+ 1.0 -/

namespace SecPlusV1Hashed

variable {p : SecPlusV1Hashed} {pulse : LevelDuration}

theorem decodeData_feed (h : p.decodeData = 0) : (p.feed pulse).2.decodeData = 0 := by
  rw [feed]
  rcases hstep : p.inst.parserStep with _ | _ | _ | _ <;> dsimp only
  · split_ifs
    · rfl
    · exact h
  · exact h
  · by_cases hgap : pulse.level = false ∧ SubGhzProtocolDecoderSecPlusV1.Near pulse.duration 120
    · rw [if_pos hgap]
    · rw [if_neg hgap]
      exact h
  · exact h

theorem decodeCountBit_accept (inst : SubGhzProtocolDecoderSecPlusV1) :
    inst.accept.2.decodeCountBit = inst.decodeCountBit := by
  unfold SubGhzProtocolDecoderSecPlusV1.accept
  dsimp only
  split_ifs <;> rfl

theorem count_of_accept {inst : SubGhzProtocolDecoderSecPlusV1} (h : inst.accept.1 = true) :
    inst.decodeCountBit = SECPLUS_V1_MIN_COUNT_BIT_FOR_FOUND := by
  by_contra hcount
  rw [SubGhzProtocolDecoderSecPlusV1.accept, if_neg hcount] at h
  exact Bool.false_ne_true h

theorem capture_of_feed {capture : SubGhzCapture SecPlusV1DecoderStep}
    (h : (p.feed pulse).1 = some capture) :
    capture.decoder.decodeData = p.decodeData ∧ capture.decoder.decodeCountBit = 21 := by
  rw [feed] at h
  rcases hstep : p.inst.parserStep with _ | _ | _ | _ <;> simp only [hstep] at h
  · split_ifs at h
  · cases h
  · by_cases hgap : pulse.level = false ∧ SubGhzProtocolDecoderSecPlusV1.Near pulse.duration 120
    · rw [if_pos hgap] at h
      by_cases hreported : p.inst.accept.1 = true
      · rw [if_pos hreported] at h
        cases h
        rw [decodeCountBit_accept, count_of_accept hreported]
        exact ⟨rfl, rfl⟩
      · rw [if_neg hreported] at h
        cases h
    · rw [if_neg hgap] at h
      cases h
  · cases h

theorem reading_secplusV1 {capture : SubGhzCapture SecPlusV1DecoderStep}
    (hzero : capture.decoder.decodeData = 0) (hcount : capture.decoder.decodeCountBit = 21) :
    capture.hashLength = 3 ∧ capture.hashData = some 0 := by
  rw [SubGhzCapture.hashData, SubGhzCapture.hashLength, subghzProtocolBlocksGetHashData,
    SubGhzBlockDecoder.memory, hzero, hcount]
  exact ⟨by decide, by decide⟩

end SecPlusV1Hashed

theorem reading_of_secplusV1 {pulses : List LevelDuration} {reading : HashReading}
    (h : reading ∈ HashDecoder.secplusV1.readings pulses) :
    reading.length = 3 ∧ reading.hash = some 0 := by
  rw [HashDecoder.readings, List.mem_map] at h
  obtain ⟨capture, hcapture, rfl⟩ := h
  obtain ⟨hzero, hcount⟩ := @forall_captures _ _ SecPlusV1Hashed.feed
    (fun p => p.decodeData = 0)
    (fun capture => capture.decoder.decodeData = 0 ∧ capture.decoder.decodeCountBit = 21)
    (fun _ _ => SecPlusV1Hashed.decodeData_feed)
    (fun _ _ _ hp hsome => by
      obtain ⟨hdata, hcount⟩ := SecPlusV1Hashed.capture_of_feed hsome
      exact ⟨hdata.trans hp, hcount⟩) pulses .alloc rfl capture hcapture
  exact SecPlusV1Hashed.reading_secplusV1 hzero hcount

/-! ## Hashes -/

/-- No byte behind the word is read for a hash, and keys that are the same have the same hash. -/
structure HashOk (decoder : HashDecoder) (pulses pulses' : List LevelDuration) : Prop where
  inWord : ∀ reading ∈ decoder.readings pulses ++ decoder.readings pulses', reading.length ≤ 8
  ofKey : ∀ reading ∈ decoder.readings pulses, ∀ reading' ∈ decoder.readings pulses',
    reading.key = reading'.key → reading.hash = reading'.hash

/-- With KeeLoq a byte behind the word is read for every key; with Security+ 1.0 all is well. -/
theorem hashOk_iff (decoder : HashDecoder) (pulses pulses' : List LevelDuration) :
    HashOk decoder pulses pulses' ↔
      decoder = .secplusV1 ∨ decoder.readings pulses = [] ∧ decoder.readings pulses' = [] := by
  constructor
  · intro h
    rcases decoder with _ | _
    · refine .inr (List.append_eq_nil_iff.1
        (List.eq_nil_iff_forall_not_mem.2 fun reading hmem => ?_))
      have hle := h.inWord reading hmem
      have hnine : reading.length = 9 := by
        rcases List.mem_append.1 hmem with hmem | hmem <;> exact length_of_keeloq hmem
      omega
    · exact .inl rfl
  · rintro (rfl | ⟨hnil, hnil'⟩)
    · refine ⟨fun reading hmem => ?_, fun reading hmem reading' hmem' _ => ?_⟩
      · rcases List.mem_append.1 hmem with hmem | hmem <;>
          simp [(reading_of_secplusV1 hmem).1]
      · rw [(reading_of_secplusV1 hmem).2, (reading_of_secplusV1 hmem').2]
    · refine ⟨?_, ?_⟩ <;> simp [hnil, hnil']

/-- A message of ones, with some more bits than it has to have. -/
def keeloqOnes (more : ℕ) : List LevelDuration :=
  (List.replicate 2 [⟨true, 400⟩, ⟨false, 400⟩]).flatten ++ [⟨true, 400⟩, ⟨false, 4000⟩] ++
    (List.replicate (64 + more) [⟨true, 400⟩, ⟨false, 800⟩]).flatten ++
    [⟨true, 400⟩, ⟨false, 4000⟩]

theorem readings_keeloqOnes :
    HashDecoder.keeloq.readings (keeloqOnes 0) = [⟨BitVec.allOnes 64, 9, some 64⟩] ∧
      HashDecoder.keeloq.readings (keeloqOnes 1) = [⟨BitVec.allOnes 64, 9, some 65⟩] := by
  constructor <;> decide +kernel

/-- The same key has two hashes. -/
theorem not_hashOk : ¬∀ (decoder : HashDecoder) (pulses pulses' : List LevelDuration),
    HashOk decoder pulses pulses' := by
  intro h
  obtain ⟨hzero, hone⟩ := readings_keeloqOnes
  have hhash := (h .keeloq (keeloqOnes 0) (keeloqOnes 1)).ofKey ⟨BitVec.allOnes 64, 9, some 64⟩
    (by rw [hzero]; exact List.mem_cons_self) ⟨BitVec.allOnes 64, 9, some 65⟩
    (by rw [hone]; exact List.mem_cons_self) rfl
  exact absurd hhash (by decide)

end KiisuFirmware
