import KiisuFirmware.Infrared

/-!
# The infrared decoders stay in their arrays

Between two calls a decoder that waits for a preamble or for a repetition holds at most five
timings, and one that decodes bits none (`Resting`). Only the decoder of Pioneer can miss the
second: it asks for 33 bits or 32 whose bytes are followed by their inverses, and what is long
enough for an end but is behind 32 others is neither taken nor thrown away.
-/

namespace KiisuFirmware

namespace InfraredCommonDecoder

variable {decoder next : InfraredCommonDecoder}

/-- What decoding a timing leaves alone. -/
structure Keeps (decoder next : InfraredCommonDecoder) : Prop where
  timings : next.timings = decoder.timings
  level : next.level = decoder.level
  state : next.state = decoder.state
  length : next.data.length = decoder.data.length

theorem Keeps.refl (decoder : InfraredCommonDecoder) : Keeps decoder decoder := ⟨rfl, rfl, rfl, rfl⟩

theorem Keeps.trans {last : InfraredCommonDecoder} (h : Keeps decoder next)
    (h' : Keeps next last) : Keeps decoder last :=
  ⟨h'.timings.trans h.timings, h'.level.trans h.level, h'.state.trans h.state,
    h'.length.trans h.length⟩

theorem Keeps.timingLevel (h : Keeps decoder next) : next.timingLevel = decoder.timingLevel := by
  rw [InfraredCommonDecoder.timingLevel, InfraredCommonDecoder.timingLevel, h.timings, h.level]

/-- There is room for the bits, and no more of them than there may be. -/
structure Fits (protocol : InfraredCommonProtocol) (decoder : InfraredCommonDecoder) : Prop where
  length : decoder.data.length = (protocol.maxLen + 7) / 8
  databitCnt : decoder.databitCnt ≤ protocol.maxLen

variable {protocol : InfraredCommonProtocol}

theorem Keeps.fits (h : Keeps decoder next) (hfits : Fits protocol decoder)
    (hcnt : next.databitCnt ≤ protocol.maxLen) : Fits protocol next :=
  ⟨h.length.trans hfits.length, hcnt⟩

theorem timingLevel_consume {timing : ℕ} {left : List ℕ} (h : decoder.timings = timing :: left) :
    (decoder.consumeSamples 1).timingLevel = !decoder.timingLevel := by
  have hlength : ((decoder.consumeSamples 1).timings).length + 1 = decoder.timings.length := by
    simp [consumeSamples, h]
  have hlevel : (decoder.consumeSamples 1).level = decoder.level := rfl
  rw [timingLevel, timingLevel, hlevel, ← hlength]
  rcases Nat.mod_two_eq_zero_or_one
    (decoder.level.toNat + (decoder.consumeSamples 1).timings.length) with hmod | hmod
  · simp [Nat.add_mod, hmod, ← Nat.add_assoc]
  · simp [Nat.add_mod, hmod, ← Nat.add_assoc]

theorem accumulateLsb_fits (hfits : Fits protocol decoder)
    (hcnt : decoder.databitCnt < protocol.maxLen) (bit : Bool) :
    ∃ next, decoder.accumulateLsb bit = .ok next ∧ Keeps decoder next ∧
      next.databitCnt = decoder.databitCnt + 1 ∧ next.switchDetect = decoder.switchDetect := by
  have hindex : decoder.databitCnt / 8 < decoder.data.length := by
    have hlength := hfits.length
    omega
  rw [accumulateLsb]
  dsimp only
  rw [if_pos hindex]
  exact ⟨_, rfl, ⟨rfl, rfl, rfl, List.length_set⟩, rfl, rfl⟩

end InfraredCommonDecoder

open InfraredCommonDecoder

/-! ## Decoding a timing -/

/-- Where room for a bit matters: the level of the next timing, and how many bits there are. -/
abbrev InfraredRoom : Type := Bool → ℕ → Prop

/-- A protocol decodes a timing without a fault, and at most two bits of it. -/
def DecodesBits (protocol : InfraredCommonProtocol) (decode : InfraredDecode)
    (Room : InfraredRoom) : Prop :=
  ∀ {decoder : InfraredCommonDecoder} {level : Bool} (timing : ℕ), Fits protocol decoder →
    Room level decoder.databitCnt → (level = false → decoder.databitCnt ≠ protocol.maxLen) →
    ∃ status next, decode decoder level timing = .ok (status, next) ∧
      Keeps decoder next ∧ Fits protocol next ∧ next.databitCnt ≤ decoder.databitCnt + 2 ∧
      (status = .error ∨ status = .ok ∧ Room (!level) next.databitCnt)

section Decode

variable {protocol : InfraredCommonProtocol} {decoder : InfraredCommonDecoder} {level : Bool}
  {Room : InfraredRoom}

theorem pdwm_bit (hfits : Fits protocol decoder) (hcnt : decoder.databitCnt < protocol.maxLen)
    (hroom : Room (!level) (decoder.databitCnt + 1)) (timing bit1 bit0 delta : ℕ) :
    ∃ status next, (if MatchTiming timing bit1 delta then
        (decoder.accumulateLsb true).map fun decoder => (InfraredStatus.ok, decoder)
      else if MatchTiming timing bit0 delta then
        (decoder.accumulateLsb false).map fun decoder => (InfraredStatus.ok, decoder)
      else
        .ok (InfraredStatus.error, decoder)) = .ok (status, next) ∧
      Keeps decoder next ∧ Fits protocol next ∧ next.databitCnt ≤ decoder.databitCnt + 2 ∧
      (status = .error ∨ status = .ok ∧ Room (!level) next.databitCnt) := by
  have hbit : ∀ bit, ∃ next, (decoder.accumulateLsb bit).map
      (fun decoder => (InfraredStatus.ok, decoder)) = .ok (.ok, next) ∧ Keeps decoder next ∧
        Fits protocol next ∧ next.databitCnt = decoder.databitCnt + 1 := by
    intro bit
    obtain ⟨next, hbit, hkeeps, hnext, -⟩ := accumulateLsb_fits hfits hcnt bit
    exact ⟨next, by rw [hbit]; rfl, hkeeps, hkeeps.fits hfits (by omega), hnext⟩
  split_ifs
  · obtain ⟨next, hmap, hkeeps, hnext, hsucc⟩ := hbit true
    exact ⟨.ok, next, hmap, hkeeps, hnext, by omega, .inr ⟨rfl, by rwa [hsucc]⟩⟩
  · obtain ⟨next, hmap, hkeeps, hnext, hsucc⟩ := hbit false
    exact ⟨.ok, next, hmap, hkeeps, hnext, by omega, .inr ⟨rfl, by rwa [hsucc]⟩⟩
  · exact ⟨_, _, rfl, .refl decoder, hfits, by omega, .inl rfl⟩

theorem decodesBits_pdwm
    (hbit : ∀ level cnt,
      (level ^^ (protocol.timings.bit1Mark == protocol.timings.bit0Mark)) = true →
      cnt ≤ protocol.maxLen → Room level cnt → (level = false → cnt ≠ protocol.maxLen) →
      cnt < protocol.maxLen ∧ Room (!level) (cnt + 1))
    (hpause : ∀ level cnt,
      (level ^^ (protocol.timings.bit1Mark == protocol.timings.bit0Mark)) = false →
      cnt ≤ protocol.maxLen → Room level cnt → (level = false → cnt ≠ protocol.maxLen) →
      Room (!level) cnt) :
    DecodesBits protocol (infraredCommonDecodePdwm protocol) Room := by
  intro decoder level timing hfits hroom hlow
  rw [infraredCommonDecodePdwm]
  cases hanalyze : level ^^ (protocol.timings.bit1Mark == protocol.timings.bit0Mark) with
  | true =>
    obtain ⟨hcnt, hnext⟩ := hbit level _ hanalyze hfits.databitCnt hroom hlow
    rw [if_pos rfl]
    exact pdwm_bit hfits hcnt hnext timing _ _ _
  | false =>
    have hnext := hpause level _ hanalyze hfits.databitCnt hroom hlow
    rw [if_neg Bool.false_ne_true]
    by_cases hmatch : MatchTiming timing
        (if protocol.timings.bit1Mark = protocol.timings.bit0Mark then protocol.timings.bit1Mark
          else protocol.timings.bit1Space) protocol.timings.bitTolerance
    · rw [if_pos hmatch]
      exact ⟨_, _, rfl, .refl decoder, hfits, by omega, .inr ⟨rfl, hnext⟩⟩
    · rw [if_neg hmatch]
      exact ⟨_, _, rfl, .refl decoder, hfits, by omega, .inl rfl⟩

theorem manchesterStart_fits (hlen : 1 ≤ protocol.maxLen) (hfits : Fits protocol decoder) :
    ∃ next, manchesterStart protocol decoder = .ok next ∧ Keeps decoder next ∧
      Fits protocol next ∧ next.databitCnt ≤ decoder.databitCnt + 1 := by
  rw [manchesterStart]
  split_ifs with hstart
  · obtain ⟨-, hzero⟩ := hstart
    have hfits' : Fits protocol { decoder with switchDetect := true } :=
      ⟨hfits.length, hfits.databitCnt⟩
    have hroom : decoder.databitCnt < protocol.maxLen := by omega
    obtain ⟨next, hbit, hkeeps, hnext, -⟩ := accumulateLsb_fits hfits' hroom false
    have hcnt : next.databitCnt = decoder.databitCnt + 1 := hnext
    have hkeeps' : Keeps decoder next :=
      ⟨hkeeps.timings, hkeeps.level, hkeeps.state, hkeeps.length⟩
    exact ⟨next, hbit, hkeeps', hkeeps'.fits hfits (by omega), by omega⟩
  · exact ⟨decoder, rfl, .refl decoder, hfits, by omega⟩

theorem manchesterSwitch_fits (hfits : Fits protocol decoder) (singleTiming doubleTiming : Bool) :
    ∃ status next, manchesterSwitch protocol decoder level singleTiming doubleTiming =
      .ok (status, next) ∧ Keeps decoder next ∧ Fits protocol next ∧
        next.databitCnt ≤ decoder.databitCnt + 1 ∧ (status = .error ∨ status = .ok) := by
  rw [manchesterSwitch]
  dsimp only
  split_ifs with hdouble hswitch hfull
  · exact ⟨_, _, rfl, .refl decoder, hfits, by omega, .inl rfl⟩
  · exact ⟨_, _, rfl, ⟨rfl, rfl, rfl, rfl⟩, ⟨hfits.length, hfits.databitCnt⟩, Nat.le_succ _,
      .inl rfl⟩
  · set switched : InfraredCommonDecoder :=
      { decoder with switchDetect := !decoder.switchDetect || !singleTiming } with hswitched
    have hfits' : Fits protocol switched := ⟨hfits.length, hfits.databitCnt⟩
    have hroom : decoder.databitCnt < protocol.maxLen := by
      have hle := hfits.databitCnt
      omega
    obtain ⟨next, hbit, hkeeps, hnext, -⟩ := accumulateLsb_fits hfits' hroom level
    have hcnt : next.databitCnt = decoder.databitCnt + 1 := hnext
    have hkeeps' : Keeps decoder next :=
      ⟨hkeeps.timings, hkeeps.level, hkeeps.state, hkeeps.length⟩
    exact ⟨.ok, next, by rw [hbit]; rfl, hkeeps', hkeeps'.fits hfits (by omega), by omega, .inr rfl⟩
  · exact ⟨_, _, rfl, ⟨rfl, rfl, rfl, rfl⟩, ⟨hfits.length, hfits.databitCnt⟩, Nat.le_succ _,
      .inr rfl⟩

theorem decodesBits_manchester (hlen : 1 ≤ protocol.maxLen) :
    DecodesBits protocol (infraredCommonDecodeManchester protocol) fun _ _ => True := by
  intro decoder level timing hfits _ _
  rw [infraredCommonDecodeManchester]
  dsimp only
  split_ifs with hnone
  · exact ⟨_, _, rfl, .refl decoder, hfits, by omega, .inl rfl⟩
  · obtain ⟨start, hstart, hkeeps, hfits', hle⟩ := manchesterStart_fits hlen hfits
    obtain ⟨status, next, hswitch, hkeeps', hnext, hle', hstatus⟩ :=
      @manchesterSwitch_fits protocol start level hfits'
        (decide (MatchTiming timing protocol.timings.bit1Mark protocol.timings.bitTolerance))
        (decide (MatchTiming timing (2 * protocol.timings.bit1Mark) protocol.timings.bitTolerance))
    refine ⟨status, next, ?_, hkeeps.trans hkeeps', hnext, by omega, ?_⟩
    · rw [hstart]
      exact hswitch
    · rcases hstatus with hstatus | hstatus
      · exact .inl hstatus
      · exact .inr ⟨hstatus, trivial⟩

theorem rc6ToggleBit_fits (hfits : Fits infraredRc6 decoder) (hfour : decoder.databitCnt = 4)
    (bit : Bool) : ∃ next, rc6ToggleBit decoder bit = .ok next ∧ Keeps decoder next ∧
      Fits infraredRc6 next ∧ next.databitCnt = decoder.databitCnt + 1 := by
  have hlength : decoder.data.length = 3 := hfits.length
  have hmax : infraredRc6.maxLen = 21 := rfl
  rw [rc6ToggleBit, if_pos (by omega)]
  refine ⟨_, rfl, ⟨rfl, rfl, rfl, List.length_set⟩, ⟨List.length_set.trans hfits.length, ?_⟩, rfl⟩
  show decoder.databitCnt + 1 ≤ _
  omega

theorem decodesBits_rc6 :
    DecodesBits infraredRc6 infraredDecoderRc6DecodeManchester fun _ _ => True := by
  intro decoder level timing hfits hroom hlow
  rw [infraredDecoderRc6DecodeManchester]
  have hmanchester := @decodesBits_manchester infraredRc6 (by decide)
  by_cases hfour : decoder.databitCnt = 4
  · rw [if_pos hfour]
    have hbit : ∀ bit, ∃ status next, (rc6ToggleBit decoder bit).map (fun decoder =>
        (InfraredStatus.ok, decoder)) = .ok (status, next) ∧ Keeps decoder next ∧
          Fits infraredRc6 next ∧ next.databitCnt ≤ decoder.databitCnt + 2 ∧
            (status = .error ∨ status = .ok ∧ True) := by
      intro bit
      obtain ⟨next, hbit, hkeeps, hnext, hsucc⟩ := rc6ToggleBit_fits hfits hfour bit
      exact ⟨.ok, next, by rw [hbit]; rfl, hkeeps, hnext, by omega, .inr ⟨rfl, trivial⟩⟩
    split_ifs
    · exact hbit (!level)
    · exact hbit level
    · exact ⟨_, _, rfl, .refl decoder, hfits, by omega, .inl rfl⟩
  rw [if_neg hfour]
  by_cases hfive : decoder.databitCnt = 5
  · rw [if_pos hfive]
    split_ifs
    · obtain ⟨status, next, hdecode, hkeeps, hrest⟩ := @hmanchester
        { decoder with switchDetect := false } level infraredRc6.timings.bit1Mark
        ⟨hfits.length, hfits.databitCnt⟩ trivial hlow
      exact ⟨status, next, hdecode, ⟨hkeeps.timings, hkeeps.level, hkeeps.state, hkeeps.length⟩,
        hrest⟩
    · obtain ⟨status, next, hdecode, hkeeps, hrest⟩ := @hmanchester
        { decoder with switchDetect := false } level timing
        ⟨hfits.length, hfits.databitCnt⟩ trivial hlow
      exact ⟨status, next, hdecode, ⟨hkeeps.timings, hkeeps.level, hkeeps.state, hkeeps.length⟩,
        hrest⟩
    · exact ⟨_, _, rfl, .refl decoder, hfits, by omega, .inr ⟨rfl, trivial⟩⟩
    · exact ⟨_, _, rfl, .refl decoder, hfits, by omega, .inl rfl⟩
  rw [if_neg hfive]
  exact hmanchester timing hfits trivial hlow

end Decode

/-! ## The loop of the bits -/

/-- What the common decoder asks of a protocol. Of the short forms only those of many bits may be
refused. -/
structure InfraredCommonProtocolSpec.Lawful (protocol : InfraredCommonProtocolSpec)
    (Room : InfraredRoom) : Prop where
  decode : DecodesBits protocol.toInfraredCommonProtocol protocol.decode Room
  room : ∀ level, Room level 0
  split : protocol.timings.minSplitTime ≠ 0
  maxLen : protocol.maxLen ∈ protocol.databitLen
  keeps : ∀ decoder, Keeps decoder (protocol.interpret decoder).2
  databitCnt : ∀ decoder, (protocol.interpret decoder).2.databitCnt = decoder.databitCnt
  interprets : ∀ decoder, decoder.databitCnt ≤ 16 → decoder.databitCnt ∈ protocol.databitLen →
    decoder.databitCnt ≠ protocol.maxLen → (protocol.interpret decoder).1 = true
  repeats : ∀ f, protocol.decodeRepeat = some f → protocol.timings.preambleMark ≠ 0 ∧
    ∀ decoder, decoder.timings.length ≤ 6 →
      f decoder = (.ok, decoder) ∧ decoder.timings.length ≤ 5 ∨ f decoder = (.error, decoder) ∨
        f decoder = (.ready, { decoder with timings := [] })

variable {protocol : InfraredCommonProtocolSpec} {Room : InfraredRoom}
  {decoder : InfraredCommonDecoder}

/-- How decoding the bits of a decoder ends. -/
inductive BitsEnd (protocol : InfraredCommonProtocolSpec) (Room : InfraredRoom)
    (decoder : InfraredCommonDecoder) : InfraredStatus → InfraredCommonDecoder → Prop
  | ok {next} : next.timings = [] → Room next.timingLevel next.databitCnt →
    BitsEnd protocol Room decoder .ok next
  | ready {next timing left} : next.timings = timing :: left → LongLow protocol next timing →
    next = decoder ∨ left.length + 1 < decoder.timings.length →
    next.databitCnt + 2 * next.timings.length ≤ decoder.databitCnt + 2 * decoder.timings.length →
    BitsEnd protocol Room decoder .ready next
  | error {next} : 1 ≤ next.timings.length → next.timings.length ≤ decoder.timings.length →
    BitsEnd protocol Room decoder .error next

theorem decodeBits_ends (hp : protocol.Lawful Room) : ∀ (left : List ℕ)
    {decoder : InfraredCommonDecoder}, decoder.timings = left →
    Fits protocol.toInfraredCommonProtocol decoder →
    Room decoder.timingLevel decoder.databitCnt →
    ∃ status next, infraredCommonDecodeBits protocol left decoder = .ok (status, next) ∧
      BitsEnd protocol Room decoder status next ∧
      Fits protocol.toInfraredCommonProtocol next ∧ next.level = decoder.level ∧
      next.state = decoder.state
  | [], decoder, hleft, hfits, hroom => ⟨.ok, decoder, rfl, .ok hleft hroom, hfits, rfl, rfl⟩
  | timing :: left, decoder, hleft, hfits, hroom => by
    rw [infraredCommonDecodeBits]
    by_cases hlong : LongLow protocol decoder timing
    · rw [if_pos hlong]
      exact ⟨_, _, rfl, .ready hleft hlong (.inl rfl) le_rfl, hfits, rfl, rfl⟩
    rw [if_neg hlong]
    by_cases hshort : ShortLow protocol decoder timing
    · rw [if_pos hshort]
      exact ⟨_, _, rfl, .error (by simp [hleft]) le_rfl, hfits, rfl, rfl⟩
    rw [if_neg hshort]
    -- a low level behind all bits would have been long or short
    have hlow : decoder.timingLevel = false → decoder.databitCnt ≠ protocol.maxLen := by
      intro hlevel hmax
      rcases Nat.lt_or_ge protocol.timings.minSplitTime timing with hlt | hge
      · exact hlong ⟨hp.split, hlevel, hlt, hmax ▸ hp.maxLen⟩
      · exact hshort ⟨hp.split, hlevel, hge, hmax.symm⟩
    obtain ⟨status, next, hdecode, hkeeps, hnext, hcnt, hstatus⟩ :=
      hp.decode timing hfits hroom hlow
    have htimings : next.timings = timing :: left := hkeeps.timings.trans hleft
    have hlen : next.timings.length = decoder.timings.length := congrArg _ hkeeps.timings
    dsimp only
    rw [hdecode]
    dsimp only [bind, Except.bind]
    rw [if_neg (Nat.not_lt.2 hnext.databitCnt)]
    rcases hstatus with rfl | ⟨rfl, hroom'⟩
    · rw [if_pos rfl]
      exact ⟨_, _, rfl, .error (by simp [htimings]) hlen.le, hnext, hkeeps.level, hkeeps.state⟩
    · have hunsplit : ¬(decoder.timingLevel ∧
          protocol.maxLen = (next.consumeSamples 1).databitCnt ∧
            protocol.timings.minSplitTime = 0) := fun h => hp.split h.2.2
      rw [if_neg (by decide), if_neg hunsplit, if_pos rfl]
      have hconsumed : (next.consumeSamples 1).timings = left := by simp [consumeSamples, htimings]
      obtain ⟨status, last, hbits, hend, hlast, hlevel, hstate⟩ := decodeBits_ends hp left hconsumed
        ⟨hnext.length, hnext.databitCnt⟩
        (by rw [timingLevel_consume htimings, hkeeps.timingLevel]; exact hroom')
      refine ⟨status, last, hbits, ?_, hlast, hlevel.trans hkeeps.level, hstate.trans hkeeps.state⟩
      have hless : (next.consumeSamples 1).timings.length + 1 = decoder.timings.length := by
        rw [hconsumed, hleft, List.length_cons]
      have hcnt' : (next.consumeSamples 1).databitCnt = next.databitCnt := rfl
      cases hend with
      | ok hnil hroom => exact .ok hnil hroom
      | @ready _ timing' left' hcons hlong hwhich hle =>
        have hlength : left'.length + 1 ≤ left.length := by
          rcases hwhich with rfl | hlt
          · rw [hconsumed] at hcons
            rw [hcons, List.length_cons]
          · rw [hconsumed] at hlt
            exact hlt.le
        exact .ready hcons hlong (.inr (by rw [hleft, List.length_cons]; omega)) (by omega)
      | error hpos hle => exact .error hpos (by omega)

/-! ## The turns of a call -/

theorem findPreamble_length (t : InfraredTimings) : ∀ timings : List ℕ,
    (findPreamble t timings).1 = true ∧ (findPreamble t timings).2.length + 2 ≤ timings.length ∨
      (findPreamble t timings).1 = false ∧ (findPreamble t timings).2.length ≤ 1
  | [] => .inr ⟨rfl, Nat.zero_le 1⟩
  | [_] => .inr ⟨rfl, le_rfl⟩
  | mark :: space :: rest => by
    rw [findPreamble]
    split_ifs
    · exact .inl ⟨rfl, le_rfl⟩
    · rcases findPreamble_length t rest with ⟨hfound, hlen⟩ | hnone
      · exact .inl ⟨hfound, by simp; omega⟩
      · exact .inr hnone

/-- A preamble that is looked for takes two timings; where there is none, the first timing left is
that of a mark. -/
theorem checkPreamble_cases (protocol : InfraredCommonProtocol) (decoder : InfraredCommonDecoder) :
    ∃ found rest, infraredCheckPreamble protocol decoder =
        (found, { decoder with timings := rest }) ∧
      (found = false ∧ rest.length ≤ 1 ∨
        found = true ∧ protocol.timings.preambleMark ≠ 0 ∧
          rest.length + 2 ≤ decoder.timings.length ∨
        found = true ∧ protocol.timings.preambleMark = 0 ∧
          { decoder with timings := rest }.timingLevel = true ∧
          (decoder.timingLevel = true ∧ rest = decoder.timings ∨
            decoder.timingLevel = false ∧ rest.length + 1 = decoder.timings.length)) := by
  rw [infraredCheckPreamble]
  by_cases hnil : decoder.timings = []
  · rw [if_pos hnil]
    exact ⟨false, decoder.timings, rfl, .inl ⟨rfl, by simp [hnil]⟩⟩
  rw [if_neg hnil]
  obtain ⟨timing, left, hleft⟩ := List.exists_cons_of_ne_nil hnil
  obtain ⟨rest, hrest, hlen, hlevel, hwhich⟩ : ∃ rest,
      (if decoder.timingLevel then decoder else decoder.consumeSamples 1) =
        { decoder with timings := rest } ∧ rest.length ≤ decoder.timings.length ∧
      { decoder with timings := rest }.timingLevel = true ∧
      (decoder.timingLevel = true ∧ rest = decoder.timings ∨
        decoder.timingLevel = false ∧ rest.length + 1 = decoder.timings.length) := by
    cases hlevel : decoder.timingLevel with
    | true => exact ⟨decoder.timings, rfl, le_rfl, hlevel, .inl ⟨rfl, rfl⟩⟩
    | false =>
      refine ⟨decoder.timings.drop 1, rfl, by simp, ?_, .inr ⟨rfl, by simp [hleft]⟩⟩
      have hflip := timingLevel_consume hleft
      rw [hlevel] at hflip
      exact hflip
  dsimp only
  rw [hrest]
  by_cases hmark : protocol.timings.preambleMark = 0
  · rw [if_pos hmark]
    exact ⟨true, rest, rfl, .inr (.inr ⟨rfl, hmark, hlevel, hwhich⟩)⟩
  · rw [if_neg hmark]
    refine ⟨_, _, rfl, ?_⟩
    rcases findPreamble_length protocol.timings rest with ⟨hfound, hle⟩ | hnone
    · exact .inr (.inl ⟨hfound, hmark, hle.trans hlen⟩)
    · exact .inl hnone

/-- What is long enough for an end, and not the longest form, is understood. -/
def Understood (protocol : InfraredCommonProtocolSpec) (decoder : InfraredCommonDecoder) : Prop :=
  ∀ timing ∈ decoder.timings, LongLow protocol decoder timing →
    decoder.databitCnt ≠ protocol.maxLen → (protocol.interpret decoder).1 = true

/-- A decoder between two calls. -/
structure Resting (protocol : InfraredCommonProtocolSpec) (Room : InfraredRoom)
    (decoder : InfraredCommonDecoder) : Prop where
  fits : Fits protocol.toInfraredCommonProtocol decoder
  length : decoder.timings.length ≤ 5
  decode : decoder.state = .decode →
    decoder.timings = [] ∧ Room decoder.timingLevel decoder.databitCnt
  repeats : decoder.state = .processRepeat → protocol.decodeRepeat.isSome

/-- A decoder between two turns of a call. -/
structure Turning (protocol : InfraredCommonProtocolSpec) (Room : InfraredRoom)
    (decoder : InfraredCommonDecoder) : Prop where
  fits : Fits protocol.toInfraredCommonProtocol decoder
  length : decoder.timings.length ≤ 6
  decode : decoder.state = .decode → Room decoder.timingLevel decoder.databitCnt ∧
    (decoder.timings.length = 6 → decoder.timingLevel = true) ∧
    (decoder.timings.length ≤ 1 ∧ Understood protocol decoder ∨
      decoder.databitCnt + 2 * decoder.timings.length ≤ 16)
  repeats : decoder.state = .processRepeat → protocol.decodeRepeat.isSome

/-- The turns that may follow in a state, of those that take no timing. -/
def stateTurns (protocol : InfraredCommonProtocol) (level : Bool) :
    InfraredCommonStateDecoder → ℕ
  | .waitPreamble => if level then 2 else 0
  | .decode => if protocol.timings.preambleMark = 0 then 1 else 4
  | .processRepeat => 3

theorem stateTurns_le (protocol : InfraredCommonProtocol) (level : Bool)
    (state : InfraredCommonStateDecoder) : stateTurns protocol level state ≤ 4 := by
  cases state <;> rw [stateTurns]
  · split_ifs <;> omega
  · split_ifs <;> omega
  · omega

/-- At least the number of turns that may follow. -/
def turnsLeft (protocol : InfraredCommonProtocolSpec) (decoder : InfraredCommonDecoder) : ℕ :=
  3 * decoder.timings.length +
    stateTurns protocol.toInfraredCommonProtocol decoder.timingLevel decoder.state

/-- How a turn may end. -/
def TurnEnd (protocol : InfraredCommonProtocolSpec) (Room : InfraredRoom)
    (decoder : InfraredCommonDecoder) : InfraredTurn → Prop
  | .again _ next =>
    Turning protocol Room next ∧ turnsLeft protocol next < turnsLeft protocol decoder
  | .leave _ next => Resting protocol Room next

section Turn

theorem waitPreamble_turn (hp : protocol.Lawful Room) (h : Turning protocol Room decoder)
    (hstate : decoder.state = .waitPreamble) (message : Bool) :
    ∃ turn, infraredCommonDecodeTurn protocol message decoder = .ok turn ∧
      TurnEnd protocol Room decoder turn := by
  obtain ⟨found, rest, hcheck, hcases⟩ :=
    checkPreamble_cases protocol.toInfraredCommonProtocol decoder
  rw [infraredCommonDecodeTurn, hstate]
  dsimp only
  rw [hcheck]
  have hlength := h.length
  rcases hcases with ⟨rfl, hle⟩ | ⟨rfl, hmark, hle⟩ | ⟨rfl, hmark, hlevel, hwhich⟩
  · refine ⟨_, rfl, ⟨⟨h.fits.length, h.fits.databitCnt⟩, by show rest.length ≤ 5; omega, ?_, ?_⟩⟩
    · intro hdecode
      exact absurd (hstate.symm.trans hdecode) (by decide)
    · intro hrepeat
      exact absurd (hstate.symm.trans hrepeat) (by decide)
  · refine ⟨_, rfl, ⟨⟨h.fits.length, Nat.zero_le _⟩, by show rest.length ≤ 6; omega, ?_, ?_⟩, ?_⟩
    · intro _
      refine ⟨hp.room _, fun hsix => ?_, .inr ?_⟩
      · have hsix' : rest.length = 6 := hsix
        omega
      · show 0 + 2 * rest.length ≤ 16
        omega
    · intro hrepeat
      cases hrepeat
    · rw [turnsLeft, turnsLeft, stateTurns, if_neg hmark]
      dsimp only
      omega
  · have hle : rest.length ≤ decoder.timings.length := by
      rcases hwhich with ⟨-, rfl⟩ | ⟨-, hsucc⟩ <;> omega
    refine ⟨_, rfl, ⟨⟨h.fits.length, Nat.zero_le _⟩, by show rest.length ≤ 6; omega, ?_, ?_⟩, ?_⟩
    · intro _
      refine ⟨hp.room _, fun _ => hlevel, .inr ?_⟩
      show 0 + 2 * rest.length ≤ 16
      omega
    · intro hrepeat
      cases hrepeat
    · rw [turnsLeft, turnsLeft, hstate, stateTurns, stateTurns, if_pos hmark]
      rcases hwhich with ⟨hlow, rfl⟩ | ⟨hlow, hsucc⟩
      · simp [hlow]
      · simp [hlow]
        omega

section Reset

variable (protocol : InfraredCommonProtocol) (decoder : InfraredCommonDecoder)

theorem resetState_state :
    (infraredCommonDecoderResetState protocol decoder).state = .waitPreamble := by
  rw [infraredCommonDecoderResetState]
  split_ifs <;> rfl

theorem resetState_databitCnt :
    (infraredCommonDecoderResetState protocol decoder).databitCnt = 0 := by
  rw [infraredCommonDecoderResetState]
  split_ifs <;> rfl

theorem resetState_data :
    (infraredCommonDecoderResetState protocol decoder).data = decoder.data := by
  rw [infraredCommonDecoderResetState]
  split_ifs <;> rfl

end Reset

theorem reset_turn (hfits : Fits protocol.toInfraredCommonProtocol decoder)
    (hlength : decoder.timings.length ≤ 6) :
    Turning protocol Room
        (infraredCommonDecoderResetState protocol.toInfraredCommonProtocol decoder) ∧
      turnsLeft protocol
        (infraredCommonDecoderResetState protocol.toInfraredCommonProtocol decoder) ≤
          3 * (if protocol.timings.preambleMark = 0 then decoder.timings.length - 1
            else decoder.timings.length) + 2 := by
  set next := infraredCommonDecoderResetState protocol.toInfraredCommonProtocol decoder with hnext
  have hstate : next.state = .waitPreamble := resetState_state _ _
  have hcnt : next.databitCnt = 0 := resetState_databitCnt _ _
  have hdata : next.data = decoder.data := resetState_data _ _
  have htimings : next.timings.length = if protocol.timings.preambleMark = 0 then
      decoder.timings.length - 1 else decoder.timings.length := by
    rw [hnext, infraredCommonDecoderResetState]
    split_ifs
    · exact List.length_drop
    · rfl
  have hle : next.timings.length ≤ 6 := by
    rw [htimings]
    split_ifs <;> omega
  refine ⟨⟨⟨(congrArg List.length hdata).trans hfits.length, by rw [hcnt]; exact Nat.zero_le _⟩,
    hle, ?_, ?_⟩, ?_⟩
  · intro hdecode
    exact absurd (hstate.symm.trans hdecode) (by decide)
  · intro hrepeat
    exact absurd (hstate.symm.trans hrepeat) (by decide)
  · rw [turnsLeft, hstate, ← htimings, stateTurns]
    split_ifs <;> omega

theorem checkReady_cases (hp : protocol.Lawful Room) (decoder : InfraredCommonDecoder) :
    ∃ message next, infraredCommonDecoderCheckReady protocol decoder = (message, next) ∧
      next.timings = decoder.timings ∧ next.level = decoder.level ∧
      next.data.length = decoder.data.length ∧
      (message = true ∧ next.databitCnt = 0 ∧
          (next.state = .waitPreamble ∨
            next.state = .processRepeat ∧ protocol.decodeRepeat.isSome) ∨
        message = false ∧ next.databitCnt = decoder.databitCnt ∧ next.state = decoder.state ∧
          (decoder.databitCnt ∈ protocol.databitLen → (protocol.interpret decoder).1 = false)) := by
  rw [infraredCommonDecoderCheckReady]
  by_cases hmem : decoder.databitCnt ∈ protocol.databitLen
  · obtain ⟨htimings, hlevel, hstate, hlength⟩ := hp.keeps decoder
    have hcnt := hp.databitCnt decoder
    rw [if_pos hmem]
    obtain ⟨⟨interpreted, next⟩, hinterpret⟩ : ∃ r, protocol.interpret decoder = r := ⟨_, rfl⟩
    rw [hinterpret] at htimings hlevel hstate hlength hcnt ⊢
    cases interpreted with
    | true =>
      refine ⟨true, _, rfl, htimings, hlevel, hlength, .inl ⟨rfl, rfl, ?_⟩⟩
      dsimp only
      split_ifs with hrepeat
      · exact .inr ⟨rfl, hrepeat⟩
      · exact .inl rfl
    | false =>
      exact ⟨false, next, rfl, htimings, hlevel, hlength, .inr ⟨rfl, hcnt, hstate, fun _ => rfl⟩⟩
  · rw [if_neg hmem]
    exact ⟨false, decoder, rfl, rfl, rfl, rfl, .inr ⟨rfl, rfl, rfl, fun h => absurd h hmem⟩⟩

theorem decode_turn (hp : protocol.Lawful Room) (h : Turning protocol Room decoder)
    (hstate : decoder.state = .decode) (message : Bool) :
    ∃ turn, infraredCommonDecodeTurn protocol message decoder = .ok turn ∧
      TurnEnd protocol Room decoder turn := by
  have hlength := h.length
  obtain ⟨hroom, hsix, hunderstood⟩ := h.decode hstate
  obtain ⟨status, next, hbits, hend, hfits, hlevel, hnextState⟩ :=
    decodeBits_ends hp decoder.timings rfl h.fits hroom
  rw [infraredCommonDecodeTurn, hstate]
  dsimp only
  rw [hbits]
  dsimp only [bind, Except.bind]
  cases hend with
  | ok hnil hroom' =>
    refine ⟨_, rfl, hfits, by rw [hnil]; exact Nat.zero_le 5, fun _ => ⟨hnil, hroom'⟩, ?_⟩
    intro hrepeat
    exact absurd ((hnextState.trans hstate).symm.trans hrepeat) (by decide)
  | error hpos hle =>
    obtain ⟨hturning, hturns⟩ := @reset_turn protocol Room next hfits (hle.trans hlength)
    have hhere : turnsLeft protocol decoder = 3 * decoder.timings.length +
        if protocol.timings.preambleMark = 0 then 1 else 4 := by rw [turnsLeft, hstate, stateTurns]
    refine ⟨_, rfl, hturning, hturns.trans_lt ?_⟩
    rw [hhere]
    split_ifs <;> omega
  | @ready _ timing left hcons hlong hwhich hcnt =>
    obtain ⟨ready, last, hready, htimings, hlevel', hdata, hcases⟩ := checkReady_cases hp next
    have hlevelLow : last.timingLevel = false := by
      rw [timingLevel, htimings, hlevel']
      exact hlong.2.1
    have hle : next.timings.length ≤ decoder.timings.length := by
      rcases hwhich with rfl | hlt
      · exact le_rfl
      · rw [hcons]
        exact hlt.le
    -- the first of six timings is that of a mark, and not what is ready
    have hfive : last.timings.length ≤ 5 := by
      rw [htimings]
      rcases hwhich with rfl | hlt
      · rcases Nat.lt_or_eq_of_le hlength with hlt | heq
        · omega
        · exact absurd (hsix heq) (by rw [hlong.2.1]; decide)
      · rw [hcons, List.length_cons]
        omega
    rw [hready]
    rcases hcases with ⟨rfl, hzero, hlast⟩ | ⟨rfl, hsame, hlast, hrefused⟩
    · refine ⟨_, rfl, ⟨⟨hdata.trans hfits.length, by rw [hzero]; exact Nat.zero_le _⟩,
        hfive.trans (by decide), ?_, ?_⟩, ?_⟩
      · intro hdecode
        rcases hlast with hlast | ⟨hlast, -⟩
        · exact absurd (hlast.symm.trans hdecode) (by decide)
        · exact absurd (hlast.symm.trans hdecode) (by decide)
      · intro hrepeat
        rcases hlast with hlast | ⟨-, hsome⟩
        · exact absurd (hlast.symm.trans hrepeat) (by decide)
        · exact hsome
      · rw [turnsLeft, turnsLeft, hstate, htimings, hlevelLow]
        rcases hlast with hlast | ⟨hlast, hsome⟩
        · rw [hlast, stateTurns, stateTurns, if_neg Bool.false_ne_true]
          split_ifs <;> omega
        · obtain ⟨f, hf⟩ := Option.isSome_iff_exists.1 hsome
          obtain ⟨hmark, -⟩ := hp.repeats f hf
          rw [hlast, stateTurns, stateTurns, if_neg hmark]
          omega
    · dsimp only
      by_cases hmax : protocol.maxLen = last.databitCnt
      · rw [if_pos hmax]
        refine ⟨_, rfl, ⟨hdata.trans hfits.length, hsame.trans_le hfits.databitCnt⟩, hfive, ?_, ?_⟩
        · intro hdecode
          cases hdecode
        · intro hrepeat
          cases hrepeat
      · exfalso
        have hmem := hlong.2.2.2
        have hne : next.databitCnt ≠ protocol.maxLen := fun h => hmax (h.symm.trans hsame.symm)
        have hinterprets : (protocol.interpret next).1 = true := by
          rcases hunderstood with ⟨hone, hunderstood⟩ | hfew
          · rcases hwhich with rfl | hlt
            · exact hunderstood timing (by simp [hcons]) hlong hne
            · omega
          · exact hp.interprets next (by omega) hmem hne
        rw [hrefused hmem] at hinterprets
        cases hinterprets

theorem processRepeat_turn (hp : protocol.Lawful Room) (h : Turning protocol Room decoder)
    (hstate : decoder.state = .processRepeat) (message : Bool) :
    ∃ turn, infraredCommonDecodeTurn protocol message decoder = .ok turn ∧
      TurnEnd protocol Room decoder turn := by
  obtain ⟨f, hf⟩ := Option.isSome_iff_exists.1 (h.repeats hstate)
  obtain ⟨hmark, hrepeat⟩ := hp.repeats f hf
  have hsome : protocol.decodeRepeat.isSome := h.repeats hstate
  rw [infraredCommonDecodeTurn, hstate]
  dsimp only
  rw [hf]
  dsimp only
  have hdecode : decoder.state ≠ .decode := by
    rw [hstate]
    decide
  rcases hrepeat decoder h.length with ⟨hok, hle⟩ | herror | hready
  · rw [hok]
    exact ⟨_, rfl, h.fits, hle, fun hstate => absurd hstate hdecode, fun _ => hsome⟩
  · rw [herror]
    obtain ⟨hturning, hturns⟩ := @reset_turn protocol Room decoder h.fits h.length
    have hhere : turnsLeft protocol decoder = 3 * decoder.timings.length + 3 := by
      rw [turnsLeft, hstate, stateTurns]
    rw [if_neg hmark] at hturns
    exact ⟨_, rfl, hturning, by omega⟩
  · rw [hready]
    exact ⟨_, rfl, ⟨h.fits.length, h.fits.databitCnt⟩, Nat.zero_le 5,
      fun hstate => absurd hstate hdecode, fun _ => hsome⟩

theorem turn_ends (hp : protocol.Lawful Room) (h : Turning protocol Room decoder)
    (message : Bool) : ∃ turn, infraredCommonDecodeTurn protocol message decoder = .ok turn ∧
      TurnEnd protocol Room decoder turn := by
  cases hstate : decoder.state with
  | waitPreamble => exact waitPreamble_turn hp h hstate message
  | decode => exact decode_turn hp h hstate message
  | processRepeat => exact processRepeat_turn hp h hstate message

theorem loop_ends (hp : protocol.Lawful Room) : ∀ (turns : ℕ) {decoder : InfraredCommonDecoder}
    (message : Bool), Turning protocol Room decoder → turnsLeft protocol decoder < turns →
    ∃ message' next, infraredCommonDecodeLoop protocol turns message decoder =
      .ok (message', next) ∧ Resting protocol Room next
  | 0, _, _, _, hturns => absurd hturns (Nat.not_lt_zero _)
  | turns + 1, decoder, message, h, hturns => by
    obtain ⟨turn, hturn, hend⟩ := turn_ends hp h message
    rw [infraredCommonDecodeLoop, hturn]
    cases turn with
    | again message' next =>
      obtain ⟨hnext, hless⟩ := hend
      exact loop_ends hp turns message' hnext (by omega)
    | leave message' next => exact ⟨message', next, rfl, hend⟩

end Turn

/-! ## Whole runs -/

/-- The decoder with an edge more. -/
def InfraredCommonDecoder.push (decoder : InfraredCommonDecoder) (level : Bool) (duration : ℕ) :
    InfraredCommonDecoder :=
  { decoder with level := level, timings := decoder.timings ++ [duration] }

theorem push_timingLevel {level : Bool} (h : decoder.level ≠ level) (duration : ℕ) :
    (decoder.push level duration).timingLevel = decoder.timingLevel := by
  have hlevel : level = !decoder.level := (Bool.eq_not_of_ne (Ne.symm h))
  have hlength : (decoder.push level duration).timings.length = decoder.timings.length + 1 := by
    simp [push]
  have hpush : (decoder.push level duration).level = level := rfl
  rw [timingLevel, timingLevel, hlength, hpush, hlevel]
  rcases Nat.mod_two_eq_zero_or_one decoder.timings.length with hmod | hmod <;>
    cases decoder.level <;> simp [Nat.add_mod, hmod]

theorem resting_of_waiting (hfits : Fits protocol.toInfraredCommonProtocol decoder)
    (hlength : decoder.timings.length ≤ 5) (hstate : decoder.state = .waitPreamble) :
    Resting protocol Room decoder := by
  refine ⟨hfits, hlength, fun hdecode => ?_, fun hrepeat => ?_⟩
  · exact absurd (hstate.symm.trans hdecode) (by decide)
  · exact absurd (hstate.symm.trans hrepeat) (by decide)

theorem Resting.reset (h : Resting protocol Room decoder) : Resting protocol Room
    (infraredCommonDecoderReset protocol.toInfraredCommonProtocol decoder) := by
  refine resting_of_waiting ⟨?_, ?_⟩ (Nat.zero_le 5) (resetState_state _ _)
  · exact (congrArg List.length (resetState_data _ _)).trans h.fits.length
  · exact (resetState_databitCnt _ _).trans_le (Nat.zero_le _)

theorem Resting.checkReady (hp : protocol.Lawful Room) (h : Resting protocol Room decoder) :
    Resting protocol Room (infraredCommonDecoderCheckReady protocol decoder).2 := by
  obtain ⟨ready, next, hready, htimings, hlevel, hdata, hcases⟩ := checkReady_cases hp decoder
  rw [hready]
  have hlength : next.timings.length ≤ 5 := by
    rw [htimings]
    exact h.length
  rcases hcases with ⟨-, hzero, hstate⟩ | ⟨-, hsame, hstate, -⟩
  · have hfits : Fits protocol.toInfraredCommonProtocol next :=
      ⟨hdata.trans h.fits.length, hzero.trans_le (Nat.zero_le _)⟩
    rcases hstate with hstate | ⟨hstate, hsome⟩
    · exact resting_of_waiting hfits hlength hstate
    · exact ⟨hfits, hlength, fun hdecode => absurd (hstate.symm.trans hdecode) (by decide),
        fun _ => hsome⟩
  · refine ⟨⟨hdata.trans h.fits.length, hsame.trans_le h.fits.databitCnt⟩, hlength,
      fun hdecode => ?_, fun hrepeat => h.repeats (hstate.symm.trans hrepeat)⟩
    obtain ⟨hnil, hroom⟩ := h.decode (hstate.symm.trans hdecode)
    have hlevel' : next.timingLevel = decoder.timingLevel := by
      rw [timingLevel, timingLevel, htimings, hlevel]
    exact ⟨htimings.trans hnil, by rw [hlevel', hsame]; exact hroom⟩

/-- A level that ends the bits is understood when it comes. -/
def EndUnderstood (protocol : InfraredCommonProtocolSpec) (decoder : InfraredCommonDecoder) :
    InfraredEvent → Prop
  | .decode level duration => decoder.level ≠ level → decoder.state = .decode →
    Understood protocol (decoder.push level duration)
  | _ => True

theorem Resting.edge (hp : protocol.Lawful Room) (h : Resting protocol Room decoder)
    (level : Bool) (duration : ℕ)
    (hunderstood : EndUnderstood protocol decoder (.decode level duration)) :
    ∃ message next, infraredCommonDecode protocol decoder level duration = .ok (message, next) ∧
      Resting protocol Room next := by
  rw [infraredCommonDecode]
  obtain ⟨start, hstart, hresting, hturning⟩ : ∃ start, (if decoder.level = level then
        infraredCommonDecoderReset protocol.toInfraredCommonProtocol decoder else decoder) = start ∧
      start.timings.length ≤ 5 ∧ Turning protocol Room (start.push level duration) := by
    have hpushed : ∀ start, Resting protocol Room start →
        (start.push level duration).timings.length ≤ 6 := by
      intro start hstart
      have hlength := hstart.length
      simp [push]
      omega
    split_ifs with hlevel
    · have hreset := h.reset
      refine ⟨_, rfl, hreset.length, ⟨hreset.fits.length, hreset.fits.databitCnt⟩,
        hpushed _ hreset, fun hdecode => ?_, fun hrepeat => ?_⟩
      · exact absurd ((resetState_state _ _).symm.trans hdecode) (by decide)
      · exact absurd ((resetState_state _ _).symm.trans hrepeat) (by decide)
    · refine ⟨_, rfl, h.length, ⟨h.fits.length, h.fits.databitCnt⟩, hpushed _ h,
        fun hdecode => ?_, h.repeats⟩
      obtain ⟨hnil, hroom⟩ := h.decode hdecode
      have hone : (decoder.push level duration).timings = [duration] := by simp [push, hnil]
      refine ⟨?_, fun hsix => ?_, .inl ⟨?_, hunderstood hlevel hdecode⟩⟩
      · rw [push_timingLevel hlevel]
        exact hroom
      · rw [hone] at hsix
        cases hsix
      · rw [hone]
        rfl
  have hturns : turnsLeft protocol (start.push level duration) < INFRARED_TURNS := by
    have hlength := hturning.length
    have hstate := stateTurns_le protocol.toInfraredCommonProtocol
      (start.push level duration).timingLevel (start.push level duration).state
    show _ < 32
    rw [turnsLeft]
    omega
  obtain ⟨message, next, hloop, hnext⟩ := loop_ends hp INFRARED_TURNS false hturning hturns
  dsimp only
  rw [hstart, if_neg (show ¬INFRARED_TIMINGS ≤ start.timings.length from Nat.not_le.2 (by
    show start.timings.length < 6; omega))]
  refine ⟨if message then some next.message else none, next, ?_, hnext⟩
  show (infraredCommonDecodeLoop protocol INFRARED_TURNS false (start.push level duration)).bind _ =
    _
  rw [hloop]
  rfl

theorem infraredStep_resting (hp : protocol.Lawful Room) (h : Resting protocol Room decoder)
    (event : InfraredEvent) (hunderstood : EndUnderstood protocol decoder event) :
    Yields (Resting protocol Room) (fun _ => False) (infraredStep protocol decoder event) := by
  cases event with
  | decode level duration =>
    obtain ⟨message, next, hdecode, hnext⟩ := h.edge hp level duration hunderstood
    rw [infraredStep, hdecode]
    exact hnext
  | checkReady => exact h.checkReady hp
  | reset => exact h.reset

theorem infraredDecoder_runs (hp : protocol.Lawful Room)
    {ok : InfraredCommonDecoder → InfraredEvent → Prop}
    (hok : ∀ {decoder event}, Resting protocol Room decoder → ok decoder event →
      EndUnderstood protocol decoder event) {events : List InfraredEvent}
    (h : ExecAlong ok (infraredStep protocol) (infraredCommonDecoderAlloc protocol) events) :
    ∃ decoder, exec (infraredStep protocol) (infraredCommonDecoderAlloc protocol) events =
      .ok decoder ∧ Resting protocol Room decoder := by
  have halloc : Resting protocol Room (infraredCommonDecoderAlloc protocol) :=
    resting_of_waiting ⟨List.length_replicate, Nat.zero_le _⟩ (Nat.zero_le 5) rfl
  have hrun := exec_inv (fun _ event hdecoder hevent =>
    infraredStep_resting hp hdecoder event (hok hdecoder hevent)) events halloc h
  cases hexec : exec (infraredStep protocol) (infraredCommonDecoderAlloc protocol) events with
  | error fault =>
    rw [hexec] at hrun
    exact hrun.elim
  | ok decoder =>
    rw [hexec] at hrun
    exact ⟨decoder, rfl, hrun⟩

/-! ## The protocols -/

section Protocols

theorem decodesBits_spaces {protocol : InfraredCommonProtocol}
    (h : protocol.timings.bit1Mark = protocol.timings.bit0Mark) :
    DecodesBits protocol (infraredCommonDecodePdwm protocol) fun _ _ => True := by
  refine @decodesBits_pdwm protocol (fun _ _ => True)
    (fun level cnt hbit hle _ hlow => ⟨?_, trivial⟩) fun _ _ _ _ _ _ => trivial
  have hlevel : level = false := by
    rw [h] at hbit
    simpa using hbit
  exact lt_of_le_of_ne hle (hlow hlevel)

theorem decodesBits_marks {protocol : InfraredCommonProtocol}
    (h : protocol.timings.bit1Mark ≠ protocol.timings.bit0Mark) :
    DecodesBits protocol (infraredCommonDecodePdwm protocol)
      fun level cnt => level = true → cnt < protocol.maxLen := by
  have hbeq : (protocol.timings.bit1Mark == protocol.timings.bit0Mark) = false := by simpa using h
  refine @decodesBits_pdwm protocol (fun level cnt => level = true → cnt < protocol.maxLen)
    (fun level cnt hbit hle hroom hlow => ?_) fun level cnt hpause hle hroom hlow hnext => ?_
  · have hlevel : level = true := by
      rw [hbeq] at hbit
      simpa using hbit
    refine ⟨hroom hlevel, fun hnext => ?_⟩
    rw [hlevel] at hnext
    cases hnext
  · have hlevel : level = false := by simpa using hnext
    exact lt_of_le_of_ne hle (hlow hlevel)

theorem infraredDecoderNecInterpret_keeps (decoder : InfraredCommonDecoder) :
    Keeps decoder (infraredDecoderNecInterpret decoder).2 ∧
      (infraredDecoderNecInterpret decoder).2.databitCnt = decoder.databitCnt := by
  rw [infraredDecoderNecInterpret]
  dsimp only
  split_ifs
  all_goals exact ⟨⟨rfl, rfl, rfl, rfl⟩, rfl⟩

theorem lawful_nec : infraredProtocolNec.Lawful fun _ _ => True where
  decode := decodesBits_spaces rfl
  room _ := trivial
  split := by decide
  maxLen := by decide
  keeps decoder := (infraredDecoderNecInterpret_keeps decoder).1
  databitCnt decoder := (infraredDecoderNecInterpret_keeps decoder).2
  interprets decoder hfew hmem := by
    rcases List.mem_cons.1 hmem with h | h
    · omega
    · rw [List.mem_singleton.1 h] at hfew
      omega
  repeats f hf := by
    cases hf
    refine ⟨by decide, fun decoder _ => ?_⟩
    rw [infraredDecoderNecDecodeRepeat]
    rcases hdecoder : decoder.timings with _ | ⟨pause, _ | ⟨mark, _ | ⟨space, _ | ⟨stop, rest⟩⟩⟩⟩
    · exact .inl ⟨rfl, by simp⟩
    · exact .inl ⟨rfl, by simp⟩
    · exact .inl ⟨rfl, by simp⟩
    · exact .inl ⟨rfl, by simp⟩
    · dsimp only
      split_ifs
      · exact .inr (.inr rfl)
      · exact .inr (.inl rfl)

theorem infraredDecoderSamsung32Interpret_keeps (decoder : InfraredCommonDecoder) :
    Keeps decoder (infraredDecoderSamsung32Interpret decoder).2 ∧
      (infraredDecoderSamsung32Interpret decoder).2.databitCnt = decoder.databitCnt := by
  rw [infraredDecoderSamsung32Interpret]
  split_ifs
  all_goals exact ⟨⟨rfl, rfl, rfl, rfl⟩, rfl⟩

theorem lawful_samsung32 : infraredProtocolSamsung32.Lawful fun _ _ => True where
  decode := decodesBits_spaces rfl
  room _ := trivial
  split := by decide
  maxLen := by decide
  keeps decoder := (infraredDecoderSamsung32Interpret_keeps decoder).1
  databitCnt decoder := (infraredDecoderSamsung32Interpret_keeps decoder).2
  interprets decoder _ hmem hne := absurd (List.mem_singleton.1 hmem) hne
  repeats f hf := by
    cases hf
    refine ⟨by decide, fun decoder hlength => ?_⟩
    rw [infraredDecoderSamsung32DecodeRepeat]
    rcases hdecoder : decoder.timings with
      _ | ⟨pause, _ | ⟨mark, _ | ⟨space, _ | ⟨bitMark, _ | ⟨bitSpace, _ | ⟨stop, rest⟩⟩⟩⟩⟩⟩
    · exact .inl ⟨rfl, by simp⟩
    · exact .inl ⟨rfl, by simp⟩
    · exact .inl ⟨rfl, by simp⟩
    · exact .inl ⟨rfl, by simp⟩
    · exact .inl ⟨rfl, by simp⟩
    · exact .inl ⟨rfl, by simp⟩
    · dsimp only
      split_ifs
      · exact .inr (.inr rfl)
      · exact .inr (.inl rfl)

theorem infraredDecoderRc5Interpret_keeps (decoder : InfraredCommonDecoder) :
    Keeps decoder (infraredDecoderRc5Interpret decoder).2 ∧
      (infraredDecoderRc5Interpret decoder).2.databitCnt = decoder.databitCnt := by
  have hlength : ((decoder.data.set 0 (~~~decoder.byte 0)).set 1 (~~~decoder.byte 1)).length =
      decoder.data.length := by simp
  rw [infraredDecoderRc5Interpret]
  dsimp only
  split_ifs
  all_goals exact ⟨⟨rfl, rfl, rfl, hlength⟩, rfl⟩

theorem lawful_rc5 : infraredProtocolRc5.Lawful fun _ _ => True where
  decode := decodesBits_manchester (by decide)
  room _ := trivial
  split := by decide
  maxLen := by decide
  keeps decoder := (infraredDecoderRc5Interpret_keeps decoder).1
  databitCnt decoder := (infraredDecoderRc5Interpret_keeps decoder).2
  interprets decoder _ hmem hne := absurd (List.mem_singleton.1 hmem) hne
  repeats f hf := by cases hf

theorem infraredDecoderRc6Interpret_keeps (decoder : InfraredCommonDecoder) :
    Keeps decoder (infraredDecoderRc6Interpret decoder).2 ∧
      (infraredDecoderRc6Interpret decoder).2.databitCnt = decoder.databitCnt := by
  rw [infraredDecoderRc6Interpret]
  split_ifs
  all_goals exact ⟨⟨rfl, rfl, rfl, rfl⟩, rfl⟩

theorem lawful_rc6 : infraredProtocolRc6.Lawful fun _ _ => True where
  decode := decodesBits_rc6
  room _ := trivial
  split := by decide
  maxLen := by decide
  keeps decoder := (infraredDecoderRc6Interpret_keeps decoder).1
  databitCnt decoder := (infraredDecoderRc6Interpret_keeps decoder).2
  interprets decoder _ hmem hne := absurd (List.mem_singleton.1 hmem) hne
  repeats f hf := by cases hf

theorem infraredDecoderSircInterpret_keeps (decoder : InfraredCommonDecoder) :
    Keeps decoder (infraredDecoderSircInterpret decoder).2 ∧
      (infraredDecoderSircInterpret decoder).2.databitCnt = decoder.databitCnt := by
  rw [infraredDecoderSircInterpret]
  split_ifs
  all_goals exact ⟨⟨rfl, rfl, rfl, rfl⟩, rfl⟩

theorem infraredDecoderSircInterpret_true {decoder : InfraredCommonDecoder}
    (h : decoder.databitCnt ∈ infraredSirc.databitLen) :
    (infraredDecoderSircInterpret decoder).1 = true := by
  have hcnt : decoder.databitCnt = 20 ∨ decoder.databitCnt = 15 ∨ decoder.databitCnt = 12 := by
    simpa [infraredSirc] using h
  rw [infraredDecoderSircInterpret]
  rcases hcnt with h | h | h <;> simp [h]

theorem lawful_sirc :
    infraredProtocolSirc.Lawful fun level cnt => level = true → cnt < infraredSirc.maxLen where
  decode := decodesBits_marks (by decide)
  room _ _ := by decide
  split := by decide
  maxLen := by decide
  keeps decoder := (infraredDecoderSircInterpret_keeps decoder).1
  databitCnt decoder := (infraredDecoderSircInterpret_keeps decoder).2
  interprets _ _ hmem _ := infraredDecoderSircInterpret_true hmem
  repeats f hf := by cases hf

theorem infraredDecoderPioneerInterpret_keeps (decoder : InfraredCommonDecoder) :
    Keeps decoder (infraredDecoderPioneerInterpret decoder).2 ∧
      (infraredDecoderPioneerInterpret decoder).2.databitCnt = decoder.databitCnt := by
  rw [infraredDecoderPioneerInterpret]
  dsimp only
  split_ifs
  all_goals exact ⟨⟨rfl, rfl, rfl, rfl⟩, rfl⟩

theorem lawful_pioneer : infraredProtocolPioneer.Lawful fun _ _ => True where
  decode := decodesBits_spaces rfl
  room _ := trivial
  split := by decide
  maxLen := by decide
  keeps decoder := (infraredDecoderPioneerInterpret_keeps decoder).1
  databitCnt decoder := (infraredDecoderPioneerInterpret_keeps decoder).2
  interprets decoder hfew hmem := by
    rcases List.mem_cons.1 hmem with h | h
    · omega
    · rw [List.mem_singleton.1 h] at hfew
      omega
  repeats f hf := by cases hf

theorem infraredDecoderKaseikyoInterpret_keeps (decoder : InfraredCommonDecoder) :
    Keeps decoder (infraredDecoderKaseikyoInterpret decoder).2 ∧
      (infraredDecoderKaseikyoInterpret decoder).2.databitCnt = decoder.databitCnt := by
  rw [infraredDecoderKaseikyoInterpret]
  split_ifs
  all_goals exact ⟨⟨rfl, rfl, rfl, rfl⟩, rfl⟩

theorem lawful_kaseikyo : infraredProtocolKaseikyo.Lawful fun _ _ => True where
  decode := decodesBits_spaces rfl
  room _ := trivial
  split := by decide
  maxLen := by decide
  keeps decoder := (infraredDecoderKaseikyoInterpret_keeps decoder).1
  databitCnt decoder := (infraredDecoderKaseikyoInterpret_keeps decoder).2
  interprets decoder _ hmem hne := absurd (List.mem_singleton.1 hmem) hne
  repeats f hf := by cases hf

theorem infraredDecoderRcaInterpret_keeps (decoder : InfraredCommonDecoder) :
    Keeps decoder (infraredDecoderRcaInterpret decoder).2 ∧
      (infraredDecoderRcaInterpret decoder).2.databitCnt = decoder.databitCnt := by
  rw [infraredDecoderRcaInterpret]
  split_ifs
  all_goals exact ⟨⟨rfl, rfl, rfl, rfl⟩, rfl⟩

theorem lawful_rca : infraredProtocolRca.Lawful fun _ _ => True where
  decode := decodesBits_spaces rfl
  room _ := trivial
  split := by decide
  maxLen := by decide
  keeps decoder := (infraredDecoderRcaInterpret_keeps decoder).1
  databitCnt decoder := (infraredDecoderRcaInterpret_keeps decoder).2
  interprets decoder _ hmem hne := absurd (List.mem_singleton.1 hmem) hne
  repeats f hf := by cases hf

end Protocols

/-! ## No decoder leaves its arrays, but for that of Pioneer -/

/-- What ends 32 bits is behind bytes that are followed by their inverses. -/
def PioneerChecked (decoder : InfraredCommonDecoder) : InfraredEvent → Prop
  | .decode false duration => decoder.level = true → decoder.state = .decode →
    decoder.databitCnt = 32 → infraredPioneer.timings.minSplitTime < duration →
    decoder.byte 1 = ~~~decoder.byte 0 ∧ decoder.byte 3 = ~~~decoder.byte 2
  | _ => True

theorem word_byte (decoder : InfraredCommonDecoder) (offset : ℕ) :
    (decoder.word offset).setWidth 8 = decoder.byte offset ∧
      (decoder.word offset >>> 8).setWidth 8 = decoder.byte (offset + 1) ∧
      (decoder.word offset >>> 16).setWidth 8 = decoder.byte (offset + 2) ∧
      (decoder.word offset >>> 24).setWidth 8 = decoder.byte (offset + 3) := by
  refine ⟨?_, ?_, ?_, ?_⟩
  all_goals
    ext i hi
    have hlt : ∀ k, 8 ≤ k → ¬k + i < 8 := fun k _ => by omega
    have hsub : 8 + i - 8 = i ∧ 16 + i - 8 = 8 + i ∧ 24 + i - 8 = 16 + i := by omega
    simp only [word, byte, BitVec.getElem_setWidth, BitVec.getLsbD_ushiftRight,
      BitVec.getLsbD_append]
    simp [hi, hlt, hsub, BitVec.getLsbD_eq_getElem]

theorem pioneer_endUnderstood {decoder : InfraredCommonDecoder} {event : InfraredEvent}
    (hresting : Resting infraredProtocolPioneer (fun _ _ => True) decoder)
    (h : PioneerChecked decoder event) : EndUnderstood infraredProtocolPioneer decoder event := by
  cases event with
  | checkReady => trivial
  | reset => trivial
  | decode level duration =>
    intro hlevel hdecode timing htiming hlong hne
    obtain ⟨hnil, -⟩ := hresting.decode hdecode
    obtain ⟨-, hlow, hlt, hmem⟩ := hlong
    have hone : (decoder.push level duration).timings = [duration] := by simp [push, hnil]
    have hpushed : (decoder.push level duration).level = level := rfl
    rw [hone, List.mem_singleton] at htiming
    rw [timingLevel, hone, hpushed] at hlow
    have hfalse : level = false := by
      cases level
      · rfl
      · exact absurd hlow (by simp)
    have hcnt : decoder.databitCnt = 32 := by
      rcases List.mem_cons.1 hmem with h | h
      · exact absurd h hne
      · exact List.mem_singleton.1 h
    rw [hfalse] at h hlevel
    have htrue : decoder.level = true := by
      cases hdecoder : decoder.level
      · exact absurd hdecoder hlevel
      · rfl
    obtain ⟨haddress, hcommand⟩ := h htrue hdecode hcnt (htiming ▸ hlt)
    obtain ⟨h0, h1, h2, h3⟩ := word_byte (decoder.push level duration) 0
    have haddress' : ¬(decoder.push level duration).byte (0 + 1) ≠
        ~~~(decoder.push level duration).byte 0 := not_not.2 haddress
    have hcommand' : ¬(decoder.push level duration).byte (0 + 3) ≠
        ~~~(decoder.push level duration).byte (0 + 2) := not_not.2 hcommand
    show (infraredDecoderPioneerInterpret (decoder.push level duration)).1 = true
    rw [infraredDecoderPioneerInterpret, if_pos (.inr hcnt)]
    dsimp only
    rw [h0, h1, h2, h3, if_neg haddress', if_neg hcommand']

theorem infraredDecoder_runs_all (hp : protocol.Lawful Room)
    (hinterpret : ∀ decoder : InfraredCommonDecoder, decoder.databitCnt ∈ protocol.databitLen →
      decoder.databitCnt ≠ protocol.maxLen → (protocol.interpret decoder).1 = true)
    (events : List InfraredEvent) :
    ∃ decoder, exec (infraredStep protocol) (infraredCommonDecoderAlloc protocol) events =
      .ok decoder ∧ Resting protocol Room decoder := by
  have hall : ∀ (events : List InfraredEvent) (decoder : InfraredCommonDecoder),
      ExecAlong (EndUnderstood protocol) (infraredStep protocol) decoder events := by
    intro events
    induction events with
    | nil => exact fun _ => trivial
    | cons event events ih =>
      refine fun decoder => ⟨?_, fun next _ => ih next⟩
      cases event with
      | decode level duration => exact fun _ _ timing _ hlong hne => hinterpret _ hlong.2.2.2 hne
      | checkReady => trivial
      | reset => trivial
  exact infraredDecoder_runs hp (fun _ h => h) (hall events _)

theorem infrared_decoder_safe (kind : InfraredDecoderKind) (events : List InfraredEvent)
    (h : kind = .pioneer → ExecAlong PioneerChecked (infraredStep (infraredDecoder kind))
      (infraredCommonDecoderAlloc (infraredDecoder kind)) events) :
    ∃ decoder, exec (infraredStep (infraredDecoder kind))
        (infraredCommonDecoderAlloc (infraredDecoder kind)) events = .ok decoder ∧
      decoder.timings.length < INFRARED_TIMINGS ∧
      decoder.databitCnt ≤ (infraredDecoder kind).maxLen := by
  obtain ⟨Room, decoder, hexec, hresting⟩ : ∃ (Room : InfraredRoom) (decoder : _),
      exec (infraredStep (infraredDecoder kind))
        (infraredCommonDecoderAlloc (infraredDecoder kind)) events = .ok decoder ∧
      Resting (infraredDecoder kind) Room decoder := by
    cases kind with
    | nec =>
      refine ⟨_, infraredDecoder_runs_all lawful_nec (fun decoder hmem hne => ?_) events⟩
      rcases List.mem_cons.1 hmem with h | h
      · exact absurd h hne
      · show (infraredDecoderNecInterpret decoder).1 = true
        rw [infraredDecoderNecInterpret, if_pos (List.mem_singleton.1 h)]
        dsimp only
        split_ifs <;> rfl
    | samsung32 =>
      exact ⟨_, infraredDecoder_runs_all lawful_samsung32
        (fun _ hmem hne => absurd (List.mem_singleton.1 hmem) hne) events⟩
    | rc5 =>
      exact ⟨_, infraredDecoder_runs_all lawful_rc5
        (fun _ hmem hne => absurd (List.mem_singleton.1 hmem) hne) events⟩
    | rc6 =>
      exact ⟨_, infraredDecoder_runs_all lawful_rc6
        (fun _ hmem hne => absurd (List.mem_singleton.1 hmem) hne) events⟩
    | sirc =>
      exact ⟨_, infraredDecoder_runs_all lawful_sirc
        (fun _ hmem _ => infraredDecoderSircInterpret_true hmem) events⟩
    | pioneer =>
      exact ⟨_, infraredDecoder_runs lawful_pioneer (fun hresting => pioneer_endUnderstood hresting)
        (h rfl)⟩
    | kaseikyo =>
      exact ⟨_, infraredDecoder_runs_all lawful_kaseikyo
        (fun _ hmem hne => absurd (List.mem_singleton.1 hmem) hne) events⟩
    | rca =>
      exact ⟨_, infraredDecoder_runs_all lawful_rca
        (fun _ hmem hne => absurd (List.mem_singleton.1 hmem) hne) events⟩
  exact ⟨decoder, hexec, Nat.lt_succ_of_le hresting.length, hresting.fits.databitCnt⟩

/-- A preamble of Pioneer, thirty-two bits that are zero, the mark that ends them, and then edges of
one microsecond behind a low level of this duration. -/
def pioneerZeros (duration edges : ℕ) : List InfraredEvent :=
  [.decode true 8500, .decode false 4225] ++
    (List.replicate 32 [.decode true 500, .decode false 500]).flatten ++
    [.decode true 500, .decode false duration] ++
    (List.range edges).map fun i => .decode (i % 2 == 0) 1

/-- How long the level of an event lasts. -/
def InfraredEvent.duration : InfraredEvent → ℕ
  | .decode _ duration => duration
  | _ => 0

theorem pioneerChecked_of_short : ∀ {events : List InfraredEvent},
    (∀ event ∈ events, event.duration ≤ infraredPioneer.timings.minSplitTime) →
    ∀ decoder, ExecAlong PioneerChecked (infraredStep (infraredDecoder .pioneer)) decoder events
  | [], _, _ => trivial
  | event :: events, h, decoder => by
    refine ⟨?_, fun next _ =>
      pioneerChecked_of_short (fun event hevent => h event (List.mem_cons_of_mem _ hevent)) next⟩
    have hle := h event List.mem_cons_self
    rcases event with ⟨_ | _, duration⟩ | _ | _
    · exact fun _ _ _ hlt => absurd hlt (Nat.not_lt.2 hle)
    all_goals trivial

theorem infrared_decoder_safe_zeros : ∃ decoder,
    exec (infraredStep (infraredDecoder .pioneer))
        (infraredCommonDecoderAlloc (infraredDecoder .pioneer)) (pioneerZeros 26000 6) =
      .ok decoder ∧
    decoder.timings.length < INFRARED_TIMINGS ∧
    decoder.databitCnt ≤ (infraredDecoder .pioneer).maxLen := by
  refine infrared_decoder_safe .pioneer (pioneerZeros 26000 6) fun _ => ?_
  exact pioneerChecked_of_short (by decide +kernel) _

/-- Thirty-two zeros fail the check, and the sixth edge behind them is written behind the array. -/
theorem not_infrared_decoder_safe :
    ¬∀ (kind : InfraredDecoderKind) (events : List InfraredEvent), ∃ decoder,
      exec (infraredStep (infraredDecoder kind))
          (infraredCommonDecoderAlloc (infraredDecoder kind)) events = .ok decoder := by
  intro h
  obtain ⟨decoder, hexec⟩ := h .pioneer (pioneerZeros 26001 6)
  have hnone : (exec (infraredStep (infraredDecoder .pioneer))
      (infraredCommonDecoderAlloc (infraredDecoder .pioneer)) (pioneerZeros 26001 6)).toOption =
        none := by decide +kernel
  rw [hexec] at hnone
  cases hnone

end KiisuFirmware
