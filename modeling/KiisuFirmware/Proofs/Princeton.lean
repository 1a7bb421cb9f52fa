import KiisuFirmware.Princeton
import KiisuFirmware.Proofs.SubGhzBlocks

/-!
# Sending what a Princeton remote has sent

The decoder waits for a gap, reads a frame to compare the next one with it, and reports the second
one. What is sent of a key is made of one duration, the average over all levels of a frame. The
last level that is high counts as well and may be of any duration, so the average may be one that
no bits are read with; and a gap of the shortest ones may be too short to be waited for.
-/

namespace KiisuFirmware

theorem durationDiff_lt_iff {x y d : ℕ} : durationDiff x y < d ↔ x < y + d ∧ y < x + d := by
  rw [durationDiff]
  split_ifs <;> omega

namespace SubGhzProtocolDecoderPrinceton

variable {p : SubGhzProtocolDecoderPrinceton}

/-! ## Frames -/

/-- A level that is high, and one that is low after it. -/
def pairPulses (pair : ℕ × ℕ) : List LevelDuration := [⟨true, pair.1⟩, ⟨false, pair.2⟩]

def bitPair (te : ℕ) (bit : Bool) : ℕ × ℕ := if bit then (3 * te, te) else (te, 3 * te)

/-- The pairs of a frame: one for each bit, and the last one with the gap. -/
def pairs (te gap : ℕ) (bits : List Bool) : List (ℕ × ℕ) := bits.map (bitPair te) ++ [(te, gap)]

def frame (te gap : ℕ) (bits : List Bool) : List LevelDuration :=
  (pairs te gap bits).flatMap pairPulses

theorem frame_eq (te gap : ℕ) (bits : List Bool) : frame te gap bits =
    bits.flatMap (fun bit => pairPulses (bitPair te bit)) ++ [⟨true, te⟩, ⟨false, gap⟩] := by
  rw [frame, pairs, List.flatMap_append, List.flatMap_map]
  rfl

/-- A duration that bits are read with. -/
def TeFits (te : ℕ) : Prop := Near te PRINCETON_TE_SHORT 1

instance (te : ℕ) : Decidable (TeFits te) :=
  inferInstanceAs (Decidable (Near _ _ _))

/-- A gap that is waited for. -/
def GapFits (gap : ℕ) : Prop := Near gap (PRINCETON_TE_SHORT * 36) 36

instance (gap : ℕ) : Decidable (GapFits gap) :=
  inferInstanceAs (Decidable (Near _ _ _))

theorem teFits_iff {te : ℕ} : TeFits te ↔ 90 < te ∧ te < 690 := by
  rw [TeFits, Near, durationDiff_lt_iff]
  show te < 390 + 300 * 1 ∧ 390 < te + 300 * 1 ↔ _
  omega

theorem gapFits_iff {gap : ℕ} : GapFits gap ↔ 3240 < gap ∧ gap < 24840 := by
  rw [GapFits, Near, durationDiff_lt_iff]
  show gap < 390 * 36 + 300 * 36 ∧ 390 * 36 < gap + 300 * 36 ↔ _
  omega

/-! ## With a duration that fits -/

/-- The decoder between two bits, with this data and this count. -/
structure Between (p : SubGhzProtocolDecoderPrinceton) (data : BitVec 64) (count : BitVec 8)
    (lastData : BitVec 32) : Prop where
  parserStep : p.decoder.parserStep = .saveDuration
  decodeData : p.decoder.decodeData = data
  decodeCountBit : p.decoder.decodeCountBit = count
  lastData : p.lastData = lastData

/-- The decoder after a level that is high. -/
def heard (p : SubGhzProtocolDecoderPrinceton) (duration : ℕ) : SubGhzProtocolDecoderPrinceton :=
  { p with
    te := p.te + BitVec.ofNat 32 duration
    decoder := { p.decoder with teLast := duration, parserStep := .checkDuration } }

theorem feed_high (hstep : p.decoder.parserStep = .saveDuration) (duration : ℕ) :
    p.feed ⟨true, duration⟩ = (false, p.heard duration) := by
  rw [feed, hstep]
  rfl

theorem feed_short (hstep : p.decoder.parserStep = .checkDuration) {duration : ℕ}
    (hshort : duration < 2340) : p.feed ⟨false, duration⟩ =
      if Near p.decoder.teLast PRINCETON_TE_SHORT 1 ∧ Near duration PRINCETON_TE_LONG 3 then
        (false, ({ p with te := p.te + BitVec.ofNat 32 duration }.addBit false).setStep
          .saveDuration)
      else if Near p.decoder.teLast PRINCETON_TE_LONG 3 ∧ Near duration PRINCETON_TE_SHORT 1 then
        (false, ({ p with te := p.te + BitVec.ofNat 32 duration }.addBit true).setStep
          .saveDuration)
      else (false, { p with te := p.te + BitVec.ofNat 32 duration }.setStep .reset) := by
  rw [feed, hstep]
  exact (if_pos rfl).trans (if_neg (Nat.not_le.2 hshort))

theorem feed_long (hstep : p.decoder.parserStep = .checkDuration) {duration : ℕ}
    (hlong : 2340 ≤ duration) : p.feed ⟨false, duration⟩ =
      (((p.setStep .saveDuration).found duration).isSome,
        (((p.setStep .saveDuration).found duration).getD (p.setStep .saveDuration)).nextFrame) := by
  rw [feed, hstep]
  exact (if_pos rfl).trans (if_pos hlong)

theorem feed_low (p : SubGhzProtocolDecoderPrinceton) {te : ℕ} (hte : TeFits te) (bit : Bool) :
    (p.heard (bitPair te bit).1).feed ⟨false, (bitPair te bit).2⟩ =
      (false, ({ p.heard (bitPair te bit).1 with
        te := (p.heard (bitPair te bit).1).te +
          BitVec.ofNat 32 (bitPair te bit).2 }.addBit bit).setStep .saveDuration) := by
  rw [teFits_iff] at hte
  obtain ⟨hlow, hhigh⟩ := hte
  cases bit with
  | false =>
    have hfirst : Near te PRINCETON_TE_SHORT 1 ∧ Near (3 * te) PRINCETON_TE_LONG 3 := by
      rw [Near, Near, durationDiff_lt_iff, durationDiff_lt_iff]
      show (te < 390 + 300 * 1 ∧ 390 < te + 300 * 1) ∧
        3 * te < 1170 + 300 * 3 ∧ 1170 < 3 * te + 300 * 3
      omega
    have hshort : 3 * te < 2340 := by omega
    exact (feed_short (p := p.heard te) rfl hshort).trans (if_pos hfirst)
  | true =>
    have hfirst : ¬(Near (3 * te) PRINCETON_TE_SHORT 1 ∧ Near te PRINCETON_TE_LONG 3) := by
      rw [Near, Near, durationDiff_lt_iff, durationDiff_lt_iff]
      show ¬((3 * te < 390 + 300 * 1 ∧ 390 < 3 * te + 300 * 1) ∧
        te < 1170 + 300 * 3 ∧ 1170 < te + 300 * 3)
      omega
    have hsecond : Near (3 * te) PRINCETON_TE_LONG 3 ∧ Near te PRINCETON_TE_SHORT 1 := by
      rw [Near, Near, durationDiff_lt_iff, durationDiff_lt_iff]
      show (3 * te < 1170 + 300 * 3 ∧ 1170 < 3 * te + 300 * 3) ∧
        te < 390 + 300 * 1 ∧ 390 < te + 300 * 1
      omega
    have hshort : te < 2340 := by omega
    exact (feed_short (p := p.heard (3 * te)) rfl hshort).trans
      ((if_neg hfirst).trans (if_pos hsecond))

theorem Between.readings_bit {te : ℕ} (hte : TeFits te) {read : BitVec 64 × BitVec 8}
    {lastData : BitVec 32} (h : Between p read.1 read.2 lastData) (bit : Bool) :
    ∃ q, Between q (pushBit read bit).1 (pushBit read bit).2 lastData ∧ ∀ rest,
      subghzProtocolPrinceton.readings p (pairPulses (bitPair te bit) ++ rest) =
        subghzProtocolPrinceton.readings q rest := by
  obtain ⟨hstep, hdata, hcount, hlast⟩ := h
  obtain ⟨next, hnext⟩ : ∃ next, next = ({ p.heard (bitPair te bit).1 with
      te := (p.heard (bitPair te bit).1).te +
        BitVec.ofNat 32 (bitPair te bit).2 }.addBit bit).setStep .saveDuration := ⟨_, rfl⟩
  have hlow := feed_low p hte bit
  rw [← hnext] at hlow
  refine ⟨next, ?_, fun rest => ?_⟩
  · rw [hnext]
    refine ⟨rfl, ?_, ?_, hlast⟩
    · rw [pushBit, ← hdata]
      rfl
    · rw [pushBit, ← hcount]
      rfl
  · rw [pairPulses, List.cons_append, SubGhzProtocol.readings_of_false (feed_high hstep _),
      List.cons_append, SubGhzProtocol.readings_of_false hlow]
    rfl

theorem nextFrame_decoder (p : SubGhzProtocolDecoderPrinceton) : p.nextFrame.decoder =
    { p.decoder with decodeData := 0, decodeCountBit := 0 } := by
  rw [nextFrame]
  split_ifs <;> rfl

theorem nextFrame_lastData
    (h : p.decoder.decodeCountBit.toNat = PRINCETON_MIN_COUNT_BIT_FOR_FOUND) :
    p.nextFrame.lastData = p.decoder.decodeData.setWidth 32 := by
  rw [nextFrame, if_pos h]

/-- The gap ends the frame, which is reported if it is the same as the one before. -/
theorem readings_gap {te gap : ℕ} (hgap : GapFits gap) {data : BitVec 64} {lastData : BitVec 32}
    (h : Between p data 24 lastData) (rest : List LevelDuration) :
    ∃ q, Between q 0 0 (data.setWidth 32) ∧
      subghzProtocolPrinceton.readings p (⟨true, te⟩ :: ⟨false, gap⟩ :: rest) =
        (if lastData.setWidth 64 = data ∧ lastData ≠ 0 then [(data, 24)] else []) ++
          subghzProtocolPrinceton.readings q rest := by
  rw [gapFits_iff] at hgap
  set stopped := (p.heard te).setStep .saveDuration with hstopped
  have hcount : stopped.decoder.decodeCountBit.toNat = PRINCETON_MIN_COUNT_BIT_FOR_FOUND := by
    show p.decoder.decodeCountBit.toNat = 24
    rw [h.decodeCountBit]
    rfl
  have hdata : stopped.decoder.decodeData = data := h.decodeData
  have hlast : stopped.lastData = lastData := h.lastData
  have hfeed : (p.heard te).feed ⟨false, gap⟩ =
      ((stopped.found gap).isSome, ((stopped.found gap).getD stopped).nextFrame) :=
    feed_long (p := p.heard te) rfl (by omega)
  have hbetween : ∀ r : SubGhzProtocolDecoderPrinceton, r.decoder = stopped.decoder →
      Between r.nextFrame 0 0 (data.setWidth 32) := by
    intro r hr
    refine ⟨?_, ?_, ?_, ?_⟩
    · rw [nextFrame_decoder, hr]
      rfl
    · rw [nextFrame_decoder]
    · rw [nextFrame_decoder]
    · rw [nextFrame_lastData (by rw [hr]; exact hcount), hr, hdata]
  rw [SubGhzProtocol.readings_of_false (feed_high h.parserStep te)]
  by_cases hsame : lastData.setWidth 64 = data ∧ lastData ≠ 0
  · have hfound : ∃ found, stopped.found gap = some found ∧ found.decoder = stopped.decoder ∧
        found.generic.data = data ∧ found.generic.dataCountBit = 24 := by
      refine ⟨_, if_pos ⟨hcount, ?_⟩, rfl, hdata, hcount⟩
      rw [hdata, hlast]
      exact hsame
    obtain ⟨found, hfound, hdecoder, hfoundData, hfoundCount⟩ := hfound
    rw [hfound, Option.isSome_some, Option.getD_some] at hfeed
    have hread := @SubGhzProtocol.readings_of_true _ _ subghzProtocolPrinceton (p.heard te)
      found.nextFrame ⟨false, gap⟩ hfeed rest
    have hgeneric : (subghzProtocolPrinceton.generic found.nextFrame) = found.generic := by
      show found.nextFrame.generic = found.generic
      rw [nextFrame]
      split_ifs <;> rfl
    refine ⟨found.nextFrame, hbetween found hdecoder, ?_⟩
    · rw [if_pos hsame, hread]
      show ((subghzProtocolPrinceton.generic found.nextFrame).data,
        (subghzProtocolPrinceton.generic found.nextFrame).dataCountBit) :: _ = _
      rw [hgeneric, hfoundData, hfoundCount]
      rfl
  · have hfound : stopped.found gap = none := by
      refine if_neg fun hcond => hsame ?_
      have hrest := hcond.2
      rwa [hdata, hlast] at hrest
    rw [hfound, Option.isSome_none, Option.getD_none] at hfeed
    refine ⟨stopped.nextFrame, hbetween stopped rfl, ?_⟩
    · rw [if_neg hsame, SubGhzProtocol.readings_of_false hfeed]
      rfl

theorem readings_frame {te gap : ℕ} (hte : TeFits te) (hgap : GapFits gap) {lastData : BitVec 32}
    (h : Between p 0 0 lastData) {bits : List Bool} (hbits : bits.length = 24)
    (rest : List LevelDuration) :
    ∃ q, Between q 0 0 ((pushBits 0 bits).setWidth 32) ∧
      subghzProtocolPrinceton.readings p (frame te gap bits ++ rest) =
        (if lastData.setWidth 64 = pushBits 0 bits ∧ lastData ≠ 0 then [(pushBits 0 bits, 24)]
          else []) ++ subghzProtocolPrinceton.readings q rest := by
  have hbit : ∀ bit ∈ bits, ∀ {p : SubGhzProtocolDecoderPrinceton} {read : BitVec 64 × BitVec 8},
      Between p read.1 read.2 lastData → ∃ q, Between q (pushBit read bit).1 (pushBit read bit).2
        lastData ∧ ∀ rest, subghzProtocolPrinceton.readings p (pairPulses (bitPair te bit) ++ rest) =
          subghzProtocolPrinceton.readings q rest :=
    fun bit _ => fun h => h.readings_bit hte bit
  obtain ⟨middle, hmiddle, hread⟩ := @SubGhzProtocol.readings_flatMap _ _ _ _ _
    (fun p read => Between p read.1 read.2 lastData) _ _ (⟨true, te⟩ :: ⟨false, gap⟩ :: rest) _
    hbit p (0, 0) h
  have hcount : (0 : BitVec 8) + BitVec.ofNat 8 24 = 24 := by decide
  rw [foldl_pushBit, hbits, hcount] at hmiddle
  obtain ⟨q, hq, hend⟩ := @readings_gap middle te gap hgap _ _ hmiddle rest
  refine ⟨q, hq, ?_⟩
  rw [frame_eq, List.append_assoc]
  exact hread.trans hend

theorem readings_repeated {te gap : ℕ} (hte : TeFits te) (hgap : GapFits gap) {bits : List Bool}
    (hbits : bits.length = 24)
    (hsame : ((pushBits 0 bits).setWidth 32).setWidth 64 = pushBits 0 bits) :
    ∀ (repeats : ℕ) {p : SubGhzProtocolDecoderPrinceton},
      Between p 0 0 ((pushBits 0 bits).setWidth 32) →
      subghzProtocolPrinceton.readings p (List.replicate repeats (frame te gap bits)).flatten =
        if pushBits 0 bits = 0 then [] else List.replicate repeats (pushBits 0 bits, 24)
  | 0, p, _ => by
    rw [List.replicate_zero, List.replicate_zero, ite_self]
    rfl
  | repeats + 1, p, h => by
    obtain ⟨q, hq, hread⟩ := readings_frame hte hgap h hbits
      (List.replicate repeats (frame te gap bits)).flatten
    have hzero : (pushBits 0 bits).setWidth 32 = 0 ↔ pushBits 0 bits = 0 := by
      refine ⟨fun h => ?_, fun h => by rw [h]; rfl⟩
      rw [← hsame, h]
      rfl
    rw [List.replicate_succ, List.flatten_cons, hread,
      readings_repeated hte hgap hbits hsame repeats hq]
    by_cases hnull : pushBits 0 bits = 0
    · rw [if_neg fun h => h.2 (hzero.2 hnull), if_pos hnull, if_pos hnull]
      rfl
    · rw [if_pos ⟨hsame, fun h => hnull (hzero.1 h)⟩, if_neg hnull, if_neg hnull]
      rfl

/-! ## After a reset -/

theorem feed_reset (p : SubGhzProtocolDecoderPrinceton) (pulse : LevelDuration)
    (h : pulse.level = true ∨ ¬GapFits pulse.duration) : p.reset.feed pulse = (false, p.reset) := by
  refine if_neg fun hpreamble => ?_
  rcases h with h | h
  · rw [h] at hpreamble
    cases hpreamble.1
  · exact h hpreamble.2

theorem readings_waiting (p : SubGhzProtocolDecoderPrinceton) {pulses : List LevelDuration}
    (h : ∀ pulse ∈ pulses, pulse.level = true ∨ ¬GapFits pulse.duration)
    (rest : List LevelDuration) : subghzProtocolPrinceton.readings p.reset (pulses ++ rest) =
      subghzProtocolPrinceton.readings p.reset rest :=
  SubGhzProtocol.readings_ignored (fun pulse hpulse => feed_reset p pulse (h pulse hpulse)) rest

theorem bits_waiting {te : ℕ} (hte : TeFits te) (bits : List Bool) :
    ∀ pulse ∈ bits.flatMap fun bit => pairPulses (bitPair te bit),
      pulse.level = true ∨ ¬GapFits pulse.duration := by
  intro pulse hpulse
  obtain ⟨bit, -, hpair⟩ := List.mem_flatMap.1 hpulse
  rw [teFits_iff] at hte
  rcases List.mem_cons.1 hpair with rfl | hpair
  · exact .inl rfl
  · rw [List.mem_singleton.1 hpair, gapFits_iff]
    right
    cases bit
    · show ¬(3240 < 3 * te ∧ _)
      omega
    · show ¬(3240 < te ∧ _)
      omega

theorem readings_first {te gap : ℕ} (hte : TeFits te) (hgap : GapFits gap)
    (p : SubGhzProtocolDecoderPrinceton) (bits : List Bool) (rest : List LevelDuration) :
    ∃ q, Between q 0 0 0 ∧ subghzProtocolPrinceton.readings p.reset (frame te gap bits ++ rest) =
      subghzProtocolPrinceton.readings q rest := by
  obtain ⟨q, hq⟩ : ∃ q : SubGhzProtocolDecoderPrinceton, q = { p.reset with
      te := 0
      guardTime := PRINCETON_GUARD_TIME_DEFALUT
      decoder := { p.reset.decoder with
        parserStep := .saveDuration
        decodeData := 0
        decodeCountBit := 0 } } := ⟨_, rfl⟩
  have hfeed : p.reset.feed ⟨false, gap⟩ = (false, q) := by
    rw [hq]
    exact if_pos ⟨rfl, hgap⟩
  have hstop : p.reset.feed ⟨true, te⟩ = (false, p.reset) := feed_reset p _ (.inl rfl)
  refine ⟨q, by rw [hq]; exact ⟨rfl, rfl, rfl, rfl⟩, ?_⟩
  rw [frame_eq, List.append_assoc, readings_waiting p (bits_waiting hte bits), List.cons_append,
    SubGhzProtocol.readings_of_false hstop, List.cons_append,
    SubGhzProtocol.readings_of_false hfeed]
  rfl

theorem readings_reset {te gap : ℕ} (hte : TeFits te) (hgap : GapFits gap) {bits : List Bool}
    (hbits : bits.length = 24)
    (hsame : ((pushBits 0 bits).setWidth 32).setWidth 64 = pushBits 0 bits)
    (p : SubGhzProtocolDecoderPrinceton) : ∀ repeats : ℕ,
    subghzProtocolPrinceton.readings p.reset (List.replicate repeats (frame te gap bits)).flatten =
      if pushBits 0 bits = 0 then [] else List.replicate (repeats - 2) (pushBits 0 bits, 24)
  | 0 => by
    rw [List.replicate_zero, Nat.zero_sub, List.replicate_zero, ite_self]
    rfl
  | 1 => by
    obtain ⟨q, -, hread⟩ := readings_first hte hgap p bits []
    rw [List.append_nil] at hread
    rw [List.replicate_one, List.flatten_singleton, hread, show 1 - 2 = 0 from rfl,
      List.replicate_zero, ite_self]
    rfl
  | repeats + 2 => by
    obtain ⟨q, hq, hfirst⟩ := readings_first hte hgap p bits
      (frame te gap bits ++ (List.replicate repeats (frame te gap bits)).flatten)
    obtain ⟨r, hr, hsecond⟩ := readings_frame hte hgap hq hbits
      (List.replicate repeats (frame te gap bits)).flatten
    rw [List.replicate_succ, List.flatten_cons, List.replicate_succ, List.flatten_cons, hfirst,
      hsecond, if_neg fun h => h.2 rfl, List.nil_append, Nat.add_sub_cancel]
    exact readings_repeated hte hgap hbits hsame repeats hr

/-! ## With a duration that does not fit -/

/-- No bit is read with this pair. -/
def NoBit (pair : ℕ × ℕ) : Prop :=
  ¬(Near pair.1 PRINCETON_TE_SHORT 1 ∧ Near pair.2 PRINCETON_TE_LONG 3) ∧
    ¬(Near pair.1 PRINCETON_TE_LONG 3 ∧ Near pair.2 PRINCETON_TE_SHORT 1)

/-- The decoder has read no bits since the last gap, if it has found one. -/
def Idle (p : SubGhzProtocolDecoderPrinceton) : Prop :=
  p.decoder.parserStep = .reset ∨
    p.decoder.parserStep = .saveDuration ∧ p.decoder.decodeCountBit = 0

theorem Idle.readings_pair (h : Idle p) {pair : ℕ × ℕ} (hpair : NoBit pair)
    (rest : List LevelDuration) : ∃ q, Idle q ∧
      subghzProtocolPrinceton.readings p (pairPulses pair ++ rest) =
        subghzProtocolPrinceton.readings q rest := by
  obtain ⟨high, low⟩ := pair
  rw [pairPulses, List.cons_append, List.cons_append, List.nil_append]
  rcases h with hstep | ⟨hstep, hcount⟩
  · have hhigh : p.feed ⟨true, high⟩ = (false, p) := by
      rw [feed, hstep]
      rfl
    have hlow : ∃ q, p.feed ⟨false, low⟩ = (false, q) ∧ Idle q := by
      rw [feed, hstep]
      dsimp only
      split_ifs
      · exact ⟨_, rfl, .inr ⟨rfl, rfl⟩⟩
      · exact ⟨_, rfl, .inl hstep⟩
    obtain ⟨q, hlow, hidle⟩ := hlow
    refine ⟨q, hidle, ?_⟩
    rw [SubGhzProtocol.readings_of_false hhigh, SubGhzProtocol.readings_of_false hlow]
  · have hlow : ∃ q, (p.heard high).feed ⟨false, low⟩ = (false, q) ∧ Idle q := by
      by_cases hlong : 2340 ≤ low
      · have hnone : ((p.heard high).setStep .saveDuration).found low = none := by
          refine if_neg fun hcond => ?_
          have hzero : p.decoder.decodeCountBit.toNat = 24 := hcond.1
          rw [hcount] at hzero
          cases hzero
        have hfeed := feed_long (p := p.heard high) rfl hlong
        rw [hnone, Option.isSome_none, Option.getD_none] at hfeed
        refine ⟨_, hfeed, .inr ?_⟩
        rw [nextFrame_decoder]
        exact ⟨rfl, rfl⟩
      · obtain ⟨hfirst, hsecond⟩ := hpair
        have hfeed := feed_short (p := p.heard high) rfl (Nat.not_le.1 hlong)
        exact ⟨_, hfeed.trans ((if_neg hfirst).trans (if_neg hsecond)), .inl rfl⟩
    obtain ⟨q, hlow, hidle⟩ := hlow
    refine ⟨q, hidle, ?_⟩
    rw [SubGhzProtocol.readings_of_false (feed_high hstep high),
      SubGhzProtocol.readings_of_false hlow]

theorem Idle.readings_pairs : ∀ (pairs : List (ℕ × ℕ)) {p : SubGhzProtocolDecoderPrinceton},
    Idle p → (∀ pair ∈ pairs, NoBit pair) →
      subghzProtocolPrinceton.readings p (pairs.flatMap pairPulses) = []
  | [], p, _, _ => rfl
  | pair :: pairs, p, h, hpairs => by
    obtain ⟨q, hq, hread⟩ := h.readings_pair (hpairs pair List.mem_cons_self)
      (pairs.flatMap pairPulses)
    rw [List.flatMap_cons, hread]
    exact Idle.readings_pairs pairs hq fun pair hpair => hpairs pair (List.mem_cons_of_mem _ hpair)

theorem noBit_of_not_teFits {te gap : ℕ} (hte : ¬TeFits te)
    (hgap : te < 2070 → 15 * te ≤ gap) (bits : List Bool) :
    ∀ pair ∈ pairs te gap bits, NoBit pair := by
  rw [teFits_iff] at hte
  intro pair hpair
  have hnoBit : ∀ high low : ℕ, ¬((high < 690 ∧ 90 < high) ∧ low < 2070 ∧ 270 < low) →
      ¬((high < 2070 ∧ 270 < high) ∧ low < 690 ∧ 90 < low) → NoBit (high, low) := by
    intro high low hfirst hsecond
    rw [NoBit, Near, Near, Near, Near, durationDiff_lt_iff, durationDiff_lt_iff,
      durationDiff_lt_iff, durationDiff_lt_iff]
    constructor
    · show ¬((high < 390 + 300 * 1 ∧ 390 < high + 300 * 1) ∧
        low < 1170 + 300 * 3 ∧ 1170 < low + 300 * 3)
      omega
    · show ¬((high < 1170 + 300 * 3 ∧ 1170 < high + 300 * 3) ∧
        low < 390 + 300 * 1 ∧ 390 < low + 300 * 1)
      omega
  rcases List.mem_append.1 hpair with hpair | hpair
  · obtain ⟨bit, -, rfl⟩ := List.mem_map.1 hpair
    cases bit
    · exact hnoBit te (3 * te) (by omega) (by omega)
    · exact hnoBit (3 * te) te (by omega) (by omega)
  · rw [List.mem_singleton.1 hpair]
    exact hnoBit te gap (by omega) (by omega)

theorem readings_unfit {te gap : ℕ} (hunfit : ¬(TeFits te ∧ GapFits gap))
    (hgap : te < 2070 → 15 * te ≤ gap) (bits : List Bool) (p : SubGhzProtocolDecoderPrinceton)
    (repeats : ℕ) : subghzProtocolPrinceton.readings p.reset
      (List.replicate repeats (frame te gap bits)).flatten = [] := by
  by_cases hte : TeFits te
  · have hwait : ∀ pulse ∈ (List.replicate repeats (frame te gap bits)).flatten,
        pulse.level = true ∨ ¬GapFits pulse.duration := by
      intro pulse hpulse
      obtain ⟨sent, hsent, hpulse⟩ := List.mem_flatten.1 hpulse
      rw [List.eq_of_mem_replicate hsent, frame_eq] at hpulse
      rcases List.mem_append.1 hpulse with hpulse | hpulse
      · exact bits_waiting hte bits pulse hpulse
      · rcases List.mem_cons.1 hpulse with rfl | hpulse
        · exact .inl rfl
        · rw [List.mem_singleton.1 hpulse]
          exact .inr fun hfits => hunfit ⟨hte, hfits⟩
    have hread := readings_waiting p hwait []
    rw [List.append_nil] at hread
    exact hread
  · have hframes : (List.replicate repeats (frame te gap bits)).flatten =
        ((List.replicate repeats (pairs te gap bits)).flatten).flatMap pairPulses := by
      induction repeats with
      | zero => rfl
      | succ repeats ih =>
        rw [List.replicate_succ, List.flatten_cons, List.replicate_succ, List.flatten_cons, ih,
          List.flatMap_append, frame]
    rw [hframes]
    refine Idle.readings_pairs _ (.inl rfl) fun pair hpair => ?_
    obtain ⟨sent, hsent, hpair⟩ := List.mem_flatten.1 hpair
    rw [List.eq_of_mem_replicate hsent] at hpair
    exact noBit_of_not_teFits hte hgap bits pair hpair

/-! ## What is loaded -/

theorem te_lt (te : BitVec 32) : (te / 97).toNat * 97 < 2 ^ 32 := by
  rw [BitVec.toNat_udiv]
  exact (Nat.div_mul_le_self te.toNat 97).trans_lt te.isLt

theorem princetonGuardTime_bounds (guardTime : BitVec 32) :
    15 ≤ (princetonGuardTime guardTime).toNat ∧ (princetonGuardTime guardTime).toNat ≤ 72 := by
  rw [princetonGuardTime]
  split_ifs with h
  · decide
  · omega

theorem princetonGuardTime_twice (guardTime : BitVec 32) :
    princetonGuardTime (princetonGuardTime guardTime) = princetonGuardTime guardTime := by
  have hbounds := princetonGuardTime_bounds guardTime
  rw [princetonGuardTime, if_neg (by omega)]

theorem flatMap_bitUpload {inst : SubGhzProtocolEncoderPrinceton}
    (hte : inst.te.toNat * 97 < 2 ^ 32) (bits : List Bool) : bits.flatMap inst.bitUpload =
      bits.flatMap fun bit => pairPulses (bitPair inst.te.toNat bit) := by
  have hlong : (inst.te * 3).toNat = 3 * inst.te.toNat := by
    rw [BitVec.toNat_mul, Nat.mul_comm]
    exact Nat.mod_eq_of_lt (by show 3 * inst.te.toNat < 2 ^ 32; omega)
  have hmake : ∀ (level : Bool) (duration : ℕ), duration < 2 ^ 30 →
      levelDurationMake level duration = ⟨level, duration⟩ := by
    intro level duration h
    rw [levelDurationMake, Nat.mod_eq_of_lt h]
  have hshort := hmake false inst.te.toNat (by omega)
  have hshort' := hmake true inst.te.toNat (by omega)
  have hlong' := hmake false (3 * inst.te.toNat) (by omega)
  have hlong'' := hmake true (3 * inst.te.toNat) (by omega)
  refine List.flatMap_congr fun bit _ => ?_
  cases bit
  · rw [SubGhzProtocolEncoderPrinceton.bitUpload, hlong, hshort', hlong']
    rfl
  · rw [SubGhzProtocolEncoderPrinceton.bitUpload, hlong, hshort, hlong'']
    rfl

theorem length_frame (te gap : ℕ) (bits : List Bool) :
    (frame te gap bits).length = 2 * (bits.length + 1) := by
  have hpairs : ∀ pairs : List (ℕ × ℕ), (pairs.flatMap pairPulses).length = 2 * pairs.length := by
    intro pairs
    induction pairs with
    | nil => rfl
    | cons pair pairs ih =>
      rw [List.flatMap_cons, List.length_append, ih, List.length_cons, pairPulses]
      simp only [List.length_cons, List.length_nil]
      omega
  rw [frame, hpairs, pairs, List.length_append, List.length_map, List.length_singleton]

theorem getUpload_eq {inst : SubGhzProtocolEncoderPrinceton}
    (hcount : inst.generic.dataCountBit = 24) (hsize : inst.encoder.sizeUpload = 52)
    (hte : inst.te.toNat * 97 < 2 ^ 32) :
    inst.getUpload = some { inst with encoder := { inst.encoder with
      sizeUpload := 50
      upload := frame inst.te.toNat ((inst.te * inst.guardTime).toNat % 2 ^ 30)
        (keyBits inst.generic.data 24) } } := by
  have hshort : inst.te.toNat % 2 ^ 30 = inst.te.toNat := Nat.mod_eq_of_lt (by omega)
  rw [SubGhzProtocolEncoderPrinceton.getUpload, hcount, hsize, if_neg (by omega),
    flatMap_bitUpload hte, levelDurationMake, levelDurationMake, hshort, frame_eq]

theorem load_serialize {q : SubGhzProtocolDecoderPrinceton}
    (hcount : q.generic.dataCountBit = 24) (hte : q.te.toNat * 97 < 2 ^ 32)
    (hguard : princetonGuardTime q.guardTime = q.guardTime) :
    ∃ encoder, subghzProtocolPrinceton.load q.serialize = some encoder ∧ ∀ repeats : ℕ,
      { encoder with repeats := repeats }.emitted = (List.replicate repeats
        (frame q.te.toNat ((q.te * q.guardTime).toNat % 2 ^ 30)
          (keyBits q.generic.data 24))).flatten := by
  obtain ⟨alloc, halloc⟩ : ∃ alloc, alloc = SubGhzProtocolEncoderPrinceton.alloc := ⟨_, rfl⟩
  have hsize : alloc.encoder.sizeUpload = 52 := by rw [halloc]; rfl
  have hfront : alloc.encoder.front = 0 := by rw [halloc]; rfl
  obtain ⟨loaded, hloaded⟩ : ∃ loaded, loaded = { alloc.generic with
    dataCountBit := q.generic.dataCountBit, data := q.generic.data } := ⟨_, rfl⟩
  have hgeneric : alloc.generic.deserializeCheckCountBit q.generic.serialize
      PRINCETON_MIN_COUNT_BIT_FOR_FOUND = .ok loaded := by
    rw [SubGhzBlockGeneric.deserializeCheckCountBit,
      SubGhzBlockGeneric.deserialize_serialize _ _ (by omega), hloaded]
    exact if_neg (not_not.2 hcount)
  have hdata : loaded.data = q.generic.data := by rw [hloaded]
  have hloadedCount : loaded.dataCountBit = 24 := by rw [hloaded]; exact hcount
  have hupload := @getUpload_eq
    { alloc with
      generic := loaded
      te := q.te
      guardTime := q.guardTime } hloadedCount hsize hte
  rw [hdata] at hupload
  have hdeserialize : alloc.deserialize q.serialize = .ok { alloc with
      generic := loaded
      te := q.te
      guardTime := q.guardTime
      encoder := { alloc.encoder with
        isRunning := true
        sizeUpload := 50
        upload := frame q.te.toNat ((q.te * q.guardTime).toNat % 2 ^ 30)
          (keyBits q.generic.data 24) } } := by
    rw [SubGhzProtocolEncoderPrinceton.deserialize]
    show (alloc.generic.deserializeCheckCountBit q.generic.serialize
      PRINCETON_MIN_COUNT_BIT_FOR_FOUND).bind _ = _
    rw [hgeneric, Except.bind]
    dsimp only [SubGhzProtocolDecoderPrinceton.serialize]
    have hrepeats : (q.generic.serialize.repeats.map BitVec.toNat).getD alloc.encoder.repeats =
        alloc.encoder.repeats := rfl
    rw [hguard, hrepeats, hupload]
  obtain ⟨encoder, hencoder⟩ : ∃ encoder : SubGhzProtocolBlockEncoder,
    encoder = { alloc.encoder with
      isRunning := true
      sizeUpload := 50
      upload := frame q.te.toNat ((q.te * q.guardTime).toNat % 2 ^ 30)
        (keyBits q.generic.data 24) } := ⟨_, rfl⟩
  have hload : subghzProtocolPrinceton.load q.serialize = some encoder := by
    show (SubGhzProtocolEncoderPrinceton.alloc.deserialize q.serialize).toOption.map _ = _
    rw [← halloc, hdeserialize, hencoder]
    rfl
  have hsent : encoder.upload = frame q.te.toNat ((q.te * q.guardTime).toNat % 2 ^ 30)
      (keyBits q.generic.data 24) := by
    rw [hencoder]
  refine ⟨encoder, hload, fun repeats => ?_⟩
  rw [← hsent]
  refine SubGhzProtocolBlockEncoder.emitted_repeats ?_ ?_ ?_ ?_ repeats
  · rw [hencoder]
  · rw [hencoder]
    exact hfront
  · rw [hsent, length_frame, length_keyBits, hencoder]
  · rw [hsent, frame_eq]
    exact List.append_ne_nil_of_right_ne_nil _ (List.cons_ne_nil _ _)

/-! ## What has been reported is replayed -/

/-- The key has no more bits than are sent, bits are read with this duration, and the gap of it is
waited for. -/
def Replayable (data : BitVec 64) (te guardTime : BitVec 32) : Prop :=
  data.toNat < 2 ^ PRINCETON_MIN_COUNT_BIT_FOR_FOUND ∧ TeFits te.toNat ∧
    GapFits (te * guardTime).toNat

instance (data : BitVec 64) (te guardTime : BitVec 32) :
    Decidable (Replayable data te guardTime) :=
  inferInstanceAs (Decidable (_ ∧ _))

theorem gap_eq {te guardTime : BitVec 32} (hte : te.toNat < 2070) (hguard : guardTime.toNat ≤ 72) :
    (te * guardTime).toNat = te.toNat * guardTime.toNat ∧
      (te * guardTime).toNat % 2 ^ 30 = (te * guardTime).toNat := by
  have hle : te.toNat * guardTime.toNat ≤ 2070 * 72 :=
    Nat.mul_le_mul hte.le hguard
  have hmul : (te * guardTime).toNat = te.toNat * guardTime.toNat := by
    rw [BitVec.toNat_mul]
    exact Nat.mod_eq_of_lt (by omega)
  exact ⟨hmul, Nat.mod_eq_of_lt (by omega)⟩

theorem replays_iff {q : SubGhzProtocolDecoderPrinceton} (hcount : q.generic.dataCountBit = 24)
    (hdata : q.generic.data ≠ 0) (hte : q.te.toNat * 97 < 2 ^ 32)
    (hguard : princetonGuardTime q.guardTime = q.guardTime) :
    subghzProtocolPrinceton.Replays 4 q ↔ Replayable q.generic.data q.te q.guardTime := by
  obtain ⟨encoder, hload, hemitted⟩ := load_serialize hcount hte hguard
  have hbounds := princetonGuardTime_bounds q.guardTime
  rw [hguard] at hbounds
  set gap := (q.te * q.guardTime).toNat % 2 ^ 30 with hgap
  by_cases hfits : TeFits q.te.toNat ∧ GapFits gap
  · obtain ⟨hteFits, hgapFits⟩ := hfits
    have hwindow := teFits_iff.1 hteFits
    have hgapEq := (gap_eq (by omega : q.te.toNat < 2070) hbounds.2).2
    rw [hgap, hgapEq] at hgapFits
    rw [Replayable, and_iff_left ⟨hteFits, hgapFits⟩]
    rw [← hgapEq, ← hgap] at hgapFits
    set sent := pushBits 0 (keyBits q.generic.data 24) with hsent
    have hlt : sent.toNat < 2 ^ 24 := pushBits_keyBits_lt q.generic.data 24
    have hsame : (sent.setWidth 32).setWidth 64 = sent := by
      refine BitVec.eq_of_toNat_eq ?_
      rw [BitVec.toNat_setWidth, BitVec.toNat_setWidth]
      omega
    have hreset := fun p repeats => readings_reset hteFits hgapFits
      (length_keyBits q.generic.data 24) hsame p repeats
    by_cases hnull : sent = 0
    · have hnone : ¬subghzProtocolPrinceton.Replays 4 q := by
        refine SubGhzProtocol.not_replays hload q ?_
        rw [hemitted]
        exact (hreset q 4).trans (if_pos hnull)
      refine iff_of_false hnone fun hlt => hdata ?_
      rw [← pushBits_keyBits_iff.2 hlt]
      exact hnull
    · have hread : ∀ (p : SubGhzProtocolDecoderPrinceton) (repeats : ℕ),
          subghzProtocolPrinceton.readings p.reset { encoder with repeats := repeats }.emitted =
            List.replicate (repeats - 2) (sent, 24) := by
        intro p repeats
        rw [hemitted]
        exact (hreset p repeats).trans (if_neg hnull)
      rw [SubGhzProtocol.replays_iff (fun repeats => repeats - 2) hload
        (fun repeats hrepeats => Nat.sub_ne_zero_of_lt (by omega)) hread]
      rw [Prod.mk.injEq, and_iff_left (show 24 =
        (subghzProtocolPrinceton.generic q).dataCountBit from hcount.symm)]
      exact pushBits_keyBits_iff
  · have hnone : ¬subghzProtocolPrinceton.Replays 4 q := by
      refine SubGhzProtocol.not_replays hload q ?_
      rw [hemitted]
      refine readings_unfit hfits (fun hlt => ?_) _ q 4
      obtain ⟨hmul, hmod⟩ := gap_eq hlt hbounds.2
      rw [hgap, hmod, hmul, Nat.mul_comm]
      exact Nat.mul_le_mul_left _ hbounds.1
    refine iff_of_false hnone ?_
    rintro ⟨-, hteFits, hgapFits⟩
    have hwindow := teFits_iff.1 hteFits
    refine hfits ⟨hteFits, ?_⟩
    rw [hgap, (gap_eq (by omega : q.te.toNat < 2070) hbounds.2).2]
    exact hgapFits

theorem report_some {pulse : LevelDuration} {q : SubGhzProtocolDecoderPrinceton}
    (h : p.report pulse = some q) : q.generic.dataCountBit = 24 ∧ q.generic.data ≠ 0 ∧
      q.generic.data = p.decoder.decodeData ∧ q.te = p.te / 97 ∧
      q.guardTime = guardTimeOf pulse.duration (p.te / 97) := by
  rw [report] at h
  split_ifs at h with hlong
  rw [found] at h
  split_ifs at h with hfound
  obtain ⟨hcount, hsame, hlast⟩ := hfound
  obtain rfl := Option.some.inj h
  have hcount' : p.decoder.decodeCountBit.toNat = 24 := hcount
  have hte : p.te / BitVec.ofNat 32 (p.decoder.decodeCountBit.toNat * 4 + 1) = p.te / 97 := by
    rw [hcount']
    rfl
  refine ⟨hcount, fun hzero => hlast ?_, rfl, hte, congrArg (guardTimeOf pulse.duration) hte⟩
  have hnull : p.decoder.decodeData = 0 := hzero
  have hdata : p.lastData.setWidth 64 = p.decoder.decodeData := hsame
  show p.lastData = 0
  refine BitVec.eq_of_toNat_eq ?_
  have htoNat := congrArg BitVec.toNat (hdata.trans hnull)
  rw [BitVec.toNat_setWidth] at htoNat
  have hlt := p.lastData.isLt
  have hzero' : (0 : BitVec 64).toNat = 0 := rfl
  have hzero'' : (0 : BitVec 32).toNat = 0 := rfl
  omega

theorem report_replays_iff {pulse : LevelDuration} {q : SubGhzProtocolDecoderPrinceton}
    (h : p.report pulse = some q) : subghzProtocolPrinceton.Replays 4 q ↔
      Replayable p.decoder.decodeData (p.te / 97) (guardTimeOf pulse.duration (p.te / 97)) := by
  obtain ⟨hcount, hnull, hdata, hte, hguard⟩ := report_some h
  rw [← hdata, ← hguard, ← hte]
  refine replays_iff hcount hnull ?_ ?_
  · rw [hte]
    exact te_lt _
  · rw [hguard]
    exact princetonGuardTime_twice _

end SubGhzProtocolDecoderPrinceton

open SubGhzProtocolDecoderPrinceton

/-- Whatever levels the decoder has been given since it was reset, what it reports is replayed just
if the average duration and the gap of it fit, and the key has no more bits than are sent. -/
theorem princeton_replay {p q : SubGhzProtocolDecoderPrinceton} {pulses : List LevelDuration}
    {pulse : LevelDuration}
    (h : (subghzProtocolPrinceton.after p.reset pulses).report pulse = some q) :
    subghzProtocolPrinceton.Replays 4 q ↔
      Replayable (subghzProtocolPrinceton.after p.reset pulses).decoder.decodeData
        ((subghzProtocolPrinceton.after p.reset pulses).te / 97)
        (guardTimeOf pulse.duration ((subghzProtocolPrinceton.after p.reset pulses).te / 97)) :=
  report_replays_iff h

/-- A decoder that has been switched on. -/
def princetonDecoder : SubGhzProtocolDecoderPrinceton where
  decoder := { parserStep := .reset, teLast := 0, decodeData := 0, decodeCountBit := 0 }
  generic := { data := 0, serial := 0, dataCountBit := 0, btn := 0, cnt := 0 }
  te := 0
  lastData := 0
  guardTime := 0

/-- A gap, and the key 1 twice with a last level of this duration, but for the gap after it. -/
def princetonOne (stop : ℕ) : List LevelDuration :=
  ⟨false, 14040⟩ :: (frame 390 14040 (keyBits 1 24)).dropLast.dropLast ++
    ⟨true, stop⟩ :: ⟨false, 14040⟩ :: (frame 390 14040 (keyBits 1 24)).dropLast.dropLast ++
      [⟨true, stop⟩]

theorem princeton_replay_one : ∃ q,
    (subghzProtocolPrinceton.after princetonDecoder.reset (princetonOne 390)).report
      ⟨false, 14040⟩ = some q ∧ subghzProtocolPrinceton.Replays 4 q := by
  have hreported : ((subghzProtocolPrinceton.after princetonDecoder.reset
      (princetonOne 390)).report ⟨false, 14040⟩).isSome = true := by
    decide +kernel
  obtain ⟨q, hq⟩ := Option.isSome_iff_exists.1 hreported
  exact ⟨q, hq, (princeton_replay hq).2 (by decide +kernel)⟩

/-- A last level of a tenth of a second makes the average one that no bits are read with. -/
theorem not_princeton_replay : ¬∀ (p q : SubGhzProtocolDecoderPrinceton)
    (pulses : List LevelDuration) (pulse : LevelDuration),
    (subghzProtocolPrinceton.after p.reset pulses).report pulse = some q →
      subghzProtocolPrinceton.Replays 4 q := by
  intro h
  obtain ⟨r, hr⟩ : ∃ r, r = subghzProtocolPrinceton.after princetonDecoder.reset
    (princetonOne 100000) := ⟨_, rfl⟩
  have hreported : (r.report ⟨false, 14040⟩).isSome = true := by
    rw [hr]
    decide +kernel
  obtain ⟨q, hq⟩ := Option.isSome_iff_exists.1 hreported
  have hunfit : ¬TeFits (r.te / 97).toNat := by
    rw [hr]
    decide +kernel
  have hreplays := h princetonDecoder q (princetonOne 100000) ⟨false, 14040⟩
  rw [← hr] at hreplays
  exact hunfit ((report_replays_iff hq).1 (hreplays hq)).2.1

end KiisuFirmware
