import KiisuFirmware.PulseJoiner

/-!
# What the joiner of pulses pops

What has been pushed is a signal of pulses; a leading low one is left out. The pops take runs of high
and then of low pulses off its front, one after the other, and what is left of it is what the joiner
holds, which is at most three pulses between two pushes (`joined`). So no time is lost, and no slot is
missing.
-/

namespace KiisuFirmware

namespace PulseJoiner

/-! ## Signals -/

def Push.pulses (push : Push) : List Pulse :=
  [⟨push.polarity, UInt16.ofNat push.pulse⟩,
    ⟨!push.polarity, UInt16.ofNat (push.period - push.pulse)⟩]

/-- The pulses of a push that is the first one. -/
def Push.firstPulses (push : Push) : List Pulse :=
  if push.polarity then push.pulses else push.pulses.drop 1

/-- The pulses that have been pushed. -/
def signal : List Push → List Pulse
  | [] => []
  | push :: pushes => push.firstPulses ++ pushes.flatMap Push.pulses

/-- The time of the low pulse that is left out. -/
def leadingLow : List Push → ℕ
  | [] => 0
  | push :: _ => if push.polarity then 0 else push.pulse

def Push.Valid (push : Push) : Prop := 0 < push.pulse ∧ push.pulse < push.period

/-- The periods of up to three pushes in a row are less than what a time can be. -/
def Below (pushes : List Push) : Prop :=
  ∀ window : List Push, window <:+: pushes → window.length ≤ 3 →
    (window.map Push.period).sum < 2 ^ 16

def total (pulses : List Pulse) : ℕ := (pulses.map fun pulse => pulse.time.toNat).sum

/-- High pulses and then low ones. -/
structure Period where
  highs : List Pulse
  lows : List Pulse
  highs_ne_nil : highs ≠ []
  lows_ne_nil : lows ≠ []
  high : ∀ pulse ∈ highs, pulse.polarity = true
  low : ∀ pulse ∈ lows, pulse.polarity = false

namespace Period

def pulses (period : Period) : List Pulse := period.highs ++ period.lows

/-- The period and the pulse of it. -/
def value (period : Period) : ℕ × ℕ := (total period.pulses, total period.highs)

end Period

/-! ## Storing -/

section Store

variable {joiner : PulseJoiner}

theorem length_buffered (h : joiner.pulseIndex ≤ PULSE_MAX_COUNT) :
    joiner.buffered.length = joiner.pulseIndex := by
  rw [buffered, List.length_take, joiner.length_pulses, min_eq_left h]

theorem buffered_store (h : joiner.pulseIndex < PULSE_MAX_COUNT) (pulse : Pulse) :
    (joiner.store pulse).buffered = joiner.buffered ++ [pulse] := by
  have hlt : joiner.pulseIndex < joiner.pulses.length := by rwa [joiner.length_pulses]
  show (joiner.pulses.set joiner.pulseIndex pulse).take (joiner.pulseIndex + 1) = _
  rw [List.take_add_one, List.take_set_of_le le_rfl, List.getElem?_set_self hlt]
  rfl

theorem headD_pulses (h : joiner.buffered ≠ []) (pulse : Pulse) :
    joiner.pulses.headD pulse = joiner.buffered.headD pulse := by
  unfold buffered at h ⊢
  rcases hpulses : joiner.pulses with _ | ⟨first, rest⟩
  · rw [hpulses, List.take_nil] at h
    exact absurd rfl h
  · rcases hindex : joiner.pulseIndex with _ | n
    · rw [hindex, List.take_zero] at h
      exact absurd rfl h
    · rfl

end Store

/-! ## Popping -/

/-- What the loop of a pop sums up. -/
def addTimes (time : UInt16) (pulses : List Pulse) : UInt16 :=
  pulses.foldl (fun time pulse => time + pulse.time) time

theorem addTimes_toNat : ∀ (pulses : List Pulse) (time : UInt16),
    time.toNat + total pulses < 2 ^ 16 → (addTimes time pulses).toNat = time.toNat + total pulses
  | [], _, _ => rfl
  | pulse :: pulses, time, h => by
    have htotal : total (pulse :: pulses) = pulse.time.toNat + total pulses := rfl
    have hadd : (time + pulse.time).toNat = time.toNat + pulse.time.toNat := by
      rw [UInt16.toNat_add]
      omega
    show (addTimes (time + pulse.time) pulses).toNat = _
    rw [addTimes_toNat pulses _ (by omega)]
    omega

theorem total_append (pulses pulses' : List Pulse) :
    total (pulses ++ pulses') = total pulses + total pulses' := by
  rw [total, List.map_append, List.sum_append]
  rfl

section Pop

theorem popLoop_high {pulse : Pulse} (hhigh : pulse.polarity = true) (more : List Pulse) (i : ℕ)
    {s : PopState} (hlast : s.lastPolarity = true) (hedges : s.edgesCount = 0)
    (hindex : 0 < s.pulseIndex) (hle : s.pulseIndex < 2 ^ 32) :
    popLoop (pulse :: more) i s = popLoop more (i + 1) { s with
      tmpPeriod := s.tmpPeriod + pulse.time
      tmpPulse := s.tmpPulse + pulse.time
      pulseIndex := s.pulseIndex - 1 } := by
  have hedge : s.edge pulse.polarity = s := if_neg (by rw [hhigh, hlast]; simp)
  have hdecrement : (s.pulseIndex + (2 ^ 32 - 1)) % 2 ^ 32 = s.pulseIndex - 1 := by omega
  rw [popLoop, hedge, if_neg (by omega), PopState.sum, if_pos hhigh, hdecrement]

theorem popLoop_highs : ∀ (highs more : List Pulse) (i : ℕ) (s : PopState),
    (∀ pulse ∈ highs, pulse.polarity = true) → s.lastPolarity = true → s.edgesCount = 0 →
    highs.length ≤ s.pulseIndex → s.pulseIndex < 2 ^ 32 →
    popLoop (highs ++ more) i s = popLoop more (i + highs.length) { s with
      tmpPeriod := addTimes s.tmpPeriod highs
      tmpPulse := addTimes s.tmpPulse highs
      pulseIndex := s.pulseIndex - highs.length }
  | [], _, _, _, _, _, _, _, _ => rfl
  | pulse :: highs, more, i, s, hhigh, hlast, hedges, hindex, hle => by
    rw [List.forall_mem_cons] at hhigh
    rw [List.length_cons] at hindex ⊢
    rw [List.cons_append, popLoop_high hhigh.1 _ i hlast hedges (by omega) hle]
    refine (popLoop_highs highs more (i + 1) _ hhigh.2 ?_ ?_ ?_ ?_).trans ?_
    · exact hlast
    · exact hedges
    · exact Nat.le_sub_of_add_le hindex
    · exact (Nat.sub_le _ _).trans_lt hle
    · rw [Nat.add_right_comm, Nat.sub_sub, Nat.add_comm 1]
      rfl

theorem popLoop_low {pulse : Pulse} (hlow : pulse.polarity = false) (more : List Pulse) (i : ℕ)
    {s : PopState} (hedges : s.lastPolarity = false ∧ s.edgesCount = 1 ∨
      s.lastPolarity = true ∧ s.edgesCount = 0)
    (hindex : 0 < s.pulseIndex) (hle : s.pulseIndex < 2 ^ 32) :
    popLoop (pulse :: more) i s = popLoop more (i + 1) { s with
      tmpPeriod := s.tmpPeriod + pulse.time
      lastPolarity := false
      edgesCount := 1
      pulseIndex := s.pulseIndex - 1 } := by
  have hdecrement : (s.pulseIndex + (2 ^ 32 - 1)) % 2 ^ 32 = s.pulseIndex - 1 := by omega
  have hedge : s.edge pulse.polarity = { s with lastPolarity := false, edgesCount := 1 } := by
    rw [PopState.edge, hlow]
    rcases hedges with ⟨hlast, hedges⟩ | ⟨hlast, hedges⟩
    · rw [if_neg (by rw [hlast]; simp), ← hlast, ← hedges]
    · rw [if_pos (by rw [hlast]; simp), hedges]
  rw [popLoop, hedge]
  refine (if_neg (by simp)).trans ?_
  rw [PopState.sum, if_neg (by rw [hlow]; simp), hdecrement]

theorem popLoop_lows : ∀ (lows more : List Pulse) (i : ℕ) (s : PopState),
    (∀ pulse ∈ lows, pulse.polarity = false) → s.lastPolarity = false → s.edgesCount = 1 →
    lows.length ≤ s.pulseIndex → s.pulseIndex < 2 ^ 32 →
    popLoop (lows ++ more) i s = popLoop more (i + lows.length) { s with
      tmpPeriod := addTimes s.tmpPeriod lows
      pulseIndex := s.pulseIndex - lows.length }
  | [], _, _, _, _, _, _, _, _ => rfl
  | pulse :: lows, more, i, s, hlow, hlast, hedges, hindex, hle => by
    rw [List.forall_mem_cons] at hlow
    rw [List.length_cons] at hindex ⊢
    rw [List.cons_append, popLoop_low hlow.1 _ i (.inl ⟨hlast, hedges⟩) (by omega) hle]
    refine (popLoop_lows lows more (i + 1) _ hlow.2 rfl rfl ?_ ?_).trans ?_
    · exact Nat.le_sub_of_add_le hindex
    · exact (Nat.sub_le _ _).trans_lt hle
    · rw [Nat.add_right_comm, Nat.sub_sub, Nat.add_comm 1, hlast, hedges]
      rfl

theorem popLoop_stop {pulse : Pulse} (hhigh : pulse.polarity = true) (more : List Pulse) (i : ℕ)
    {s : PopState} (hlast : s.lastPolarity = false) (hedges : s.edgesCount = 1) :
    popLoop (pulse :: more) i s =
      { s with edgesCount := 2, lastPolarity := true, nextFirstPulse := i } := by
  have hedge : s.edge pulse.polarity = { s with edgesCount := 2, lastPolarity := true } := by
    rw [PopState.edge, hhigh, if_pos (by rw [hlast]; simp), hedges]
  rw [popLoop, hedge]
  exact if_pos rfl

theorem getElem?_shift (next : ℕ) : ∀ (rounds i : ℕ) (pulses : List Pulse) (k : ℕ),
    pulses.length = PULSE_MAX_COUNT →
    (shift next rounds i pulses)[k]? =
      if i ≤ k ∧ k < i + rounds ∧ next + k < PULSE_MAX_COUNT then pulses[next + k]? else pulses[k]?
  | 0, i, pulses, k, _ => by
    rw [shift, if_neg (by omega)]
  | rounds + 1, i, pulses, k, hlength => by
    rw [shift]
    by_cases hlt : next + i < PULSE_MAX_COUNT
    · rw [if_pos hlt, getElem?_shift next rounds (i + 1) _ k (by rw [List.length_set, hlength])]
      rcases Nat.lt_trichotomy k i with hk | rfl | hk
      · rw [if_neg (by omega), if_neg (by omega), List.getElem?_set_ne (by omega)]
      · rw [if_neg (by omega), if_pos (by omega), List.getElem?_set_self (by omega),
          List.getD_eq_getElem?_getD, List.getElem?_eq_getElem (by omega)]
        rfl
      · by_cases hin : k < i + 1 + rounds ∧ next + k < PULSE_MAX_COUNT
        · rw [if_pos (by omega), if_pos (by omega), List.getElem?_set_ne (by omega)]
        · rw [if_neg (by omega), if_neg (by omega), List.getElem?_set_ne (by omega)]
    · rw [if_neg hlt, if_neg (by omega)]

theorem popLoop_period (period : Period) {first : Pulse} (hfirst : first.polarity = true)
    (more : List Pulse) {s : PopState} (hlast : s.lastPolarity = true) (hedges : s.edgesCount = 0)
    (hindex : period.pulses.length ≤ s.pulseIndex) (hle : s.pulseIndex < 2 ^ 32) :
    popLoop (period.pulses ++ first :: more) 0 s = { s with
      tmpPeriod := addTimes s.tmpPeriod period.pulses
      tmpPulse := addTimes s.tmpPulse period.highs
      edgesCount := 2
      nextFirstPulse := period.pulses.length
      pulseIndex := s.pulseIndex - period.pulses.length } := by
  rcases hlows : period.lows with _ | ⟨low, lows⟩
  · exact absurd hlows period.lows_ne_nil
  have hlow := period.low
  rw [hlows, List.forall_mem_cons] at hlow
  have hlength : period.pulses.length = period.highs.length + (lows.length + 1) := by
    rw [Period.pulses, List.length_append, hlows, List.length_cons]
  have htimes : addTimes s.tmpPeriod period.pulses =
      addTimes (addTimes s.tmpPeriod period.highs + low.time) lows := by
    rw [Period.pulses, addTimes, List.foldl_append, hlows]
    rfl
  have hpulses : period.pulses ++ first :: more =
      period.highs ++ (low :: (lows ++ first :: more)) := by
    rw [Period.pulses, hlows, List.append_assoc]
    rfl
  rw [hpulses, popLoop_highs period.highs _ 0 s period.high hlast hedges (by omega) hle]
  refine (popLoop_low hlow.1 _ _ (.inr ⟨?_, ?_⟩) ?_ ?_).trans ?_
  · exact hlast
  · exact hedges
  · show 0 < s.pulseIndex - period.highs.length
    omega
  · exact (Nat.sub_le _ _).trans_lt hle
  refine (popLoop_lows lows _ _ _ hlow.2 rfl rfl ?_ ?_).trans ?_
  · show lows.length ≤ s.pulseIndex - period.highs.length - 1
    omega
  · exact ((Nat.sub_le _ _).trans (Nat.sub_le _ _)).trans_lt hle
  refine (popLoop_stop hfirst more _ rfl rfl).trans ?_
  have hindices : s.pulseIndex - period.highs.length - 1 - lows.length =
      s.pulseIndex - period.pulses.length := by omega
  have hnext : 0 + period.highs.length + 1 + lows.length = period.pulses.length := by omega
  dsimp only
  rw [hindices, hnext, htimes, hlast]

variable {joiner : PulseJoiner}

theorem popPulse_eq (period : Period) {first : Pulse} (hfirst : first.polarity = true)
    {more : List Pulse} (hindex : joiner.pulseIndex ≤ PULSE_MAX_COUNT)
    (hbuffered : joiner.buffered = period.pulses ++ first :: more)
    (htotal : total period.pulses < 2 ^ 16) :
    ∃ next, joiner.popPulse = some (period.value, next) ∧ next.buffered = first :: more ∧
      next.pulseIndex ≤ PULSE_MAX_COUNT := by
  have hlength := length_buffered hindex
  rw [hbuffered, List.length_append] at hlength
  have hpulses : joiner.pulses =
      period.pulses ++ first :: (more ++ joiner.pulses.drop joiner.pulseIndex) := by
    rw [← List.cons_append, ← List.append_assoc, ← hbuffered, buffered, List.take_append_drop]
  have hhead : (joiner.pulses.headD ⟨false, 0⟩).polarity = true := by
    rw [hpulses, Period.pulses]
    rcases hhighs : period.highs with _ | ⟨high, highs⟩
    · exact absurd hhighs period.highs_ne_nil
    · exact period.high high (by rw [hhighs]; exact List.mem_cons_self)
  have hloop := popLoop_period period hfirst (more ++ joiner.pulses.drop joiner.pulseIndex)
    (s := ⟨0, 0, 0, true, 0, joiner.pulseIndex⟩) rfl rfl (by show _ ≤ joiner.pulseIndex; omega)
    (by show joiner.pulseIndex < 2 ^ 32; rw [PULSE_MAX_COUNT] at hindex; omega)
  rw [← hpulses] at hloop
  have hperiod : (addTimes 0 period.pulses).toNat = total period.pulses := by
    rw [addTimes_toNat _ _ (by rw [UInt16.toNat_zero]; omega), UInt16.toNat_zero, Nat.zero_add]
  have hpulse : (addTimes 0 period.highs).toNat = total period.highs := by
    have hle : total period.highs ≤ total period.pulses := by
      rw [Period.pulses, total_append]
      exact Nat.le_add_right _ _
    rw [addTimes_toNat _ _ (by rw [UInt16.toNat_zero]; omega), UInt16.toNat_zero, Nat.zero_add]
  unfold popPulse
  dsimp only
  rw [if_pos (by omega), hhead, hloop]
  refine ⟨_, congrArg some (Prod.ext (Prod.ext hperiod hpulse) rfl), ?_, ?_⟩
  · show (shift period.pulses.length PULSE_MAX_COUNT 0 joiner.pulses).take
      (joiner.pulseIndex - period.pulses.length) = first :: more
    have hrest : first :: more = joiner.buffered.drop period.pulses.length := by
      rw [hbuffered, List.drop_left]
    refine List.ext_getElem? fun k => ?_
    rw [hrest, buffered, List.getElem?_drop, List.getElem?_take, List.getElem?_take,
      getElem?_shift _ _ _ _ _ joiner.length_pulses]
    by_cases hk : k < joiner.pulseIndex - period.pulses.length
    · rw [if_pos hk, if_pos (by omega), if_pos (by omega)]
    · rw [if_neg hk, if_neg (by omega)]
  · show joiner.pulseIndex - period.pulses.length ≤ PULSE_MAX_COUNT
    omega

end Pop

/-! ## Pushing -/

/-- The edges between pulses. -/
def edges : List Pulse → ℕ
  | [] => 0
  | pulse :: pulses => edgesCount pulses pulse.polarity 0

section Push

variable {joiner : PulseJoiner} {push : Push}

/-- What a push adds. -/
def Push.added (push : Push) (buffered : List Pulse) : List Pulse :=
  if buffered = [] then push.firstPulses else push.pulses

theorem pushPulse_eq (hvalid : push.Valid) (hindex : joiner.pulseIndex + 1 < PULSE_MAX_COUNT) :
    ∃ next, joiner.pushPulse push.polarity push.period push.pulse =
        some (decide (4 ≤ next.buffered.length ∧ 2 ≤ edges next.buffered), next) ∧
      next.buffered = joiner.buffered ++ push.added joiner.buffered ∧
      next.pulseIndex ≤ PULSE_MAX_COUNT := by
  have hlength := length_buffered (show joiner.pulseIndex ≤ PULSE_MAX_COUNT by omega)
  have hempty : joiner.buffered = [] ↔ joiner.pulseIndex = 0 := by
    rw [← List.length_eq_zero_iff, hlength]
  -- the first pulse, which is left out if it is a leading low one
  obtain ⟨mid, hmid, hmidBuffered, hmidIndex⟩ : ∃ mid : PulseJoiner,
      (if push.polarity = false ∧ joiner.pulseIndex = 0 then joiner
        else joiner.store ⟨push.polarity, UInt16.ofNat push.pulse⟩) = mid ∧
      mid.buffered ++ [⟨!push.polarity, UInt16.ofNat (push.period - push.pulse)⟩] =
        joiner.buffered ++ push.added joiner.buffered ∧
      mid.pulseIndex < PULSE_MAX_COUNT := by
    refine ⟨_, rfl, ?_⟩
    unfold Push.added Push.firstPulses Push.pulses
    by_cases hlow : push.polarity = false ∧ joiner.pulseIndex = 0
    · rw [if_pos hlow, if_pos (hempty.2 hlow.2), hlow.1]
      exact ⟨rfl, by omega⟩
    · rw [if_neg hlow, buffered_store (by omega)]
      refine ⟨?_, hindex⟩
      rw [List.append_assoc]
      by_cases hzero : joiner.pulseIndex = 0
      · have hhigh : push.polarity = true := by
          rw [← Bool.not_eq_false]
          exact fun hlow' => hlow ⟨hlow', hzero⟩
        rw [if_pos (hempty.2 hzero), hhigh]
        rfl
      · rw [if_neg (mt hempty.1 hzero)]
        rfl
  have hbuffered := buffered_store hmidIndex
    ⟨!push.polarity, UInt16.ofNat (push.period - push.pulse)⟩
  rw [hmidBuffered] at hbuffered
  have hnext : (mid.store ⟨!push.polarity, UInt16.ofNat (push.period - push.pulse)⟩).pulseIndex ≤
    PULSE_MAX_COUNT := hmidIndex
  refine ⟨mid.store ⟨!push.polarity, UInt16.ofNat (push.period - push.pulse)⟩, ?_, hbuffered, hnext⟩
  unfold pushPulse
  dsimp only
  rw [if_pos hindex, hmid, if_pos hvalid.2]
  generalize mid.store ⟨!push.polarity, UInt16.ofNat (push.period - push.pulse)⟩ = next at hnext
  congr 2
  rw [length_buffered hnext]
  by_cases hfour : 4 ≤ next.pulseIndex
  · have hne : next.buffered ≠ [] := by
      rw [← List.length_pos_iff, length_buffered hnext]
      omega
    rw [if_pos hfour, headD_pulses hne]
    rcases hpulses : next.buffered with _ | ⟨first, rest⟩
    · exact absurd hpulses hne
    · exact decide_eq_decide.2 ⟨fun h => ⟨hfour, h⟩, fun h => h.2⟩
  · rw [if_neg hfour, decide_eq_false fun h => hfour h.1]

end Push

/-! ## Between two pushes -/

/-- What is held between two pushes, once something has been pushed. -/
def Held (buffered : List Pulse) : Prop :=
  buffered.map Pulse.polarity ∈
    [[true], [true, false], [true, true, false], [true, false, true]]

theorem held_cases {buffered : List Pulse} (h : Held buffered) :
    (∃ a, buffered = [⟨true, a⟩]) ∨ (∃ a b, buffered = [⟨true, a⟩, ⟨false, b⟩]) ∨
      (∃ a b c, buffered = [⟨true, a⟩, ⟨true, b⟩, ⟨false, c⟩]) ∨
      ∃ a b c, buffered = [⟨true, a⟩, ⟨false, b⟩, ⟨true, c⟩] := by
  rcases buffered with _ | ⟨⟨p, a⟩, _ | ⟨⟨q, b⟩, _ | ⟨⟨r, c⟩, _ | ⟨e, rest⟩⟩⟩⟩
  · simp [Held] at h
  · simp [Held] at h
    simp [h]
  · simp [Held] at h
    simp [h]
  · simp [Held] at h
    rcases h with ⟨rfl, rfl, rfl⟩ | ⟨rfl, rfl, rfl⟩ <;> simp
  · simp [Held] at h

/-- A push adds to what is held, or completes a period, and what is left is held. -/
theorem held_added {buffered : List Pulse} (h : buffered = [] ∨ Held buffered) (push : Push) :
    Held (buffered ++ push.added buffered) ∧
        ¬(4 ≤ (buffered ++ push.added buffered).length ∧
          2 ≤ edges (buffered ++ push.added buffered)) ∨
      (4 ≤ (buffered ++ push.added buffered).length ∧
        2 ≤ edges (buffered ++ push.added buffered)) ∧
      ∃ (period : Period) (first : Pulse) (more : List Pulse),
        buffered ++ push.added buffered = period.pulses ++ first :: more ∧
          first.polarity = true ∧ Held (first :: more) := by
  obtain ⟨polarity, period, pulse⟩ := push
  rcases h with rfl | h
  · rcases polarity with _ | _
    · exact .inl ⟨by simp [Held, Push.added, Push.firstPulses, Push.pulses],
        by simp [Push.added, Push.firstPulses, Push.pulses]⟩
    · exact .inl ⟨by simp [Held, Push.added, Push.firstPulses, Push.pulses],
        by simp [Push.added, Push.firstPulses, Push.pulses]⟩
  · rcases held_cases h with ⟨a, rfl⟩ | ⟨a, b, rfl⟩ | ⟨a, b, c, rfl⟩ | ⟨a, b, c, rfl⟩
    · exact .inl ⟨by cases polarity <;> simp [Held, Push.added, Push.pulses],
        by simp [Push.added, Push.pulses]⟩
    · refine .inr ⟨by cases polarity <;> simp [Push.added, Push.pulses, edges, edgesCount], ?_⟩
      rcases polarity with _ | _
      · exact ⟨⟨[⟨true, a⟩], [⟨false, b⟩, ⟨false, _⟩], by simp, by simp, by simp, by simp⟩, _, [],
          rfl, rfl, by simp [Held]⟩
      · exact ⟨⟨[⟨true, a⟩], [⟨false, b⟩], by simp, by simp, by simp, by simp⟩, _, [⟨false, _⟩],
          rfl, rfl, by simp [Held]⟩
    · refine .inr ⟨by cases polarity <;> simp [Push.added, Push.pulses, edges, edgesCount], ?_⟩
      rcases polarity with _ | _
      · exact ⟨⟨[⟨true, a⟩, ⟨true, b⟩], [⟨false, c⟩, ⟨false, _⟩], by simp, by simp, by simp,
          by simp⟩, _, [], rfl, rfl, by simp [Held]⟩
      · exact ⟨⟨[⟨true, a⟩, ⟨true, b⟩], [⟨false, c⟩], by simp, by simp, by simp, by simp⟩, _,
          [⟨false, _⟩], rfl, rfl, by simp [Held]⟩
    · refine .inr ⟨by cases polarity <;> simp [Push.added, Push.pulses, edges, edgesCount], ?_⟩
      rcases polarity with _ | _
      · exact ⟨⟨[⟨true, a⟩], [⟨false, b⟩], by simp, by simp, by simp, by simp⟩, _,
          [⟨false, _⟩, ⟨true, _⟩], rfl, rfl, by simp [Held]⟩
      · exact ⟨⟨[⟨true, a⟩], [⟨false, b⟩], by simp, by simp, by simp, by simp⟩, _,
          [⟨true, _⟩, ⟨false, _⟩], rfl, rfl, by simp [Held]⟩

/-! ## Runs -/

/-- What has been pushed is what has been popped and what is buffered. -/
structure Joined (pushes : List Push) (periods : List Period) (joiner : PulseJoiner) : Prop where
  run_eq : run pushes = some (periods.map Period.value, joiner)
  signal_eq : signal pushes = periods.flatMap Period.pulses ++ joiner.buffered
  held : pushes = [] ∧ joiner.buffered = [] ∨ pushes ≠ [] ∧ Held joiner.buffered
  index : joiner.pulseIndex ≤ PULSE_MAX_COUNT

theorem joined_nil : Joined [] [] alloc where
  run_eq := rfl
  signal_eq := rfl
  held := .inl ⟨rfl, rfl⟩
  index := Nat.zero_le _

theorem run_append (pushes : List Push) (push : Push) :
    run (pushes ++ [push]) = (run pushes).bind fun s => feed s push := by
  rw [run, List.foldlM_append]
  simp [run, bind]

theorem signal_append {pushes : List Push} (push : Push) (hne : pushes ≠ []) :
    signal (pushes ++ [push]) = signal pushes ++ push.pulses := by
  rcases pushes with _ | ⟨first, pushes⟩
  · exact absurd rfl hne
  · simp [signal]

theorem Held.length_le {buffered : List Pulse} (h : Held buffered) : buffered.length ≤ 3 := by
  rcases held_cases h with ⟨a, rfl⟩ | ⟨a, b, rfl⟩ | ⟨a, b, c, rfl⟩ | ⟨a, b, c, rfl⟩ <;> simp

theorem Held.ne_nil {buffered : List Pulse} (h : Held buffered) : buffered ≠ [] := by
  rcases held_cases h with ⟨a, rfl⟩ | ⟨a, b, rfl⟩ | ⟨a, b, c, rfl⟩ | ⟨a, b, c, rfl⟩ <;> simp

theorem Joined.step {pushes : List Push} {periods : List Period} {joiner : PulseJoiner}
    (h : Joined pushes periods joiner) {push : Push} (hvalid : push.Valid)
    (htotal : total (joiner.buffered ++ push.added joiner.buffered) < 2 ^ 16) :
    ∃ periods' joiner', Joined (pushes ++ [push]) periods' joiner' := by
  have hheld : joiner.buffered = [] ∨ Held joiner.buffered := h.held.imp And.right And.right
  have hindex : joiner.pulseIndex + 1 < PULSE_MAX_COUNT := by
    have hlength := length_buffered h.index
    rcases hheld with hnil | hheld
    · rw [hnil, List.length_nil] at hlength
      rw [← hlength]
      decide
    · have hthree := hheld.length_le
      show joiner.pulseIndex + 1 < 6
      omega
  have hsignal : signal (pushes ++ [push]) =
      periods.flatMap Period.pulses ++ (joiner.buffered ++ push.added joiner.buffered) := by
    rcases h.held with ⟨rfl, hnil⟩ | ⟨hne, hheld⟩
    · have hperiods : [] = periods.flatMap Period.pulses ++ joiner.buffered := h.signal_eq
      rw [hnil, List.append_nil] at hperiods
      rw [hnil, ← hperiods, Push.added, if_pos rfl]
      simp [signal]
    · rw [signal_append push hne, h.signal_eq, List.append_assoc, Push.added, if_neg hheld.ne_nil]
  have hne : pushes ++ [push] ≠ [] := by simp
  obtain ⟨next, hpush, hbuffered, hnext⟩ := pushPulse_eq hvalid hindex
  have hfeed : run (pushes ++ [push]) = feed (periods.map Period.value, joiner) push := by
    rw [run_append, h.run_eq]
    rfl
  rw [feed, hpush] at hfeed
  rcases held_added hheld push with ⟨hnew, hwait⟩ | ⟨hpop, period, first, more, hsplit, hfirst, hnew⟩
  · rw [← hbuffered] at hnew hwait hsignal
    refine ⟨periods, next, ?_, hsignal, .inr ⟨hne, hnew⟩, hnext⟩
    rw [hfeed, decide_eq_false hwait]
    rfl
  · rw [hsplit] at hbuffered htotal hsignal
    rw [total_append] at htotal
    obtain ⟨last, hpopped, hlast, hlastIndex⟩ := popPulse_eq period hfirst hnext hbuffered (by omega)
    rw [← hsplit] at hbuffered
    refine ⟨periods ++ [period], last, ?_, ?_, .inr ⟨hne, ?_⟩, hlastIndex⟩
    · rw [hfeed, hbuffered, decide_eq_true hpop, List.map_append]
      simp [hpopped, bind]
    · rw [hsignal, hlast, List.flatMap_append]
      simp
    · rw [hlast]
      exact hnew

/-! ## Times -/

section Times

variable {pushes : List Push}

theorem Below.append {pushes' : List Push} (h : Below (pushes ++ pushes')) : Below pushes :=
  fun window hwindow => h window (hwindow.trans (List.prefix_append _ _).isInfix)

theorem Below.period_lt (h : Below pushes) {push : Push} (hmem : push ∈ pushes) :
    push.period < 2 ^ 16 := by
  obtain ⟨before, after, rfl⟩ := List.append_of_mem hmem
  have := h [push] ⟨before, after, by simp⟩ (by simp)
  simpa using this

theorem total_pulses {push : Push} (hvalid : push.Valid) (hlt : push.period < 2 ^ 16) :
    total push.pulses = push.period := by
  obtain ⟨hpos, hle⟩ := hvalid
  have hpulse : (UInt16.ofNat push.pulse).toNat = push.pulse :=
    UInt16.toNat_ofNat_of_lt' (hle.trans hlt)
  have hrest : (UInt16.ofNat (push.period - push.pulse)).toNat = push.period - push.pulse :=
    UInt16.toNat_ofNat_of_lt' ((Nat.sub_le _ _).trans_lt hlt)
  simp only [total, Push.pulses, List.map_cons, List.map_nil, List.sum_cons, List.sum_nil, hpulse,
    hrest]
  omega

theorem total_flatMap_pulses : ∀ {pushes : List Push}, (∀ push ∈ pushes, push.Valid) →
    Below pushes → total (pushes.flatMap Push.pulses) = (pushes.map Push.period).sum
  | [], _, _ => rfl
  | push :: pushes, hvalid, hbelow => by
    have hrest : Below pushes :=
      fun window hwindow => hbelow window (hwindow.trans (List.suffix_cons _ _).isInfix)
    rw [List.forall_mem_cons] at hvalid
    rw [List.flatMap_cons, total_append, List.map_cons, List.sum_cons,
      total_pulses hvalid.1 (hbelow.period_lt List.mem_cons_self),
      total_flatMap_pulses hvalid.2 hrest]

theorem total_le_of_suffix {pulses pulses' : List Pulse} (h : pulses <:+ pulses') :
    total pulses ≤ total pulses' := by
  obtain ⟨before, rfl⟩ := h
  rw [total_append]
  exact Nat.le_add_left _ _

theorem length_flatMap_pulses (pushes : List Push) :
    (pushes.flatMap Push.pulses).length = 2 * pushes.length := by
  induction pushes with
  | nil => rfl
  | cons push pushes ih =>
    rw [List.flatMap_cons, List.length_append, ih, List.length_cons, Push.pulses]
    simp
    omega

theorem total_suffix_lt (hvalid : ∀ push ∈ pushes, push.Valid) (hbelow : Below pushes)
    {pulses : List Pulse} (hsuffix : pulses <:+ pushes.flatMap Push.pulses)
    (hlength : pulses.length ≤ 6) : total pulses < 2 ^ 16 := by
  have hwindow : pushes.drop (pushes.length - 3) <:+: pushes := (List.drop_suffix _ _).isInfix
  have hle : (pushes.drop (pushes.length - 3)).length ≤ 3 := by
    rw [List.length_drop]
    omega
  have hlast : pulses <:+ (pushes.drop (pushes.length - 3)).flatMap Push.pulses := by
    by_cases hthree : pushes.length ≤ 3
    · rwa [Nat.sub_eq_zero_of_le hthree, List.drop_zero]
    · refine List.suffix_of_suffix_length_le hsuffix ?_ ?_
      · conv_rhs => rw [← List.take_append_drop (pushes.length - 3) pushes, List.flatMap_append]
        exact List.suffix_append _ _
      · rw [length_flatMap_pulses, List.length_drop]
        omega
  refine (total_le_of_suffix hlast).trans_lt ?_
  rw [total_flatMap_pulses (fun push hmem => hvalid push (List.mem_of_mem_drop hmem))
    fun window hin => hbelow window (hin.trans hwindow)]
  exact hbelow _ hwindow hle

theorem total_signal (hvalid : ∀ push ∈ pushes, push.Valid) (hbelow : Below pushes) :
    total (signal pushes) + leadingLow pushes = (pushes.map Push.period).sum := by
  rw [← total_flatMap_pulses hvalid hbelow]
  rcases pushes with _ | ⟨push, pushes⟩
  · rfl
  have hlt := hbelow.period_lt List.mem_cons_self
  have hle := (hvalid push List.mem_cons_self).2
  rw [signal, leadingLow, Push.firstPulses, List.flatMap_cons, total_append, total_append]
  rcases push.polarity with _ | _
  · have hpulse : (UInt16.ofNat push.pulse).toNat = push.pulse :=
      UInt16.toNat_ofNat_of_lt' (hle.trans hlt)
    have hfirst : total push.pulses =
        (UInt16.ofNat push.pulse).toNat + total (push.pulses.drop 1) := rfl
    rw [if_neg Bool.false_ne_true, if_neg Bool.false_ne_true, hfirst, hpulse]
    omega
  · simp

theorem signal_suffix (pushes : List Push) : signal pushes <:+ pushes.flatMap Push.pulses := by
  rcases pushes with _ | ⟨push, pushes⟩
  · exact List.suffix_refl _
  · rw [signal, List.flatMap_cons, Push.firstPulses]
    split_ifs
    · exact List.suffix_refl _
    · exact ⟨push.pulses.take 1, by rw [← List.append_assoc, List.take_append_drop]⟩

theorem pos_of_mem_signal (hvalid : ∀ push ∈ pushes, push.Valid) (hbelow : Below pushes)
    {pulse : Pulse} (hmem : pulse ∈ signal pushes) : 0 < pulse.time.toNat := by
  obtain ⟨push, hpush, hpulse⟩ := List.mem_flatMap.1 ((signal_suffix pushes).mem hmem)
  have hlt := hbelow.period_lt hpush
  obtain ⟨hpos, hle⟩ := hvalid push hpush
  rw [Push.pulses, List.mem_cons, List.mem_singleton] at hpulse
  rcases hpulse with rfl | rfl
  · exact (UInt16.toNat_ofNat_of_lt' (hle.trans hlt)).symm ▸ hpos
  · exact (UInt16.toNat_ofNat_of_lt' ((Nat.sub_le _ _).trans_lt hlt)).symm ▸ Nat.sub_pos_of_lt hle

theorem total_pos {pulses : List Pulse} (hne : pulses ≠ [])
    (hpos : ∀ pulse ∈ pulses, 0 < pulse.time.toNat) : 0 < total pulses := by
  rcases pulses with _ | ⟨pulse, pulses⟩
  · exact absurd rfl hne
  · exact Nat.add_pos_left (hpos pulse List.mem_cons_self) _

end Times

/-! ## All pushes -/

theorem exists_joined (pushes : List Push) : (∀ push ∈ pushes, push.Valid) → Below pushes →
    ∃ periods joiner, Joined pushes periods joiner := by
  induction pushes using List.reverseRecOn with
  | nil => exact fun _ _ => ⟨[], alloc, joined_nil⟩
  | append_singleton pushes push ih =>
    intro hvalid hbelow
    obtain ⟨periods, joiner, h⟩ := ih (fun p hmem => hvalid p (List.mem_append_left _ hmem))
      hbelow.append
    have hsuffix : joiner.buffered <:+ pushes.flatMap Push.pulses := by
      refine List.IsSuffix.trans ?_ (signal_suffix pushes)
      rw [h.signal_eq]
      exact List.suffix_append _ _
    refine h.step (hvalid push (by simp)) (total_suffix_lt hvalid hbelow ?_ ?_)
    · rw [List.flatMap_append, List.flatMap_singleton]
      obtain ⟨before, hbefore⟩ := hsuffix
      rw [← hbefore, List.append_assoc]
      refine List.IsSuffix.trans ?_ (List.suffix_append _ _)
      rw [Push.added, Push.firstPulses]
      split_ifs with hnil hpolarity
      · exact List.suffix_refl _
      · rw [hnil]
        exact List.drop_suffix _ _
      · exact List.suffix_refl _
    · have hadded : (push.added joiner.buffered).length ≤ 2 := by
        rw [Push.added, Push.firstPulses]
        split_ifs <;> simp [Push.pulses]
      rw [List.length_append]
      rcases h.held with ⟨-, hnil⟩ | ⟨-, hheld⟩
      · rw [hnil] at hadded ⊢
        rw [List.length_nil]
        omega
      · have hthree := hheld.length_le
        omega

/-- What comes out of the joiner: both checks hold, what is popped are the periods of the signal, one
after the other, and what is buffered begins with the next one. -/
theorem run_periods (pushes : List Push) (hvalid : ∀ push ∈ pushes, push.Valid)
    (hbelow : Below pushes) :
    ∃ (periods : List Period) (joiner : PulseJoiner),
      run pushes = some (periods.map Period.value, joiner) ∧
      signal pushes = periods.flatMap Period.pulses ++ joiner.buffered ∧
      (∀ first ∈ joiner.buffered.head?, first.polarity = true) ∧
      (∀ popped ∈ periods.map Period.value, 0 < popped.2 ∧ popped.2 < popped.1) ∧
      ((periods.map Period.value).map Prod.fst).sum + total joiner.buffered + leadingLow pushes =
        (pushes.map Push.period).sum := by
  obtain ⟨periods, joiner, h⟩ := exists_joined pushes hvalid hbelow
  refine ⟨periods, joiner, h.run_eq, h.signal_eq, ?_, ?_, ?_⟩
  · intro first hfirst
    rcases h.held with ⟨-, hnil⟩ | ⟨-, hheld⟩
    · rw [hnil] at hfirst
      cases hfirst
    · rcases held_cases hheld with ⟨a, heq⟩ | ⟨a, b, heq⟩ | ⟨a, b, c, heq⟩ | ⟨a, b, c, heq⟩
      all_goals
        rw [heq] at hfirst
        cases hfirst
        rfl
  · intro popped hpopped
    obtain ⟨period, hmem, rfl⟩ := List.mem_map.1 hpopped
    have hpos : ∀ pulse ∈ period.pulses, 0 < pulse.time.toNat := fun pulse hpulse =>
      pos_of_mem_signal hvalid hbelow (by
        rw [h.signal_eq]
        exact List.mem_append_left _ (List.mem_flatMap.2 ⟨period, hmem, hpulse⟩))
    have hhighs := total_pos period.highs_ne_nil fun p hp => hpos p (List.mem_append_left _ hp)
    have hlows := total_pos period.lows_ne_nil fun p hp => hpos p (List.mem_append_right _ hp)
    refine ⟨hhighs, ?_⟩
    show total period.highs < total period.pulses
    rw [Period.pulses, total_append]
    omega
  · have hperiods (periods : List Period) : ((periods.map Period.value).map Prod.fst).sum =
        total (periods.flatMap Period.pulses) := by
      induction periods with
      | nil => rfl
      | cons period periods ih =>
        rw [List.map_cons, List.map_cons, List.sum_cons, ih, List.flatMap_cons, total_append]
        rfl
    rw [← total_signal hvalid hbelow, h.signal_eq, total_append, hperiods]

theorem run_periods_three : ∃ (periods : List Period) (joiner : PulseJoiner),
    run [⟨false, 5, 2⟩, ⟨true, 6, 4⟩, ⟨false, 7, 3⟩] = some (periods.map Period.value, joiner) := by
  obtain ⟨periods, joiner, h, -⟩ := run_periods [⟨false, 5, 2⟩, ⟨true, 6, 4⟩, ⟨false, 7, 3⟩]
    (by simp [Push.Valid]) (fun window hwindow _ => by
      have hle := hwindow.sublist.map Push.period |>.sum_le_sum (by simp)
      exact hle.trans_lt (by decide))
  exact ⟨periods, joiner, h⟩

end PulseJoiner

end KiisuFirmware
