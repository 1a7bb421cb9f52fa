import KiisuFirmware.Manchester
import KiisuFirmware.Proofs.Protocol

/-!
# Reading what was sent in Manchester code

A decoder that was just reset takes the bit it has come to for a one. If it is a zero the decoder
reads ones for zeros (`slip`) until a one sets it right, which it does not read itself. From then on
it reads the bits that are sent.
-/

namespace KiisuFirmware

/-! ## The decoder of a protocol -/

/-- The bits that end with these events. -/
def bitsOf : ManchesterState → List ManchesterEvent → List Bool
  | _, [] => []
  | state, event :: events =>
    if event = .reset then bitsOf state events
    else (manchesterAdvance state event).2.toList ++ bitsOf (manchesterAdvance state event).1 events

namespace ManchesterProtocol

variable {π δ : Type}

/-- The state of the Manchester decoder is kept apart from all that a bit is stored in. -/
structure Lawful (protocol : ManchesterProtocol π) (getData : π → δ) : Prop where
  state_setState (p : π) (s : ManchesterState) : protocol.state (protocol.setState p s) = s
  state_store (p : π) (bit : Bool) : protocol.state (protocol.store p bit).2 = protocol.state p
  store_setState (p : π) (s : ManchesterState) (bit : Bool) :
    protocol.store (protocol.setState p s) bit =
      ((protocol.store p bit).1, protocol.setState (protocol.store p bit).2 s)
  times_setState (p : π) (s : ManchesterState) :
    protocol.times (protocol.setState p s) = protocol.times p
  times_store (p : π) (bit : Bool) : protocol.times (protocol.store p bit).2 = protocol.times p
  getData_setState (p : π) (s : ManchesterState) : getData (protocol.setState p s) = getData p

variable {protocol : ManchesterProtocol π} {getData : π → δ} (h : protocol.Lawful getData)
include h

theorem reads_setState (s : ManchesterState) : ∀ (bits : List Bool) (p : π),
    reads protocol.store getData (protocol.setState p s) bits = reads protocol.store getData p bits
  | [], _ => rfl
  | bit :: bits, p => by
    rw [reads, reads, h.store_setState]
    dsimp only
    rw [h.getData_setState, reads_setState s bits]

theorem reads_decoderFeed : ∀ (pulses : List LevelDuration) (p : π),
    reads protocol.decoderFeed getData p pulses = reads protocol.store getData p
      (bitsOf (protocol.state p) (pulses.map (protocol.times p).event))
  | [], _ => rfl
  | pulse :: pulses, p => by
    have hfeed : protocol.decoderFeed p pulse =
        if (protocol.times p).event pulse ≠ .reset then
          (manchesterAdvance (protocol.state p) ((protocol.times p).event pulse)).2.elim
            (false, protocol.setState p
              (manchesterAdvance (protocol.state p) ((protocol.times p).event pulse)).1)
            (protocol.store (protocol.setState p
              (manchesterAdvance (protocol.state p) ((protocol.times p).event pulse)).1))
        else (false, p) := by
      rw [decoderFeed]
      dsimp only
      split_ifs
      · rcases manchesterAdvance (protocol.state p) ((protocol.times p).event pulse) with
          ⟨state, _ | data⟩ <;> rfl
      · rfl
    rw [reads, hfeed, List.map_cons, bitsOf]
    by_cases hreset : (protocol.times p).event pulse = .reset
    · rw [if_neg (not_not.2 hreset), if_pos hreset, if_neg Bool.false_ne_true]
      exact reads_decoderFeed pulses p
    · rw [if_pos hreset, if_neg hreset]
      obtain ⟨⟨state, data⟩, hadvance⟩ : ∃ advanced, advanced =
        manchesterAdvance (protocol.state p) ((protocol.times p).event pulse) := ⟨_, rfl⟩
      rw [← hadvance]
      cases data with
      | none =>
        simp only [Option.elim_none, Bool.false_eq_true, if_false]
        rw [reads_decoderFeed, h.state_setState, h.times_setState,
          reads_setState h]
        rfl
      | some data =>
        simp only [Option.elim_some, h.store_setState, Option.toList_some, List.singleton_append, reads,
          h.getData_setState, reads_decoderFeed, h.state_setState, h.times_setState,
          h.times_store, reads_setState h]

end ManchesterProtocol

/-! ## Halves of bits -/

/-- What is sent for these bits. -/
def halves (duration : ℕ) (bits : List Bool) : List LevelDuration :=
  bits.flatMap fun bit => [⟨bit, duration⟩, ⟨!bit, duration⟩]

/-- The first half of a bit, if any. -/
def half (duration : ℕ) (bit : Option Bool) : List LevelDuration :=
  bit.toList.map fun bit => ⟨bit, duration⟩

/-- The times tell a half of a bit and two of them apart. -/
structure ReadTimes.Fits (times : ReadTimes) (duration : ℕ) : Prop where
  short (level : Bool) : times.event ⟨level, duration * CLOCK_TIME⟩ =
    if level then .shortLow else .shortHigh
  long (level : Bool) : times.event ⟨level, (duration + duration) * CLOCK_TIME⟩ =
    if level then .longLow else .longHigh

/-- What is read of these bits, and of the first half of one more, if the first of them is taken for
the end of a one. -/
def slip : List Bool → Option Bool → List Bool
  | [], some true => []
  | [], _ => [true]
  | true :: bits, last => bits ++ last.toList
  | false :: bits, last => true :: slip bits last

/-- What is read of these bits after a reset. -/
def received : List Bool → Option Bool → List Bool
  | [], _ => []
  | true :: bits, last => bits ++ last.toList
  | false :: bits, last => slip bits last

/-- The state in the middle of a bit. -/
def ManchesterState.mid (bit : Bool) : ManchesterState := if bit then .mid1 else .mid0

/-- The events on the line, from a level on. -/
def eventsFrom (times : ReadTimes) (pulse : LevelDuration) (pulses : List LevelDuration) :
    List ManchesterEvent :=
  (joinTo pulse pulses).map fun pulse => times.event ⟨pulse.level, pulse.duration * CLOCK_TIME⟩

section Line

variable {times : ReadTimes} {duration : ℕ} (h : times.Fits duration)
include h

theorem eventsFrom_nil (level : Bool) :
    eventsFrom times ⟨level, duration⟩ [] = [if level then .shortLow else .shortHigh] := by
  rw [eventsFrom, joinTo, List.map_cons, h.short]
  rfl

theorem eventsFrom_half (level bit : Bool) :
    eventsFrom times ⟨level, duration⟩ (half duration (some bit)) =
      if bit = level then [if level then .longLow else .longHigh]
      else [if level then .shortLow else .shortHigh, if bit then .shortLow else .shortHigh] := by
  rw [eventsFrom, half, Option.toList_some, List.map_singleton, joinTo]
  dsimp only
  by_cases hbit : bit = level
  · rw [if_pos hbit, if_pos hbit, joinTo, List.map_singleton, h.long]
  · rw [if_neg hbit, if_neg hbit, joinTo, List.map_cons, List.map_singleton, h.short, h.short]

theorem eventsFrom_long (level : Bool) (bits : List Bool) (rest : List LevelDuration) :
    eventsFrom times ⟨level, duration⟩ (halves duration (level :: bits) ++ rest) =
      (if level then .longLow else .longHigh) ::
        eventsFrom times ⟨!level, duration⟩ (halves duration bits ++ rest) := by
  rw [eventsFrom, halves, List.flatMap_cons, List.append_assoc, List.cons_append, joinTo,
    if_pos rfl, List.cons_append, joinTo, if_neg (by simp), List.map_cons, h.long]
  rfl

theorem eventsFrom_short (level : Bool) (bits : List Bool) (rest : List LevelDuration) :
    eventsFrom times ⟨level, duration⟩ (halves duration ((!level) :: bits) ++ rest) =
      (if level then .shortLow else .shortHigh) :: (if level then .shortHigh else .shortLow) ::
        eventsFrom times ⟨level, duration⟩ (halves duration bits ++ rest) := by
  rw [eventsFrom, halves, List.flatMap_cons, List.append_assoc, List.cons_append, joinTo,
    if_neg (by simp), List.cons_append, joinTo, if_neg (by simp), List.map_cons, List.map_cons,
    h.short, h.short, Bool.not_not]
  cases level <;> rfl

theorem bitsOf_mid (last : Option Bool) : ∀ (bits : List Bool) (bit : Bool), bitsOf (.mid bit)
    (eventsFrom times ⟨!bit, duration⟩ (halves duration bits ++ half duration last)) =
      bits ++ last.toList
  | [], bit => by
    rw [halves, List.flatMap_nil, List.nil_append]
    cases last with
    | none =>
      rw [half, Option.toList_none, List.map_nil, eventsFrom_nil h]
      cases bit <;> rfl
    | some last =>
      rw [eventsFrom_half h]
      cases bit <;> cases last <;> rfl
  | next :: bits, bit => by
    have ih := bitsOf_mid last bits next
    by_cases hnext : next = !bit
    · rw [← hnext, eventsFrom_long h]
      cases bit <;> cases hnext <;> exact congrArg _ ih
    · have hsame : next = bit := by
        cases next <;> cases bit <;> first | rfl | exact absurd rfl hnext
      rw [hsame] at ih ⊢
      have hshort := eventsFrom_short h (!bit) bits (half duration last)
      rw [Bool.not_not] at hshort
      rw [hshort]
      cases bit <;> exact congrArg _ ih

theorem bitsOf_start1 (last : Option Bool) : ∀ bits : List Bool, bitsOf .start1
    (eventsFrom times ⟨true, duration⟩ (halves duration bits ++ half duration last)) =
      slip bits last
  | [] => by
    rw [halves, List.flatMap_nil, List.nil_append]
    cases last with
    | none =>
      rw [half, Option.toList_none, List.map_nil, eventsFrom_nil h]
      rfl
    | some last =>
      rw [eventsFrom_half h]
      cases last <;> rfl
  | true :: bits => by
    rw [eventsFrom_long h]
    exact bitsOf_mid h last bits true
  | false :: bits => by
    have hshort := eventsFrom_short h true bits (half duration last)
    rw [Bool.not_true] at hshort
    rw [hshort]
    exact congrArg _ (bitsOf_start1 last bits)

theorem bitsOf_halves (bits : List Bool) (last : Option Bool) : bitsOf manchesterResetState
    ((onLine (halves duration bits ++ half duration last)).map times.event) =
      received bits last := by
  cases bits with
  | nil =>
    cases last with
    | none => rfl
    | some last =>
      have hshort := h.short last
      rw [halves, List.flatMap_nil, List.nil_append]
      show bitsOf manchesterResetState [times.event ⟨last, duration * CLOCK_TIME⟩] = []
      rw [hshort]
      cases last <;> rfl
  | cons bit bits =>
    have hjoin : (onLine (halves duration (bit :: bits) ++ half duration last)).map times.event =
        (if bit then .shortLow else .shortHigh) ::
          eventsFrom times ⟨!bit, duration⟩ (halves duration bits ++ half duration last) := by
      rw [halves, List.flatMap_cons, List.append_assoc, List.cons_append, onLine, List.map_map,
        List.cons_append, joinTo, if_neg (by simp), List.map_cons, Function.comp_apply, h.short]
      rfl
    rw [hjoin]
    cases bit with
    | true => exact bitsOf_mid h last bits true
    | false => exact bitsOf_start1 h last bits

end Line

/-! ## Streams of bits -/

section Streams

/-- The first bits of a stream, and perhaps the first half of the next one. -/
def First (next : ℕ → Bool) (count : ℕ) (bits : List Bool) (last : Option Bool) : Prop :=
  bits = (List.range count).map next ∧ (last = none ∨ last = some (next count))

variable {next : ℕ → Bool} {count : ℕ} {bits : List Bool} {last : Option Bool}

theorem First.tail {bit : Bool} (h : First next (count + 1) (bit :: bits) last) :
    bit = next 0 ∧ First (fun i => next (i + 1)) count bits last := by
  obtain ⟨hbits, hlast⟩ := h
  rw [List.range_succ_eq_map, List.map_cons, List.map_map] at hbits
  obtain ⟨hbit, hrest⟩ := List.cons.inj hbits
  exact ⟨hbit, hrest, hlast⟩

theorem First.append (h : First next count bits last) :
    ∃ m, count ≤ m ∧ bits ++ last.toList = (List.range m).map next := by
  obtain ⟨hbits, hlast | hlast⟩ := h
  · exact ⟨count, le_rfl, by rw [hbits, hlast, Option.toList_none, List.append_nil]⟩
  · refine ⟨count + 1, Nat.le_succ _, ?_⟩
    rw [hbits, hlast, Option.toList_some, List.range_succ, List.map_append, List.map_singleton]

theorem First.exists_cons (h : First next (count + 1) bits last) :
    ∃ rest, bits = next 0 :: rest ∧ First (fun i => next (i + 1)) count rest last := by
  cases bits with
  | nil =>
    have hlength := congrArg List.length h.1
    simp at hlength
  | cons bit rest =>
    obtain ⟨hbit, hrest⟩ := h.tail
    exact ⟨rest, by rw [hbit], hrest⟩

theorem received_zero_ones (h : First next count bits last) (h₀ : next 0 = false)
    (h₁ : next 1 = true) (h₂ : next 2 = true) : ∃ m, count ≤ m + 2 ∧
      received bits last = (List.range m).map fun i => next (i + 2) := by
  rcases count with _ | _ | count
  · obtain ⟨rfl, -⟩ := h
    exact ⟨0, by omega, rfl⟩
  · obtain ⟨rfl, hlast⟩ := h
    have hrange : (List.range (0 + 1)).map next = [false] := congrArg (fun bit => [bit]) h₀
    rw [hrange]
    rcases hlast with rfl | rfl
    · exact ⟨1, by omega, congrArg (fun bit => [bit]) h₂.symm⟩
    · rw [zero_add, h₁]
      exact ⟨0, by omega, rfl⟩
  · obtain ⟨tail, rfl, htail⟩ := h.exists_cons
    obtain ⟨rest, rfl, hrest⟩ := htail.exists_cons
    obtain ⟨m, hm, hreads⟩ := hrest.append
    refine ⟨m, by omega, ?_⟩
    rw [h₀, zero_add, h₁]
    exact hreads

end Streams

/-! ## The encoder of a protocol -/

namespace ManchesterEncoder

variable {π : Type}

/-- How far a protocol has come is kept apart from all that it sends. -/
structure Lawful (encoder : ManchesterEncoder π) : Prop where
  bit (p : π) (index : ℕ) (polarity : Bool) :
    encoder.bit (encoder.setIndex p index polarity) = encoder.bit p
  duration (p : π) (index : ℕ) (polarity : Bool) :
    encoder.duration (encoder.setIndex p index polarity) = encoder.duration p
  bitSize (p : π) (index : ℕ) (polarity : Bool) :
    encoder.bitSize (encoder.setIndex p index polarity) = encoder.bitSize p
  index (p : π) (index : ℕ) (polarity : Bool) :
    encoder.index (encoder.setIndex p index polarity) = index
  polarity (p : π) (index : ℕ) (polarity : Bool) :
    encoder.polarity (encoder.setIndex p index polarity) = polarity

/-- The bits that are sent from now on, again and again the same ones. -/
def next (encoder : ManchesterEncoder π) (p : π) (i : ℕ) : Bool :=
  encoder.bit p ((encoder.index p + i) % encoder.bitSize p)

variable {encoder : ManchesterEncoder π}

theorem next_succ {p q : π} (hindex : encoder.index q = (encoder.index p + 1) % encoder.bitSize p)
    (hbit : encoder.bit q = encoder.bit p) (hsize : encoder.bitSize q = encoder.bitSize p) :
    encoder.next q = fun i => encoder.next p (i + 1) := by
  funext i
  rw [next, next, hindex, hbit, hsize, Nat.mod_add_mod, Nat.add_assoc, Nat.add_comm 1 i]

variable (h : encoder.Lawful)
include h

theorem encoderYield_twice {p : π} (hpolarity : encoder.polarity p = true) : ∃ q,
    (encoder.encoderYield p).1 = ⟨encoder.bit p (encoder.index p), encoder.duration p⟩ ∧
    encoder.encoderYield (encoder.encoderYield p).2 =
      (⟨!encoder.bit p (encoder.index p), encoder.duration p⟩, q) ∧
    encoder.polarity q = true ∧ encoder.index q = (encoder.index p + 1) % encoder.bitSize p ∧
    encoder.bit q = encoder.bit p ∧ encoder.bitSize q = encoder.bitSize p ∧
    encoder.duration q = encoder.duration p := by
  obtain ⟨middle, hmiddle⟩ : ∃ middle, middle = encoder.setIndex p (encoder.index p) false :=
    ⟨_, rfl⟩
  have hfirst : encoder.encoderYield p =
      (⟨encoder.bit p (encoder.index p), encoder.duration p⟩, middle) := by
    rw [encoderYield, if_pos hpolarity, hmiddle]
  have hsecond : encoder.encoderYield middle =
      (⟨!encoder.bit p (encoder.index p), encoder.duration p⟩,
        encoder.setIndex middle ((encoder.index p + 1) % encoder.bitSize p) true) := by
    have hfalse : encoder.polarity middle = false := by rw [hmiddle, h.polarity]
    rw [encoderYield, if_neg (by rw [hfalse]; exact Bool.false_ne_true), hmiddle, h.bit,
      h.duration, h.index, h.bitSize]
  refine ⟨_, by rw [hfirst], by rw [hfirst]; exact hsecond, h.polarity _ _ _, h.index _ _ _, ?_, ?_,
    ?_⟩
  · rw [h.bit, hmiddle, h.bit]
  · rw [h.bitSize, hmiddle, h.bitSize]
  · rw [h.duration, hmiddle, h.duration]

theorem yields_whole : ∀ (count : ℕ) {p : π}, encoder.polarity p = true →
    encoder.index p < encoder.bitSize p → ∃ bits last,
      yields encoder.encoderYield count p =
        halves (encoder.duration p) bits ++ half (encoder.duration p) last ∧
      First (encoder.next p) (count / 2) bits last
  | 0, _, _, _ => ⟨[], none, rfl, rfl, .inl rfl⟩
  | 1, p, hpolarity, hindex => by
    obtain ⟨q, hfirst, -⟩ := encoderYield_twice h hpolarity
    refine ⟨[], some (encoder.bit p (encoder.index p)), ?_, rfl, .inr (congrArg some ?_)⟩
    · rw [yields, yields, hfirst]
      rfl
    · rw [next, Nat.add_zero, Nat.mod_eq_of_lt hindex]
  | count + 2, p, hpolarity, hindex => by
    obtain ⟨q, hfirst, hsecond, hq, hnext, hbit, hsize, hduration⟩ :=
      encoderYield_twice h hpolarity
    have hpos : 0 < encoder.bitSize p := by omega
    obtain ⟨bits, last, hyields, hbits⟩ := yields_whole count hq
      (by rw [hnext, hsize]; exact Nat.mod_lt _ hpos)
    refine ⟨encoder.next p 0 :: bits, last, ?_, ?_⟩
    · rw [yields, yields, hfirst, hsecond, hyields, hduration, next, Nat.add_zero,
        Nat.mod_eq_of_lt hindex]
      rfl
    · rw [next_succ hnext hbit hsize] at hbits
      obtain ⟨hbits, hlast⟩ := hbits
      rw [show (count + 2) / 2 = count / 2 + 1 by omega]
      refine ⟨?_, hlast⟩
      rw [hbits, List.range_succ_eq_map, List.map_cons, List.map_map]
      rfl

end ManchesterEncoder

end KiisuFirmware
