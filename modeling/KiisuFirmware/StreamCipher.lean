import Mathlib.Tactic

/-!
# Stream ciphers

A register that takes a bit and gives a bit of a key stream (`stream`). The bits of a word are taken
one after the other, wherever the next one is, and those of the key stream go to the same places
(`words`). What is undone bit by bit is undone as a whole, from its last bit on
(`stream_undone`, `words_undone`).
-/

namespace KiisuFirmware

variable {σ : Type*} {w : ℕ}

/-- The key stream for these bits, and what becomes of the register. -/
def stream (step : Bool → σ → Bool × σ) : List Bool → σ → List Bool × σ
  | [], s => ([], s)
  | bit :: bits, s =>
    let (out, s) := step bit s
    let (outs, s) := stream step bits s
    (out :: outs, s)

/-- A bit at its place. -/
def placeBit (w : ℕ) (bit : Bool) (place : ℕ) : BitVec w := (BitVec.ofBool bit).setWidth w <<< place

/-- The key stream for the bits at these places, each of its bits at the place it is for. -/
def words (step : Bool → σ → Bool × σ) (input : BitVec w) (places : List ℕ) (s : σ) :
    BitVec w × σ :=
  places.foldl (fun (out, s) place =>
    let (bit, s) := step (input.getLsbD place) s
    (out ||| placeBit w bit place, s)) (0, s)

/-- Bits put together at places. -/
def collect (w : ℕ) (bits : List (Bool × ℕ)) : BitVec w :=
  (bits.map fun bit => placeBit w bit.1 bit.2).foldr (· ||| ·) 0

section Collect

theorem getLsbD_placeBit (bit : Bool) (place i : ℕ) :
    (placeBit w bit place).getLsbD i = (decide (i < w) && bit && decide (i = place)) := by
  simp only [placeBit, BitVec.getLsbD_shiftLeft, BitVec.getLsbD_setWidth, BitVec.getLsbD_ofBool]
  rcases Nat.lt_trichotomy i place with h | rfl | h
  · simp [h, Nat.ne_of_lt h]
  · by_cases hw : i < w
    · simp [hw, Nat.lt_of_le_of_lt (Nat.zero_le i) hw]
    · simp [hw]
  · simp [Nat.ne_of_gt h, Nat.sub_ne_zero_of_lt h]

theorem getLsbD_collect (bits : List (Bool × ℕ)) {i : ℕ} (hi : i < w) :
    (collect w bits).getLsbD i = bits.any fun bit => bit.1 && decide (i = bit.2) := by
  induction bits with
  | nil => simp [collect]
  | cons bit bits ih =>
    have hstep : collect w (bit :: bits) = placeBit w bit.1 bit.2 ||| collect w bits := rfl
    rw [hstep, BitVec.getLsbD_or, ih, getLsbD_placeBit, decide_eq_true hi, Bool.true_and,
      List.any_cons]

theorem getLsbD_collect_of_mem {bits : List (Bool × ℕ)} (hnodup : (bits.map Prod.snd).Nodup)
    {bit : Bool} {place : ℕ} (hmem : (bit, place) ∈ bits) (hplace : place < w) :
    (collect w bits).getLsbD place = bit := by
  rw [getLsbD_collect bits hplace]
  rcases bit with _ | _
  · rw [List.any_eq_false]
    rintro ⟨other, place'⟩ hother
    rcases eq_or_ne place place' with rfl | hne
    · have heq := List.inj_on_of_nodup_map hnodup hother hmem rfl
      simp [(Prod.mk.inj heq).1]
    · simp [hne]
  · exact List.any_eq_true.2 ⟨_, hmem, by simp⟩

theorem collect_reverse (bits : List (Bool × ℕ)) : collect w bits.reverse = collect w bits := by
  refine BitVec.eq_of_getLsbD_eq fun i hi => ?_
  rw [getLsbD_collect _ hi, getLsbD_collect _ hi, List.any_reverse]

theorem collect_append (bits bits' : List (Bool × ℕ)) :
    collect w (bits ++ bits') = collect w bits ||| collect w bits' := by
  refine BitVec.eq_of_getLsbD_eq fun i hi => ?_
  rw [BitVec.getLsbD_or, getLsbD_collect _ hi, getLsbD_collect _ hi, getLsbD_collect _ hi,
    List.any_append]

theorem collect_add {v : ℕ} (offset : ℕ) {bits : List (Bool × ℕ)}
    (hbits : ∀ bit ∈ bits, bit.2 < v) :
    collect w (bits.map fun bit => (bit.1, bit.2 + offset)) =
      (collect v bits).setWidth w <<< offset := by
  refine BitVec.eq_of_getLsbD_eq fun i hi => ?_
  rw [getLsbD_collect _ hi, BitVec.getLsbD_shiftLeft, BitVec.getLsbD_setWidth, List.any_map,
    decide_eq_true hi, decide_eq_true (Nat.lt_of_le_of_lt (Nat.sub_le i offset) hi), Bool.true_and,
    Bool.true_and]
  rcases Nat.lt_or_ge i offset with hlt | hge
  · rw [decide_eq_true hlt, Bool.not_true, Bool.false_and, List.any_eq_false]
    rintro ⟨bit, place⟩ -
    simp [show i ≠ place + offset by omega]
  · rw [decide_eq_false (Nat.not_lt.2 hge), Bool.not_false, Bool.true_and]
    have hplace : ∀ bit : Bool × ℕ, decide (i = bit.2 + offset) = decide (i - offset = bit.2) :=
      fun bit => decide_eq_decide.2 (by omega)
    rcases Nat.lt_or_ge (i - offset) v with hv | hv
    · rw [getLsbD_collect _ hv]
      simp only [Function.comp_def, hplace]
    · rw [BitVec.getLsbD_of_ge _ _ hv, List.any_eq_false]
      intro bit hbit
      have hlt := hbits bit hbit
      simp [show i ≠ bit.2 + offset by omega]

end Collect

section Stream

variable (step : Bool → σ → Bool × σ)

@[simp] theorem length_stream (bits : List Bool) (s : σ) :
    (stream step bits s).1.length = bits.length := by
  induction bits generalizing s with
  | nil => rfl
  | cons bit bits ih => simp [stream, ih]

theorem stream_append (bits bits' : List Bool) (s : σ) :
    stream step (bits ++ bits') s =
      ((stream step bits s).1 ++ (stream step bits' (stream step bits s).2).1,
        (stream step bits' (stream step bits s).2).2) := by
  induction bits generalizing s with
  | nil => rfl
  | cons bit bits ih => simp [stream, ih]

theorem words_eq (input : BitVec w) (places : List ℕ) (s : σ) :
    words step input places s =
      (collect w ((stream step (places.map input.getLsbD) s).1.zip places),
        (stream step (places.map input.getLsbD) s).2) := by
  have hfrom : ∀ (out : BitVec w), places.foldl (fun (out, s) place =>
      let (bit, s) := step (input.getLsbD place) s
      (out ||| placeBit w bit place, s)) (out, s) =
        (out ||| collect w ((stream step (places.map input.getLsbD) s).1.zip places),
          (stream step (places.map input.getLsbD) s).2) := by
    induction places generalizing s with
    | nil => simp [stream, collect]
    | cons place places ih =>
      intro out
      rw [List.foldl_cons, ih]
      simp [stream, collect, BitVec.or_assoc]
  rw [words, hfrom 0]
  exact congrArg (·, _) BitVec.zero_or

theorem getLsbD_words {input : BitVec w} {places : List ℕ} (hnodup : places.Nodup) (s : σ) {i : ℕ}
    (hi : i < places.length) (hplace : places[i] < w) :
    (words step input places s).1.getLsbD places[i] =
      (stream step (places.map input.getLsbD) s).1.get ⟨i, by simpa using hi⟩ := by
  rw [words_eq]
  have hlen : (stream step (places.map input.getLsbD) s).1.length = places.length := by simp
  refine getLsbD_collect_of_mem ?_ (List.mem_iff_getElem.2 ⟨i, by simp [hi], by simp⟩) hplace
  rw [← List.unzip_snd, List.unzip_zip_right (by rw [hlen])]
  exact hnodup

/-- A step that adds its output to what is fed in, fed with what the output was added to. -/
theorem stream_feedback {step step' : Bool → σ → Bool × σ}
    (h : ∀ bit s, step' (bit ^^ (step bit s).1) s = step bit s) (bits : List Bool) (s : σ) :
    stream step' (List.zipWith xor bits (stream step bits s).1) s = stream step bits s := by
  induction bits generalizing s with
  | nil => rfl
  | cons bit bits ih => simp [stream, h, ih]

theorem words_feedback {step step' : Bool → σ → Bool × σ}
    (h : ∀ bit s, step' (bit ^^ (step bit s).1) s = step bit s) (input : BitVec w)
    {places : List ℕ} (hnodup : places.Nodup) (hplaces : ∀ place ∈ places, place < w) (s : σ) :
    words step' (input ^^^ (words step input places s).1) places s = words step input places s := by
  have hbits : places.map (input ^^^ (words step input places s).1).getLsbD =
      List.zipWith xor (places.map input.getLsbD) (stream step (places.map input.getLsbD) s).1 := by
    refine List.ext_getElem (by simp) fun i hi _ => ?_
    have hlen : i < places.length := by simpa using hi
    rw [List.getElem_map, BitVec.getLsbD_xor, List.getElem_zipWith, List.getElem_map,
      getLsbD_words step hnodup s hlen (hplaces _ (List.getElem_mem hlen)), List.get_eq_getElem]
  rw [words_eq step', hbits, stream_feedback h, words_eq]

end Stream

/-! ## Undoing -/

/-- A step that goes back undoes one that goes on, between registers that are alike. -/
structure Undoes (step back : Bool → σ → Bool × σ) (Alike : σ → σ → Prop) : Prop where
  back_step : ∀ bit s, (back bit (step bit s).2).1 = (step bit s).1 ∧
    Alike (back bit (step bit s).2).2 s
  back_alike : ∀ bit {s t}, Alike s t → (back bit s).1 = (back bit t).1 ∧
    Alike (back bit s).2 (back bit t).2
  trans : ∀ {s t u}, Alike s t → Alike t u → Alike s u

namespace Undoes

variable {step back : Bool → σ → Bool × σ} {Alike : σ → σ → Prop} (h : Undoes step back Alike)
include h

theorem stream_undone (bits : List Bool) (s : σ) {t : σ} (ht : Alike t (stream step bits s).2) :
    (stream back bits.reverse t).1 = (stream step bits s).1.reverse ∧
      Alike (stream back bits.reverse t).2 s := by
  induction bits generalizing s with
  | nil => exact ⟨rfl, ht⟩
  | cons bit bits ih =>
    obtain ⟨houts, halike⟩ := ih (step bit s).2 ht
    obtain ⟨hout, hback⟩ := h.back_alike bit halike
    obtain ⟨hout', hundone⟩ := h.back_step bit s
    rw [List.reverse_cons, stream_append, houts]
    refine ⟨?_, h.trans hback hundone⟩
    simp [stream, hout, hout']

/-- Going back through the places finds the same word, and what the register was. -/
theorem words_undone (input : BitVec w) (places : List ℕ) (s : σ) {t : σ}
    (ht : Alike t (words step input places s).2) :
    (words back input places.reverse t).1 = (words step input places s).1 ∧
      Alike (words back input places.reverse t).2 s := by
  rw [words_eq] at ht
  obtain ⟨houts, halike⟩ := h.stream_undone _ s ht
  rw [words_eq, words_eq, List.map_reverse, houts]
  refine ⟨?_, halike⟩
  have hlen : (stream step (places.map input.getLsbD) s).1.length = places.length := by simp
  have hzip : ((stream step (places.map input.getLsbD) s).1.zip places).reverse =
      (stream step (places.map input.getLsbD) s).1.reverse.zip places.reverse :=
    List.zip_of_prod (by rw [List.map_reverse, List.map_fst_zip hlen.le])
      (by rw [List.map_reverse, List.map_snd_zip hlen.ge])
  dsimp only
  rw [← hzip, collect_reverse]

end Undoes

end KiisuFirmware
