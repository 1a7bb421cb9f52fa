import Mathlib.Tactic

/-!
# Programs that may end early

A program works on a state and gives a result, or ends early and says why; the state stays as the
program has left it. `Ends x s Q E` says that `x`, begun in `s`, leads to `Q` if it gives a result
and to `E` if it ends early. It follows the program: one rule for each way of putting programs
together, and loops by induction on what bounds them.

A program may keep the events of its past, the last one first. `Throughout R` says that each event
was right when it happened, given what had happened before.
-/

namespace KiisuFirmware

abbrev Program (σ ε : Type) := ExceptT ε (StateM σ)

variable {σ ε α β : Type}

def Ends (x : Program σ ε α) (s : σ) (Q : α → σ → Prop) (E : ε → σ → Prop) : Prop :=
  match x s with
  | (.ok a, s') => Q a s'
  | (.error e, s') => E e s'

variable {x : Program σ ε α} {s : σ} {Q Q' : α → σ → Prop} {E E' : ε → σ → Prop}

theorem Ends.pure {a : α} (h : Q a s) : Ends (Pure.pure a : Program σ ε α) s Q E := h

theorem Ends.throw {e : ε} (h : E e s) : Ends (MonadExcept.throw e : Program σ ε α) s Q E := h

theorem Ends.get {Q : σ → σ → Prop} (h : Q s s) :
    Ends (MonadState.get : Program σ ε σ) s Q E := h

theorem Ends.modify {f : σ → σ} {Q : Unit → σ → Prop} (h : Q () (f s)) :
    Ends (modify f : Program σ ε Unit) s Q E := h

theorem Ends.bind {f : α → Program σ ε β} {R : β → σ → Prop} (hx : Ends x s Q E)
    (hf : ∀ a s', Q a s' → Ends (f a) s' R E) : Ends (x >>= f) s R E := by
  unfold Ends at hx
  show match (x >>= f) s with
    | (.ok a, s') => R a s'
    | (.error e, s') => E e s'
  have hbind : (x >>= f) s = match x s with
      | (.ok a, s') => f a s'
      | (.error e, s') => (.error e, s') := by
    show (match (x s).1 with
      | .ok a => f a
      | .error e => Pure.pure (.error e) : StateM σ (Except ε β)) (x s).2 = _
    rcases x s with ⟨a | e, s'⟩ <;> rfl
  rw [hbind]
  rcases hxs : x s with ⟨e | a, s'⟩
  · rw [hxs] at hx
    exact hx
  · rw [hxs] at hx
    exact hf a s' hx

theorem Ends.next {f : α → Program σ ε β} {R : β → σ → Prop}
    (h : Ends x s (fun a s' => Ends (f a) s' R E) E) : Ends (x >>= f) s R E :=
  h.bind fun _ _ h => h

theorem Ends.ite {c : Prop} [Decidable c] {y : Program σ ε α} (hx : c → Ends x s Q E)
    (hy : ¬c → Ends y s Q E) : Ends (if c then x else y) s Q E := by
  by_cases h : c
  · rw [if_pos h]
    exact hx h
  · rw [if_neg h]
    exact hy h

theorem Ends.of_run {r : Except ε α} {s' : σ} (h : Ends x s Q E) (hrun : x s = (r, s')) :
    (∀ a, r = .ok a → Q a s') ∧ ∀ e, r = .error e → E e s' := by
  unfold Ends at h
  rw [hrun] at h
  refine ⟨fun a ha => ?_, fun e he => ?_⟩
  · subst ha
    exact h
  · subst he
    exact h

section History

variable {ι : Type} {R R' : List ι → ι → Prop}

def Throughout (R : List ι → ι → Prop) : List ι → Prop
  | [] => True
  | e :: past => R past e ∧ Throughout R past

theorem Throughout.imp (h : ∀ past e, R past e → R' past e) :
    ∀ {past : List ι}, Throughout R past → Throughout R' past
  | [], _ => trivial
  | e :: past, ⟨he, hpast⟩ => ⟨h past e he, hpast.imp h⟩

theorem Throughout.and : ∀ {past : List ι}, Throughout R past → Throughout R' past →
    Throughout (fun past e => R past e ∧ R' past e) past
  | [], _, _ => trivial
  | _ :: _, ⟨he, hpast⟩, ⟨he', hpast'⟩ => ⟨⟨he, he'⟩, hpast.and hpast'⟩

/-- What holds throughout a history holds throughout that of each of its events. -/
theorem Throughout.before : ∀ {past : List ι}, Throughout R past →
    Throughout (fun past _ => Throughout R past) past
  | [], _ => trivial
  | _ :: _, ⟨_, hpast⟩ => ⟨hpast, hpast.before⟩

theorem throughout_append {es past : List ι} (h : ∀ e ∈ es, ∀ past, R past e) :
    Throughout R (es ++ past) ↔ Throughout R past := by
  induction es with
  | nil => rfl
  | cons e es ih =>
    rw [List.cons_append, Throughout, ih fun e he => h e (List.mem_cons_of_mem _ he)]
    exact and_iff_right (h e List.mem_cons_self _)

instance Throughout.decidable [∀ past e, Decidable (R past e)] :
    ∀ past, Decidable (Throughout R past)
  | [] => .isTrue trivial
  | _ :: past => @instDecidableAnd _ _ _ (Throughout.decidable past)

end History

end KiisuFirmware
