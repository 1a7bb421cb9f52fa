import Mathlib.Tactic

/-!
# Runs of a machine

A machine is a step function from a state and an input to an output and a state. `run` collects
the outputs of a sequence of inputs. Two machines whose steps agree wherever a relation holds
between their states, and keep it, give equal outputs on every sequence (`run_sim`); the steps
may be asked to agree only on the inputs a condition on the state lets through (`Along`).

A transition system is a step function without outputs that may end everything with an error:
`exec` follows a sequence of actions, and what holds at the start and survives each step the
condition lets through holds wherever such a sequence leads (`exec_inv`).
-/

namespace KiisuFirmware

section Machine

variable {σ τ ι ω : Type*}

/-- The outputs of a sequence of inputs, and the state it leads to. -/
def run (step : σ → ι → ω × σ) : σ → List ι → List ω × σ
  | s, [] => ([], s)
  | s, i :: is =>
    let r := run step (step s i).2 is
    ((step s i).1 :: r.1, r.2)

/-- Every step of the run meets the condition, in the state it is taken in. -/
def Along (ok : σ → ι → Prop) (step : σ → ι → ω × σ) : σ → List ι → Prop
  | _, [] => True
  | s, i :: is => ok s i ∧ Along ok step (step s i).2 is

variable {step : σ → ι → ω × σ} {step' : τ → ι → ω × τ} {ok : σ → ι → Prop}

theorem run_sim (R : σ → τ → Prop)
    (h : ∀ s t i, R s t → ok s i → (step s i).1 = (step' t i).1 ∧ R (step s i).2 (step' t i).2) :
    ∀ (is : List ι) {s : σ} {t : τ}, R s t → Along ok step s is →
      (run step s is).1 = (run step' t is).1 ∧ R (run step s is).2 (run step' t is).2
  | [], s, t, hR, _ => ⟨rfl, hR⟩
  | i :: is, s, t, hR, ⟨hi, his⟩ => by
    obtain ⟨ho, hs⟩ := h s t i hR hi
    obtain ⟨hos, hf⟩ := run_sim R h is hs his
    refine ⟨?_, hf⟩
    simp only [run]
    rw [ho, hos]

/-- The outputs of a machine that may stop for good, and the state it leads to. -/
def runUntil (step : σ → ι → Option (ω × σ)) : σ → List ι → Option (List ω × σ)
  | s, [] => some ([], s)
  | s, i :: is => do
    let (o, s') ← step s i
    let (os, s'') ← runUntil step s' is
    return (o :: os, s'')

/-- A machine that may stop agrees with one that does not, for as long as it goes on. -/
theorem runUntil_sim {step : σ → ι → Option (ω × σ)} (R : σ → τ → Prop) (ok : ι → Prop)
    (h : ∀ s t i o s', R s t → ok i → step s i = some (o, s') →
      o = (step' t i).1 ∧ R s' (step' t i).2) :
    ∀ (is : List ι) {s : σ} {t : τ} {os : List ω} {s' : σ}, R s t → (∀ i ∈ is, ok i) →
      runUntil step s is = some (os, s') →
      os = (run step' t is).1 ∧ R s' (run step' t is).2
  | [], s, t, os, s', hR, _, hrun => by
    simp only [runUntil, Option.some.injEq, Prod.mk.injEq] at hrun
    obtain ⟨rfl, rfl⟩ := hrun
    exact ⟨rfl, hR⟩
  | i :: is, s, t, os, s', hR, hok, hrun => by
    simp only [runUntil, Option.bind_eq_bind, Option.bind_eq_some_iff, Prod.exists] at hrun
    obtain ⟨o, s₁, h₁, os₁, s₂, h₂, heq⟩ := hrun
    simp only [Option.pure_def, Option.some.injEq, Prod.mk.injEq] at heq
    obtain ⟨rfl, rfl⟩ := heq
    obtain ⟨rfl, hR₁⟩ := h s t i o s₁ hR (hok i (by simp)) h₁
    obtain ⟨rfl, hR₂⟩ := runUntil_sim R ok h is hR₁ (fun j hj => hok j (by simp [hj])) h₂
    exact ⟨rfl, hR₂⟩

theorem runUntil_isSome {step : σ → ι → Option (ω × σ)} (R : σ → τ → Prop) (fits : τ → ι → Prop)
    (ok : ι → Prop)
    (h : ∀ s t i, R s t → ok i → fits t i →
      ∃ o s', step s i = some (o, s') ∧ R s' (step' t i).2) :
    ∀ (is : List ι) {s : σ} {t : τ}, R s t → (∀ i ∈ is, ok i) → Along fits step' t is →
      (runUntil step s is).isSome
  | [], s, t, _, _, _ => rfl
  | i :: is, s, t, hR, hok, ⟨hi, his⟩ => by
    obtain ⟨o, s', hs, hR'⟩ := h s t i hR (hok i (by simp)) hi
    have ih := runUntil_isSome R fits ok h is hR' (fun j hj => hok j (by simp [hj])) his
    obtain ⟨⟨os, s''⟩, hrun⟩ := Option.isSome_iff_exists.1 ih
    simp [runUntil, hs, hrun]

/-- Every step that can be taken meets the condition, in the state it is taken in. -/
def UntilAlong (ok : σ → ι → Prop) (step : σ → ι → Option (ω × σ)) : σ → List ι → Prop
  | _, [] => True
  | s, i :: is => ok s i ∧ ∀ r, step s i = some r → UntilAlong ok step r.2 is

/-- A machine that may stop goes on like one that does not, where the condition is met. -/
theorem runUntil_refines {step : σ → ι → Option (ω × σ)} (R : σ → τ → Prop)
    (h : ∀ s t i, R s t → ok s i →
      ∃ s', step s i = some ((step' t i).1, s') ∧ R s' (step' t i).2) :
    ∀ (is : List ι) {s : σ} {t : τ}, R s t → UntilAlong ok step s is →
      ∃ s', runUntil step s is = some ((run step' t is).1, s') ∧ R s' (run step' t is).2
  | [], s, t, hR, _ => ⟨s, rfl, hR⟩
  | i :: is, s, t, hR, ⟨hi, his⟩ => by
    obtain ⟨s', hs, hR'⟩ := h s t i hR hi
    obtain ⟨s'', hrun, hR''⟩ := runUntil_refines R h is hR' (his _ hs)
    exact ⟨s'', by simp [runUntil, run, hs, hrun], hR''⟩

end Machine

section Transition

variable {σ ι ε : Type*}

/-- Where a sequence of actions leads; an action may also end everything. -/
def exec (step : σ → ι → Except ε σ) (s : σ) (is : List ι) : Except ε σ := is.foldlM step s

/-- Every action of the sequence meets the condition, in the state it is taken in. -/
def ExecAlong (ok : σ → ι → Prop) (step : σ → ι → Except ε σ) : σ → List ι → Prop
  | _, [] => True
  | s, i :: is => ok s i ∧ ∀ s', step s i = .ok s' → ExecAlong ok step s' is

theorem exec_append {step : σ → ι → Except ε σ} (is js : List ι) (s : σ) :
    exec step s (is ++ js) = (exec step s is).bind fun s => exec step s js :=
  List.foldlM_append

theorem exec_singleton {step : σ → ι → Except ε σ} (i : ι) (s : σ) : exec step s [i] = step s i :=
  bind_pure _

theorem bind_eq_ok {α β : Type} {x : Except ε α} {f : α → Except ε β} {b : β}
    (h : x >>= f = .ok b) : ∃ a, x = .ok a ∧ f a = .ok b := by
  rcases x with e | a
  · exact absurd h (by simp [bind, Except.bind])
  · exact ⟨a, rfl, h⟩

/-- A result is of this kind if there is one, and of that kind if everything has ended. -/
def Yields (P : σ → Prop) (Q : ε → Prop) : Except ε σ → Prop
  | .ok s => P s
  | .error e => Q e

variable {step : σ → ι → Except ε σ} {ok : σ → ι → Prop} {P : σ → Prop} {Q : ε → Prop}

theorem Yields.bind {τ : Type*} {P' : τ → Prop} {r : Except ε σ} {f : σ → Except ε τ}
    (hr : Yields P Q r) (hf : ∀ s, P s → Yields P' Q (f s)) : Yields P' Q (r.bind f) := by
  cases r with
  | error e => exact hr
  | ok s => exact hf s hr

theorem Yields.mono {P' : σ → Prop} {Q' : ε → Prop} {r : Except ε σ} (hr : Yields P Q r)
    (hP : ∀ s, P s → P' s) (hQ : ∀ e, Q e → Q' e) : Yields P' Q' r := by
  cases r with
  | error e => exact hQ e hr
  | ok s => exact hP s hr

theorem exec_inv (h : ∀ s i, P s → ok s i → Yields P Q (step s i)) :
    ∀ (is : List ι) {s : σ}, P s → ExecAlong ok step s is → Yields P Q (exec step s is)
  | [], s, hP, _ => hP
  | i :: is, s, hP, ⟨hi, his⟩ => by
    have hstep := h s i hP hi
    rw [exec, List.foldlM_cons]
    cases hs : step s i with
    | error e =>
      rw [hs] at hstep
      exact hstep
    | ok s' =>
      rw [hs] at hstep
      exact exec_inv h is hstep (his s' hs)

theorem Yields.of_ok {r : Except ε σ} {s : σ} (h : Yields P Q r) (hr : r = .ok s) : P s := by
  rw [hr] at h
  exact h

theorem exec_stays (h : ∀ s i s', P s → step s i = .ok s' → P s') :
    ∀ (is : List ι) {s s' : σ}, P s → exec step s is = .ok s' → P s'
  | [], s, s', hs, hexec => by
    cases hexec
    exact hs
  | i :: is, s, s', hs, hexec => by
    rw [exec, List.foldlM_cons] at hexec
    cases hi : step s i with
    | error e =>
      rw [hi] at hexec
      cases hexec
    | ok s₁ =>
      rw [hi] at hexec
      exact exec_stays h is (h s i s₁ hs hi) hexec

/-- A run that goes on meets the condition in every step, or it is where the first step that
does not leads and stays. -/
theorem exec_dichotomy {D : σ → Prop} (hP : ∀ s i s', P s → ok s i → step s i = .ok s' → P s')
    (hD : ∀ s i s', P s → ¬ok s i → step s i = .ok s' → D s')
    (hstay : ∀ s i s', D s → step s i = .ok s' → D s') :
    ∀ (is : List ι) {s s' : σ}, P s → exec step s is = .ok s' →
      ExecAlong ok step s is ∧ P s' ∨ ¬ExecAlong ok step s is ∧ D s'
  | [], s, s', hs, hexec => by
    cases hexec
    exact .inl ⟨trivial, hs⟩
  | i :: is, s, s', hs, hexec => by
    rw [exec, List.foldlM_cons] at hexec
    cases hi : step s i with
    | error e =>
      rw [hi] at hexec
      cases hexec
    | ok s₁ =>
      rw [hi] at hexec
      by_cases hok : ok s i
      · rcases exec_dichotomy hP hD hstay is (hP s i s₁ hs hok hi) hexec with ⟨his, hs'⟩ | ⟨his, hs'⟩
        · refine .inl ⟨⟨hok, fun s₂ h₂ => ?_⟩, hs'⟩
          rw [hi] at h₂
          cases h₂
          exact his
        · exact .inr ⟨fun h => his (h.2 s₁ hi), hs'⟩
      · exact .inr ⟨fun h => hok h.1, exec_stays hstay is (hD s i s₁ hs hok hi) hexec⟩

/-- Where a step can be taken just if it meets the condition, so can a run just if its steps do. -/
theorem exec_ok_iff (hP : ∀ s i s', P s → step s i = .ok s' → P s')
    (hok : ∀ s i, P s → (ok s i ↔ ∃ s', step s i = .ok s')) :
    ∀ (is : List ι) {s : σ}, P s → (ExecAlong ok step s is ↔ ∃ s', exec step s is = .ok s')
  | [], s, _ => iff_of_true trivial ⟨s, rfl⟩
  | i :: is, s, hs => by
    rw [exec, List.foldlM_cons, ExecAlong, hok s i hs]
    cases hi : step s i with
    | error e => exact iff_of_false (fun h => by cases h.1.choose_spec) fun h => by cases h.choose_spec
    | ok s₁ =>
      have ih := exec_ok_iff hP hok is (hP s i s₁ hs hi)
      refine Iff.trans ⟨fun h => h.2 s₁ rfl, fun h => ⟨⟨s₁, rfl⟩, fun s₂ h₂ => ?_⟩⟩ ih
      cases h₂
      exact h

/-- A condition that follows from another one, where what allowed steps keep holds. -/
theorem ExecAlong.mono {ok' : σ → ι → Prop} (hok : ∀ s i, P s → ok s i → ok' s i)
    (hP : ∀ s i s', P s → ok s i → step s i = .ok s' → P s') :
    ∀ {is : List ι} {s : σ}, P s → ExecAlong ok step s is → ExecAlong ok' step s is
  | [], _, _, _ => trivial
  | i :: _, s, hs, ⟨hi, his⟩ => ⟨hok s i hs hi, fun s' hs' =>
      (his s' hs').mono hok hP (hP s i s' hs hi hs')⟩

theorem ExecAlong.left : ∀ {is js : List ι} {s : σ}, ExecAlong ok step s (is ++ js) →
    ExecAlong ok step s is
  | [], _, _, _ => trivial
  | _ :: _, _, _, ⟨hi, his⟩ => ⟨hi, fun s' hs' => (his s' hs').left⟩

/-- A condition that is met along a sequence is met along the rest of it, from where its first part
leads. -/
theorem ExecAlong.right : ∀ {is js : List ι} {s s' : σ}, ExecAlong ok step s (is ++ js) →
    exec step s is = .ok s' → ExecAlong ok step s' js
  | [], _, s, s', h, hexec => by
    cases hexec
    exact h
  | i :: is, js, s, s', ⟨_, his⟩, hexec => by
    rw [exec, List.foldlM_cons] at hexec
    cases hi : step s i with
    | error e =>
      rw [hi] at hexec
      cases hexec
    | ok s₁ =>
      rw [hi] at hexec
      exact (his s₁ hi).right hexec

theorem ExecAlong.and {p : ι → Prop} : ∀ {is : List ι} {s : σ}, ExecAlong ok step s is →
    (∀ i ∈ is, p i) → ExecAlong (fun s i => ok s i ∧ p i) step s is
  | [], _, _, _ => trivial
  | i :: _, _, ⟨hi, his⟩, hp => ⟨⟨hi, hp i List.mem_cons_self⟩, fun s' hs' =>
      (his s' hs').and fun j hj => hp j (List.mem_cons_of_mem i hj)⟩

end Transition

/-!
## Loops that return

A loop is a function that goes one round: it gives something to return, or nothing yet, and the next
state. `firstOutput` goes round until there is something to return. `Emits` is a stretch of rounds
with all they return; stretches can be put together, and from one that returns something
`firstOutput` returns the first of it and leaves the rest to be emitted.
-/

variable {σ ω : Type*} {round : σ → Option ω × σ}

/-- Go round until something is returned, in at most this many rounds. -/
def firstOutput (round : σ → Option ω × σ) : ℕ → σ → Option (ω × σ)
  | 0, _ => none
  | rounds + 1, s =>
    match (round s).1 with
    | some o => some (o, (round s).2)
    | none => firstOutput round rounds (round s).2

/-- A stretch of rounds and what they return. -/
inductive Emits (round : σ → Option ω × σ) : σ → List ω → σ → Prop
  | refl (s : σ) : Emits round s [] s
  | silent {s t : σ} {os : List ω} (h : (round s).1 = none) (rest : Emits round (round s).2 os t) :
      Emits round s os t
  | emit {s t : σ} {o : ω} {os : List ω} (h : (round s).1 = some o)
      (rest : Emits round (round s).2 os t) : Emits round s (o :: os) t

theorem firstOutput_of_some {s : σ} {o : ω} (h : (round s).1 = some o) (rounds : ℕ) :
    firstOutput round (rounds + 1) s = some (o, (round s).2) := by
  rw [firstOutput, h]

theorem firstOutput_of_none {s : σ} (h : (round s).1 = none) (rounds : ℕ) :
    firstOutput round (rounds + 1) s = firstOutput round rounds (round s).2 := by
  rw [firstOutput, h]

theorem firstOutput_mono : ∀ {m n : ℕ} {s : σ} {r : ω × σ}, m ≤ n →
    firstOutput round m s = some r → firstOutput round n s = some r
  | 0, _, _, _, _, h => by cases h
  | m + 1, 0, _, _, hmn, _ => absurd hmn (Nat.not_succ_le_zero m)
  | m + 1, n + 1, s, r, hmn, h => by
    rcases ho : (round s).1 with _ | o
    · rw [firstOutput_of_none ho] at h ⊢
      exact firstOutput_mono (Nat.le_of_succ_le_succ hmn) h
    · rw [firstOutput_of_some ho] at h ⊢
      exact h

namespace Emits

theorem trans {s t u : σ} {os os' : List ω} (h : Emits round s os t) (h' : Emits round t os' u) :
    Emits round s (os ++ os') u := by
  induction h with
  | refl s => exact h'
  | silent ho _ ih => exact .silent ho (ih h')
  | emit ho _ ih => exact .emit ho (ih h')

theorem step {s t : σ} {os : List ω} (rest : Emits round (round s).2 os t) :
    Emits round s ((round s).1.toList ++ os) t := by
  rcases ho : (round s).1 with _ | o
  · exact .silent ho rest
  · exact .emit ho rest

theorem uncons {s t : σ} {o : ω} {os : List ω} (h : Emits round s (o :: os) t) :
    ∃ rounds u, firstOutput round rounds s = some (o, u) ∧ Emits round u os t := by
  generalize hall : o :: os = all at h
  induction h with
  | refl s => cases hall
  | silent ho _ ih =>
    obtain ⟨rounds, u, hfirst, hrest⟩ := ih hall
    exact ⟨rounds + 1, u, by rw [firstOutput_of_none ho, hfirst], hrest⟩
  | emit ho rest _ =>
    cases hall
    exact ⟨1, _, firstOutput_of_some ho 0, rest⟩

theorem exists_firstOutput {s t : σ} {o : ω} (h : Emits round s [] t)
    (ho : (round t).1 = some o) : ∃ rounds, firstOutput round rounds s = some (o, (round t).2) := by
  generalize hos : ([] : List ω) = os at h
  induction h with
  | refl s => exact ⟨1, firstOutput_of_some ho 0⟩
  | silent hnone _ ih =>
    obtain ⟨rounds, hfirst⟩ := ih ho hos
    exact ⟨rounds + 1, by rw [firstOutput_of_none hnone, hfirst]⟩
  | emit => cases hos

end Emits

end KiisuFirmware
