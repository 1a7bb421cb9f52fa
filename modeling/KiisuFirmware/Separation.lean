import Mathlib.Data.List.Basic
import Mathlib.Tactic

/-!
# Memory in parts

A heap of cells and assertions about it. Two assertions hold apart from each other (`sep`) if the
heap is the union of parts without a common cell, one for each. A triple is about programs that may
fail: if one does not, what it needs has become what it gives, and what is apart from that is as it
was.
-/

namespace KiisuFirmware

/-- What is in each cell that is in use. -/
@[ext] structure Heap (α β : Type) where
  get : α → Option β

namespace Heap

variable {α β γ δ : Type}

def Apart (h k : Heap α β) : Prop := ∀ a, h.get a = none ∨ k.get a = none

def union (h k : Heap α β) : Heap α β := ⟨fun a => (h.get a).or (k.get a)⟩

def empty : Heap α β := ⟨fun _ => none⟩

@[simp] theorem empty_get (a : α) : (empty : Heap α β).get a = none := rfl

@[simp] theorem union_get (h k : Heap α β) (a : α) :
    (h.union k).get a = (h.get a).or (k.get a) := rfl

theorem Apart.symm {h k : Heap α β} (hapart : h.Apart k) : k.Apart h := fun a => (hapart a).symm

theorem apart_union_right {h k l : Heap α β} : h.Apart (k.union l) ↔ h.Apart k ∧ h.Apart l := by
  simp only [Apart, union_get, Option.or_eq_none_iff, ← forall_and]
  exact forall_congr' fun a => by tauto

theorem apart_union_left {h k l : Heap α β} : (h.union k).Apart l ↔ h.Apart l ∧ k.Apart l := by
  simp only [Apart, union_get, Option.or_eq_none_iff, ← forall_and]
  exact forall_congr' fun a => by tauto

theorem union_comm {h k : Heap α β} (hapart : h.Apart k) : h.union k = k.union h := by
  ext1
  funext a
  rcases hapart a with hnone | hnone <;> simp [hnone]

theorem union_assoc (h k l : Heap α β) : (h.union k).union l = h.union (k.union l) := by
  ext1
  funext a
  simp [Option.or_assoc]

@[simp] theorem empty_union (h : Heap α β) : empty.union h = h := by
  ext1
  funext a
  simp

/-! ## Assertions -/

abbrev Assertion (α β : Type) := Heap α β → Prop

def emp : Assertion α β := fun h => h = empty

/-- Both hold, each of its own part. -/
def sep (P Q : Assertion α β) : Assertion α β := fun h =>
  ∃ k l, P k ∧ Q l ∧ k.Apart l ∧ h = k.union l

theorem sep_comm (P Q : Assertion α β) : sep P Q = sep Q P := by
  funext h
  refine propext ⟨?_, ?_⟩
  all_goals
    rintro ⟨k, l, hk, hl, hapart, rfl⟩
    exact ⟨l, k, hl, hk, hapart.symm, union_comm hapart⟩

theorem sep_assoc (P Q R : Assertion α β) : sep (sep P Q) R = sep P (sep Q R) := by
  funext h
  refine propext ⟨?_, ?_⟩
  · rintro ⟨_, m, ⟨k, l, hk, hl, hkl, rfl⟩, hm, hapart, rfl⟩
    obtain ⟨hkm, hlm⟩ := apart_union_left.mp hapart
    exact ⟨k, l.union m, hk, ⟨l, m, hl, hm, hlm, rfl⟩, apart_union_right.mpr ⟨hkl, hkm⟩,
      union_assoc k l m⟩
  · rintro ⟨k, _, hk, ⟨l, m, hl, hm, hlm, rfl⟩, hapart, rfl⟩
    obtain ⟨hkl, hkm⟩ := apart_union_right.mp hapart
    exact ⟨k.union l, m, ⟨k, l, hk, hl, hkl, rfl⟩, hm, apart_union_left.mpr ⟨hkm, hlm⟩,
      (union_assoc k l m).symm⟩

instance : Std.Commutative (sep (α := α) (β := β)) := ⟨sep_comm⟩

instance : Std.Associative (sep (α := α) (β := β)) := ⟨sep_assoc⟩

@[simp] theorem emp_sep (P : Assertion α β) : sep emp P = P := by
  funext h
  refine propext ⟨?_, fun hP => ⟨empty, h, rfl, hP, fun a => .inl rfl, (empty_union h).symm⟩⟩
  rintro ⟨k, l, rfl, hl, -, rfl⟩
  rwa [empty_union]

@[simp] theorem sep_emp (P : Assertion α β) : sep P emp = P := by
  rw [sep_comm, emp_sep]

theorem sep_imp {P P' Q Q' : Assertion α β} (hP : ∀ h, P h → P' h) (hQ : ∀ h, Q h → Q' h) {h}
    (hsep : sep P Q h) : sep P' Q' h := by
  obtain ⟨k, l, hk, hl, hapart, rfl⟩ := hsep
  exact ⟨k, l, hP k hk, hQ l hl, hapart, rfl⟩

theorem sep_imp_left {P P' Q : Assertion α β} (hP : ∀ h, P h → P' h) {h} (hsep : sep P Q h) :
    sep P' Q h :=
  sep_imp hP (fun _ => id) hsep

theorem sep_fact {p : Prop} {P Q : Assertion α β} {h} :
    sep (fun h => p ∧ P h) Q h ↔ p ∧ sep P Q h := by
  constructor
  · rintro ⟨k, l, ⟨hp, hk⟩, hl, hapart, rfl⟩
    exact ⟨hp, k, l, hk, hl, hapart, rfl⟩
  · rintro ⟨hp, k, l, hk, hl, hapart, rfl⟩
    exact ⟨k, l, ⟨hp, hk⟩, hl, hapart, rfl⟩

theorem sep_exists {ι : Sort*} {P : ι → Assertion α β} {Q : Assertion α β} {h} :
    sep (fun h => ∃ i, P i h) Q h ↔ ∃ i, sep (P i) Q h := by
  constructor
  · rintro ⟨k, l, ⟨i, hk⟩, hl, hapart, rfl⟩
    exact ⟨i, k, l, hk, hl, hapart, rfl⟩
  · rintro ⟨i, k, l, hk, hl, hapart, rfl⟩
    exact ⟨k, l, ⟨i, hk⟩, hl, hapart, rfl⟩

theorem sep_swap {P Q R : Assertion α β} {h} (hsep : sep P (sep Q R) h) : sep Q (sep P R) h := by
  rwa [← sep_assoc, sep_comm Q, sep_assoc]

theorem not_sep_left {P Q : Assertion α β} (hP : ∀ h, ¬P h) (h : Heap α β) : ¬sep P Q h := by
  rintro ⟨k, _, hk, -⟩
  exact hP k hk

theorem not_sep_right {P Q : Assertion α β} (hQ : ∀ h, ¬Q h) (h : Heap α β) : ¬sep P Q h := by
  rintro ⟨_, l, _, hl, -⟩
  exact hQ l hl

/-! ## Triples -/

/-- From a heap with a part as `P` says a program comes to one where this part is as `Q` says. -/
def Triple (P : Assertion α β) (program : StateT (Heap α β) Option γ)
    (Q : γ → Assertion α β) : Prop :=
  ∀ R h result k, sep P R h → program h = some (result, k) → sep (Q result) R k

namespace Triple

variable {P P' R : Assertion α β} {Q Q' : γ → Assertion α β}
  {program : StateT (Heap α β) Option γ}

theorem frame (htriple : Triple P program Q) (R : Assertion α β) :
    Triple (sep P R) program fun result => sep (Q result) R := by
  intro S h result k hsep hrun
  rw [sep_assoc] at hsep ⊢
  exact htriple _ h result k hsep hrun

theorem of_not (hP : ∀ h, ¬P h) : Triple P program Q := fun _ h _ _ hsep _ =>
  absurd hsep (not_sep_left hP h)

theorem imp (htriple : Triple P program Q) (hP : ∀ h, P' h → P h)
    (hQ : ∀ result h, Q result h → Q' result h) : Triple P' program Q' := by
  intro R h result k hsep hrun
  exact sep_imp_left (hQ result) (htriple R h result k (sep_imp_left hP hsep) hrun)

theorem pre (htriple : Triple P program Q) (hP : P' = P) : Triple P' program Q := hP ▸ htriple

theorem pure (Q : γ → Assertion α β) (value : γ) : Triple (Q value) (Pure.pure value) Q := by
  rintro R h result k hsep hrun
  obtain ⟨rfl, rfl⟩ := Prod.mk.inj (Option.some.inj hrun)
  exact hsep

theorem bind {next : γ → StateT (Heap α β) Option δ} {S : δ → Assertion α β}
    (hfirst : Triple P program Q) (hnext : ∀ value, Triple (Q value) (next value) S) :
    Triple P (program >>= next) S := by
  intro R h result k hsep hrun
  obtain ⟨⟨value, middle⟩, hmiddle, hrest⟩ := Option.bind_eq_some_iff.mp hrun
  exact hnext value R middle result k (hfirst R h value middle hsep hmiddle) hrest

theorem fact {p : Prop} (htriple : p → Triple P program Q) :
    Triple (fun h => p ∧ P h) program Q := by
  intro R h result k hsep hrun
  obtain ⟨hp, hsep⟩ := sep_fact.mp hsep
  exact htriple hp R h result k hsep hrun

theorem fact_sep {p : Prop} (htriple : p → Triple (sep P R) program Q) :
    Triple (sep (fun h => p ∧ P h) R) program Q :=
  (fact htriple).imp (fun _ => sep_fact.mp) fun _ _ => id

theorem exist {ι : Sort*} {P : ι → Assertion α β} (htriple : ∀ i, Triple (P i) program Q) :
    Triple (fun h => ∃ i, P i h) program Q := by
  intro R h result k hsep hrun
  obtain ⟨i, hsep⟩ := sep_exists.mp hsep
  exact htriple i R h result k hsep hrun

theorem bind_frame {next : γ → StateT (Heap α β) Option δ} {S : δ → Assertion α β}
    (hfirst : Triple P program Q) (hpre : P' = sep P R)
    (hnext : ∀ value, Triple (sep (Q value) R) (next value) S) : Triple P' (program >>= next) S := by
  rw [hpre]
  exact (hfirst.frame R).bind hnext

theorem guard_bind {p : Prop} [Decidable p] {next : Unit → StateT (Heap α β) Option γ}
    (hnext : p → Triple P (next ()) Q) : Triple P (guard p >>= next) Q := by
  by_cases hp : p
  · simpa [guard, hp] using hnext hp
  · intro R h result k _ hrun
    obtain ⟨_, hnone, -⟩ := Option.bind_eq_some_iff.mp hrun
    exact absurd hnone (by simp [guard, hp, failure, StateT.failure])

end Triple

/-! ## Lists -/

section Lists

variable {ι κ : Type} {P : ι → κ → Assertion α β}

/-- The pairs of two lists of one length, each apart from the others. -/
def All (P : ι → κ → Assertion α β) : List ι → List κ → Assertion α β
  | [], [] => emp
  | x :: xs, y :: ys => sep (P x y) (All P xs ys)
  | _, _ => fun _ => False

theorem All.length_eq : ∀ {xs : List ι} {ys : List κ} {h}, All P xs ys h → xs.length = ys.length
  | [], [], _, _ => rfl
  | _ :: _, _ :: _, _, ⟨_, _, _, htail, _⟩ => congrArg (· + 1) htail.length_eq
  | [], _ :: _, _, hall => hall.elim
  | _ :: _, [], _, hall => hall.elim

theorem All.fact {p : ι → κ → Prop} : ∀ {xs : List ι} {ys : List κ},
    All (α := α) (β := β) (fun x y h => p x y ∧ emp h) xs ys =
      fun h => List.Forall₂ p xs ys ∧ emp h
  | [], [] => by simp [All]
  | x :: xs, y :: ys => by
    funext h
    rw [All, All.fact, sep_fact, emp_sep, List.forall₂_cons, and_assoc]
  | [], _ :: _ => by simp [All]
  | _ :: _, [] => by simp [All]

theorem All.focus {P : ι → κ → Assertion α β} :
    ∀ {xs : List ι} {ys : List κ} {i : ℕ} {x : ι} {y : κ}, xs[i]? = some x → ys[i]? = some y → ∃ R : Assertion α β, All P xs ys = sep (P x y) R ∧
      ∀ x' y', All P (xs.set i x') (ys.set i y') = sep (P x' y') R
  | x :: xs, y :: ys, 0, _, _, rfl, rfl => ⟨All P xs ys, rfl, fun _ _ => rfl⟩
  | z :: xs, w :: ys, i + 1, x, y, hx, hy => by
    have hx' : xs[i]? = some x := hx
    have hy' : ys[i]? = some y := hy
    obtain ⟨R, hR, hset⟩ := All.focus (P := P) hx' hy'
    refine ⟨sep (P z w) R, ?_, fun x' y' => ?_⟩
    · rw [All, hR]
      ac_rfl
    · rw [List.set_cons_succ, List.set_cons_succ, All, hset]
      ac_rfl

namespace Triple

theorem of_all {xs : List ι} {ys : List κ} {R : Assertion α β} {program : StateT (Heap α β) Option γ}
    {Q : γ → Assertion α β}
    (htriple : xs.length = ys.length → Triple (sep (All P xs ys) R) program Q) :
    Triple (sep (All P xs ys) R) program Q := by
  intro S h result k hsep hrun
  obtain ⟨_, _, ⟨_, _, hall, _⟩, _⟩ := id hsep
  exact htriple hall.length_eq S h result k hsep hrun

theorem forM {f : ι → StateT (Heap α β) Option Unit}
    (hf : ∀ x y, Triple (P x y) (f x) fun _ => emp) :
    ∀ {xs : List ι} {ys : List κ}, Triple (All P xs ys) (ForM.forM xs f) fun _ => emp
  | [], [] => pure (fun _ => emp) ()
  | x :: xs, y :: ys => by
    rw [List.forM_cons]
    refine (hf x y).bind_frame rfl fun _ => ?_
    rw [emp_sep]
    exact forM hf
  | [], _ :: _ => fun _ _ _ _ ⟨_, _, hfalse, _⟩ => hfalse.elim
  | _ :: _, [] => fun _ _ _ _ ⟨_, _, hfalse, _⟩ => hfalse.elim

theorem mapM_replicate {f : ι → StateT (Heap α β) Option κ} {μ : Type} {P : κ → μ → Assertion α β}
    {x : ι} {y : μ} (hf : Triple emp (f x) fun result => P result y) :
    ∀ n, Triple emp ((List.replicate n x).mapM f) fun results => All P results (List.replicate n y)
  | 0 => by
    rw [List.replicate_zero, List.mapM_nil]
    exact pure (fun results => All P results []) []
  | n + 1 => by
    rw [List.replicate_succ, List.mapM_cons]
    refine hf.bind fun result => ?_
    refine (mapM_replicate hf n).bind_frame (R := P result y) (emp_sep _).symm fun results => ?_
    exact (pure (fun results => All P results (List.replicate (n + 1) y)) (result :: results)).pre
      (sep_comm _ _)

theorem mapM_zip {ρ μ ν : Type} {Q : ρ → μ → Assertion α β} {f : ι × ρ → StateT (Heap α β) Option ν}
    {P' : ν → μ → Assertion α β}
    (hf : ∀ x z y w, Triple (sep (P x y) (Q z w)) (f (x, z)) fun r => sep (P' r w) (Q z w)) :
    ∀ {xs : List ι} {ys : List κ} {zs : List ρ} {ws : List μ}, xs.length = zs.length →
      Triple (sep (All P xs ys) (All Q zs ws)) ((xs.zip zs).mapM f) fun rs =>
        sep (All P' rs ws) (All Q zs ws)
  | [], [], [], [], _ => by
    rw [List.zip_nil_left, List.mapM_nil]
    exact pure (fun rs => sep (All P' rs []) (All Q [] [])) []
  | x :: xs, y :: ys, z :: zs, w :: ws, hlength => by
    rw [List.zip_cons_cons, List.mapM_cons]
    refine (hf x z y w).bind_frame (R := sep (All P xs ys) (All Q zs ws)) ?_ fun r => ?_
    · simp only [All]
      ac_rfl
    have hrest := @mapM_zip _ _ _ Q f P' hf xs ys zs ws (Nat.succ.inj hlength)
    refine hrest.bind_frame (R := sep (P' r w) (Q z w)) (sep_comm _ _) fun rs => ?_
    refine (pure (fun rs => sep (All P' rs (w :: ws)) (All Q (z :: zs) (w :: ws))) (r :: rs)).pre ?_
    simp only [All]
    ac_rfl
  | [], _ :: _, _, _, _ => fun _ _ _ _ ⟨_, _, ⟨_, _, hfalse, _⟩, _⟩ => hfalse.elim
  | _ :: _, [], _, _, _ => fun _ _ _ _ ⟨_, _, ⟨_, _, hfalse, _⟩, _⟩ => hfalse.elim
  | _, _, [], _ :: _, _ => fun _ _ _ _ ⟨_, _, ⟨_, _, _, hfalse, _⟩, _⟩ => hfalse.elim
  | _, _, _ :: _, [], _ => fun _ _ _ _ ⟨_, _, ⟨_, _, _, hfalse, _⟩, _⟩ => hfalse.elim
  | [], [], _ :: _, _ :: _, hlength => absurd hlength (by simp)
  | _ :: _, _ :: _, [], [], hlength => absurd hlength (by simp)

end Triple

end Lists

/-! ## Families -/

section Families

variable {ι : Type} {P : ι → Assertion α β} {p : ι → Prop}

/-- Each of the indices in question has a part of its own. -/
def EachOn (p : ι → Prop) (P : ι → Assertion α β) : Assertion α β := fun h =>
  ∃ parts : ι → Heap α β, (∀ i, p i → P i (parts i)) ∧
    (∀ i j, p i → p j → i ≠ j → (parts i).Apart (parts j)) ∧
    ∀ a b, h.get a = some b ↔ ∃ i, p i ∧ (parts i).get a = some b

theorem eachOn_congr {P' : ι → Assertion α β} (hP : ∀ i, p i → P i = P' i) :
    EachOn p P = EachOn p P' := by
  funext h
  refine propext (exists_congr fun parts => and_congr_left' ?_)
  exact forall₂_congr fun i hi => by rw [hP i hi]

theorem eachOn_split [DecidableEq ι] {i : ι} (hi : p i) :
    EachOn p P = sep (P i) (EachOn (fun j => p j ∧ j ≠ i) P) := by
  classical
  funext h
  refine propext ⟨?_, ?_⟩
  · rintro ⟨parts, hP, hapart, hget⟩
    refine ⟨parts i, ⟨fun a => if (parts i).get a = none then h.get a else none⟩, hP i hi,
      ⟨parts, fun j hj => hP j hj.1, fun j k hj hk => hapart j k hj.1 hk.1, fun a b => ?_⟩,
      fun a => ?_, ?_⟩
    · constructor
      · intro hb
        obtain ⟨hnone, hb⟩ : (parts i).get a = none ∧ h.get a = some b := by
          by_cases hnone : (parts i).get a = none
          · exact ⟨hnone, by simpa [hnone] using hb⟩
          · simp [hnone] at hb
        obtain ⟨j, hj, hpart⟩ := (hget a b).mp hb
        refine ⟨j, ⟨hj, ?_⟩, hpart⟩
        rintro rfl
        simp [hnone] at hpart
      · rintro ⟨j, ⟨hj, hne⟩, hb⟩
        have hnone := (hapart i j hi hj hne.symm a).resolve_right (by simp [hb])
        simpa [hnone] using (hget a b).mpr ⟨j, hj, hb⟩
    · by_cases hnone : (parts i).get a = none
      · exact .inl hnone
      · exact .inr (by simp [hnone])
    · ext1
      funext a
      cases hpart : (parts i).get a with
      | none => simp [hpart]
      | some b => simpa [hpart] using (hget a b).mpr ⟨i, hi, hpart⟩
  · rintro ⟨k, l, hk, ⟨parts, hP, hapart, hget⟩, hkl, rfl⟩
    have hother : ∀ {j}, j ≠ i → Function.update parts i k j = parts j :=
      fun hne => Function.update_of_ne hne _ _
    have hself : Function.update parts i k i = k := Function.update_self _ _ _
    have hrest : ∀ j, p j → j ≠ i → k.Apart (parts j) := by
      intro j hj hne a
      refine (hkl a).imp_right fun hnone => ?_
      cases hb : (parts j).get a with
      | none => rfl
      | some b =>
        have := (hget a b).mpr ⟨j, ⟨hj, hne⟩, hb⟩
        simp [hnone] at this
    refine ⟨Function.update parts i k, fun j hj => ?_, fun j m hj hm hne => ?_, fun a b => ?_⟩
    · rcases eq_or_ne j i with rfl | hji
      · rwa [hself]
      · rw [hother hji]
        exact hP j ⟨hj, hji⟩
    · rcases eq_or_ne j i with rfl | hji
      · rw [hself, hother hne.symm]
        exact hrest m hm hne.symm
      · rcases eq_or_ne m i with rfl | hmi
        · rw [hself, hother hji]
          exact (hrest j hj hji).symm
        · rw [hother hji, hother hmi]
          exact hapart j m ⟨hj, hji⟩ ⟨hm, hmi⟩ hne
    · rw [union_get, Option.or_eq_some_iff]
      constructor
      · rintro (hb | ⟨-, hb⟩)
        · exact ⟨i, hi, by rwa [hself]⟩
        · obtain ⟨j, ⟨hj, hji⟩, hb⟩ := (hget a b).mp hb
          exact ⟨j, hj, by rwa [hother hji]⟩
      · rintro ⟨j, hj, hb⟩
        rcases eq_or_ne j i with rfl | hji
        · exact .inl (by rwa [hself] at hb)
        · rw [hother hji] at hb
          exact .inr ⟨(hrest j hj hji a).resolve_right (by simp [hb]),
            (hget a b).mpr ⟨j, ⟨hj, hji⟩, hb⟩⟩

end Families

/-! ## Cells -/

variable [DecidableEq α]

def set (h : Heap α β) (a : α) (value : Option β) : Heap α β :=
  ⟨fun x => if x = a then value else h.get x⟩

@[simp] theorem set_get_self (h : Heap α β) (a : α) (value : Option β) :
    (h.set a value).get a = value := by simp [set]

theorem set_get_ne (h : Heap α β) {a x : α} (value : Option β) (hne : x ≠ a) :
    (h.set a value).get x = h.get x := by simp [set, hne]

/-- One cell, with a value. -/
def cell (a : α) (value : β) : Assertion α β := fun h => h = empty.set a (some value)

/-- A cell is there apart from an assertion if the heap has it and without it is as the assertion
says. -/
theorem cell_sep {a : α} {value : β} {P : Assertion α β} {h : Heap α β} :
    sep (cell a value) P h ↔ h.get a = some value ∧ P (h.set a none) := by
  constructor
  · rintro ⟨_, l, rfl, hl, hapart, rfl⟩
    have hnone : l.get a = none := (hapart a).resolve_left (by simp)
    refine ⟨by simp, ?_⟩
    convert hl using 1
    ext1
    funext x
    by_cases hx : x = a
    · rw [hx, set_get_self, hnone]
    · rw [set_get_ne _ _ hx, union_get, set_get_ne _ _ hx, empty_get, Option.none_or]
  · rintro ⟨hget, hP⟩
    refine ⟨_, h.set a none, rfl, hP, fun x => ?_, ?_⟩
    · by_cases hx : x = a
      · exact .inr (by rw [hx, set_get_self])
      · exact .inl (by rw [set_get_ne _ _ hx, empty_get])
    · ext1
      funext x
      by_cases hx : x = a
      · rw [hx, hget, union_get, set_get_self, Option.some_or]
      · rw [union_get, set_get_ne _ _ hx, set_get_ne _ _ hx, empty_get, Option.none_or]

theorem set_set (h : Heap α β) (a : α) (value value' : Option β) :
    (h.set a value).set a value' = h.set a value' := by
  ext1
  funext x
  by_cases hx : x = a
  · rw [hx, set_get_self, set_get_self]
  · simp only [set_get_ne _ _ hx]

theorem set_none_self {h : Heap α β} {a : α} (hnone : h.get a = none) : h.set a none = h := by
  ext1
  funext x
  by_cases hx : x = a
  · rw [hx, set_get_self, hnone]
  · rw [set_get_ne _ _ hx]

theorem cell_ne {a b : α} {value value' : β} {P : Assertion α β} {h : Heap α β}
    (hsep : sep (cell a value) (sep (cell b value') P) h) : a ≠ b := by
  rintro rfl
  obtain ⟨-, hrest⟩ := cell_sep.mp hsep
  exact absurd (cell_sep.mp hrest).1 (by simp)

/-! ## Operations on a cell -/

def read (a : α) : StateT (Heap α β) Option β := fun h => (h.get a).map fun value => (value, h)

def write (a : α) (value : β) : StateT (Heap α β) Option Unit := fun h =>
  (h.get a).map fun _ => ((), h.set a (some value))

def free (a : α) : StateT (Heap α β) Option Unit := fun h =>
  (h.get a).map fun _ => ((), h.set a none)

/-- What finds a cell that is not in use, if there is one. One address is never given. -/
structure Allocator (α β : Type) (null : α) where
  next : Heap α β → Option α
  fresh : ∀ {h a}, next h = some a → a ≠ null ∧ h.get a = none

def alloc {null : α} (allocator : Allocator α β null) (value : β) : StateT (Heap α β) Option α :=
  fun h => (allocator.next h).map fun a => (a, h.set a (some value))

namespace Triple

variable {a : α} {value value' : β} {P : Assertion α β} {Q : γ → Assertion α β}

theorem read :
    Triple (cell a value) (Heap.read a) fun result h => result = value ∧ cell a value h := by
  intro R h result k hsep hrun
  obtain ⟨hget, -⟩ := cell_sep.mp hsep
  simp only [Heap.read, hget, Option.map_some, Option.some.injEq, Prod.mk.injEq] at hrun
  obtain ⟨rfl, rfl⟩ := hrun
  exact sep_fact.mpr ⟨rfl, hsep⟩

theorem write : Triple (cell a value) (Heap.write a value') fun _ => cell a value' := by
  intro R h result k hsep hrun
  obtain ⟨hget, hR⟩ := cell_sep.mp hsep
  simp only [Heap.write, hget, Option.map_some, Option.some.injEq, Prod.mk.injEq] at hrun
  obtain ⟨-, rfl⟩ := hrun
  exact cell_sep.mpr ⟨set_get_self _ _ _, by rwa [set_set]⟩

theorem free : Triple (cell a value) (Heap.free a) fun _ => emp := by
  intro R h result k hsep hrun
  obtain ⟨hget, hR⟩ := cell_sep.mp hsep
  simp only [Heap.free, hget, Option.map_some, Option.some.injEq, Prod.mk.injEq] at hrun
  obtain ⟨-, rfl⟩ := hrun
  rwa [emp_sep]

theorem alloc {null : α} {allocator : Allocator α β null} :
    Triple emp (Heap.alloc allocator value) fun a h => a ≠ null ∧ cell a value h := by
  intro R h result k hsep hrun
  rw [emp_sep] at hsep
  obtain ⟨a, hnext, heq⟩ := Option.map_eq_some_iff.mp hrun
  obtain ⟨rfl, rfl⟩ := Prod.mk.inj heq
  obtain ⟨hnull, hnone⟩ := allocator.fresh hnext
  refine sep_fact.mpr ⟨hnull, cell_sep.mpr ⟨set_get_self _ _ _, ?_⟩⟩
  rwa [set_set, set_none_self hnone]

theorem read_bind {next : β → StateT (Heap α β) Option γ} {P' : Assertion α β}
    (hpre : P' = sep (cell a value) P) (hnext : Triple P' (next value) Q) :
    Triple P' (Heap.read a >>= next) Q := by
  refine Triple.read.bind_frame hpre fun result => ?_
  intro R h k l hsep hrun
  obtain ⟨hresult, hknown⟩ : result = value ∧ sep P' R h := by
    obtain ⟨m, n, hm, hn, hapart, rfl⟩ := hsep
    obtain ⟨hresult, hm⟩ := sep_fact.mp hm
    exact ⟨hresult, m, n, by rwa [hpre], hn, hapart, rfl⟩
  rw [hresult] at hrun
  exact hnext R h k l hknown hrun

end Triple

end Heap

end KiisuFirmware
