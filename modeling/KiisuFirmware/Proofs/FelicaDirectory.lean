import KiisuFirmware.Felica
import Mathlib.Tactic

/-!
# Areas that are open

An area that is reached is open until the first service, not before its last one, at which no area
that was opened later is open (`closing`). The stack is what is open (`stackOf`), so that it has room
when at most seven areas are open where another one begins, and the bars in front of a service are
right when each area closes with its last service.
-/

namespace KiisuFirmware

namespace FelicaSystem

/-! ## When areas close -/

/-- An area with the service at which it closes. -/
abbrev Opened := FelicaArea × ℕ

namespace Opened

def first (area : Opened) : ℕ := area.1.firstIdx.toNat

def last (area : Opened) : ℕ := area.1.lastIdx.toNat

/-- The area is open when the service is written. -/
def OpenAt (svcIdx : ℕ) (area : Opened) : Prop := area.first ≤ svcIdx ∧ svcIdx ≤ area.2

instance (svcIdx : ℕ) (area : Opened) : Decidable (OpenAt svcIdx area) :=
  inferInstanceAs (Decidable (_ ∧ _))

end Opened

open Opened

theorem exists_closing (area : FelicaArea) (later : List Opened) :
    ∃ k, max area.firstIdx.toNat area.lastIdx.toNat ≤ k ∧ ∀ x ∈ later, ¬x.OpenAt k := by
  refine ⟨max area.firstIdx.toNat area.lastIdx.toNat + (later.map Prod.snd).sum + 1, by omega, ?_⟩
  rintro x hx ⟨-, hle⟩
  have hsum : x.2 ≤ (later.map Prod.snd).sum :=
    List.single_le_sum (by simp) _ (List.mem_map_of_mem hx)
  omega

/-- The first service, not before the last one of the area, at which nothing that was opened later is
open. -/
def closing (area : FelicaArea) (later : List Opened) : ℕ := Nat.find (exists_closing area later)

section Closing

variable {area : FelicaArea} {later : List Opened}

theorem le_closing : max area.firstIdx.toNat area.lastIdx.toNat ≤ closing area later :=
  (Nat.find_spec (exists_closing area later)).1

theorem not_openAt_closing {x : Opened} (hx : x ∈ later) : ¬x.OpenAt (closing area later) :=
  (Nat.find_spec (exists_closing area later)).2 x hx

theorem closing_le {k : ℕ} (hk : max area.firstIdx.toNat area.lastIdx.toNat ≤ k)
    (h : ∀ x ∈ later, ¬x.OpenAt k) : closing area later ≤ k :=
  Nat.find_min' (exists_closing area later) ⟨hk, h⟩

end Closing

/-- The areas that are reached from a service on: they begin in order, with services there are. -/
def reached (count : ℕ) : ℕ → List FelicaArea → List Opened
  | _, [] => []
  | svcIdx, area :: areas =>
    if svcIdx ≤ area.firstIdx.toNat ∧ area.firstIdx.toNat < count then
      (area, closing area (reached count area.firstIdx.toNat areas)) ::
        reached count area.firstIdx.toNat areas
    else []

/-- Each area closes as those behind it let it. -/
def Closes (areas : List Opened) : Prop :=
  ∀ before area later, areas = before ++ area :: later → area.2 = closing area.1 later

theorem closes_reached (count : ℕ) : ∀ (svcIdx : ℕ) (areas : List FelicaArea),
    Closes (reached count svcIdx areas)
  | svcIdx, [], before, area, later, h => by
    simp [reached] at h
  | svcIdx, first :: areas, before, area, later, h => by
    rw [reached] at h
    split_ifs at h with hreach
    · cases before with
      | nil =>
        obtain ⟨rfl, rfl⟩ := List.cons.inj h
        rfl
      | cons x before =>
        exact closes_reached count _ areas before area later (List.cons.inj h).2
    · simp at h

theorem first_of_mem_reached {count : ℕ} {area : Opened} : ∀ {svcIdx : ℕ} {areas : List FelicaArea},
    area ∈ reached count svcIdx areas → svcIdx ≤ area.first ∧ area.first < count
  | svcIdx, [], h => by
    simp [reached] at h
  | svcIdx, x :: areas, h => by
    rw [reached] at h
    split_ifs at h with hreach
    · rcases List.mem_cons.mp h with rfl | h
      · exact hreach
      · have hnext := first_of_mem_reached h
        exact ⟨hreach.1.trans hnext.1, hnext.2⟩
    · simp at h

theorem reached_succ {count svcIdx : ℕ} {areas : List FelicaArea}
    (h : ∀ area ∈ areas.head?, area.firstIdx.toNat ≠ svcIdx) :
    reached count svcIdx areas = reached count (svcIdx + 1) areas := by
  cases areas with
  | nil => rfl
  | cons area areas =>
    have hne := h area rfl
    have hiff : svcIdx ≤ area.firstIdx.toNat ↔ svcIdx + 1 ≤ area.firstIdx.toNat := by omega
    rw [reached, reached]
    simp only [hiff]

/-! ## The stack -/

/-- The last services of the open areas, the area that was opened last in front. -/
def stackOf (svcIdx : ℕ) (areas : List Opened) : List UInt16 :=
  (areas.filter fun area => svcIdx ≤ area.2).reverse.map fun area => area.1.lastIdx

theorem length_stackOf (svcIdx : ℕ) (areas : List Opened) :
    (stackOf svcIdx areas).length = areas.countP fun area => svcIdx ≤ area.2 := by
  rw [stackOf, List.length_map, List.length_reverse, List.countP_eq_length_filter]

theorem stackOf_push {svcIdx : ℕ} {area : Opened} (h : svcIdx ≤ area.2) (areas : List Opened) :
    stackOf svcIdx (areas ++ [area]) = area.1.lastIdx :: stackOf svcIdx areas := by
  simp [stackOf, h]

theorem stackOf_skip {svcIdx : ℕ} {area : Opened} (h : area.2 < svcIdx) (areas : List Opened) :
    stackOf svcIdx (areas ++ [area]) = stackOf svcIdx areas := by
  have hlt : ¬svcIdx ≤ area.2 := not_le_of_gt h
  simp [stackOf, hlt]

theorem stackOf_succ {svcIdx : ℕ} {areas later : List Opened} {area : Opened}
    (hcloses : Closes (areas ++ area :: later)) (hopen : area.OpenAt svcIdx) :
    stackOf (svcIdx + 1) areas = stackOf svcIdx areas := by
  have hne : ∀ x ∈ areas, x.2 ≠ svcIdx := by
    intro x hx heq
    obtain ⟨before, behind, rfl⟩ := List.append_of_mem hx
    have hclosing := hcloses before x (behind ++ area :: later) (by simp)
    have hmem : area ∈ behind ++ area :: later := by simp
    rw [← heq, hclosing] at hopen
    exact not_openAt_closing hmem hopen
  unfold stackOf
  congr 2
  refine List.filter_congr fun x hx => ?_
  have hx := hne x hx
  simp only [decide_eq_decide]
  omega

theorem popArea_stackOf {svcIdx : ℕ} {areas : List Opened} : ∀ {later : List Opened},
    Closes (areas ++ later) → (∀ x ∈ areas, x.first ≤ svcIdx) → (∀ x ∈ later, ¬x.OpenAt svcIdx) →
    popArea svcIdx (stackOf svcIdx areas) = stackOf (svcIdx + 1) areas := by
  induction areas using List.reverseRecOn with
  | nil => exact fun _ _ _ => rfl
  | append_singleton areas area ih =>
    intro later hcloses hfirst hlater
    rw [List.append_assoc, List.singleton_append] at hcloses
    have harea := hfirst area (by simp)
    have hclosing := hcloses areas area later rfl
    by_cases hopen : svcIdx ≤ area.2
    · rw [stackOf_push hopen, ← stackOf_succ hcloses ⟨harea, hopen⟩, popArea]
      split_ifs with hlast
      · have hle : area.2 ≤ svcIdx := by
          rw [hclosing]
          exact closing_le (max_le harea hlast) hlater
        rw [stackOf_skip (by omega)]
      · have hlt : svcIdx + 1 ≤ area.2 := by
          rw [hclosing]
          exact le_trans (by omega) (le_trans (le_max_right _ _) le_closing)
        rw [stackOf_push hlt]
    · rw [stackOf_skip (not_le.mp hopen), stackOf_skip (by omega)]
      refine ih hcloses (fun x hx => hfirst x (List.mem_append_left _ hx)) fun x hx => ?_
      rcases List.mem_cons.mp hx with rfl | hx
      · exact fun h => hopen h.2
      · exact hlater x hx

/-! ## What is written -/

def DirectoryLine.areaCode? : DirectoryLine → Option UInt16
  | .area _ code => some code
  | .service _ _ _ => none

/-- The bars in front of a service and its code. -/
def DirectoryLine.serviceBars? : DirectoryLine → Option (ℕ × UInt16)
  | .area _ _ => none
  | .service depth _ code => some (depth - 1 + 1, code)

/-- There is room for each area where it begins: at most seven that were opened before are open. -/
def Fits (before areas : List Opened) : Prop :=
  ∀ front area behind, areas = front ++ area :: behind →
    ((before ++ front).countP fun x => area.first ≤ x.2) < 8

theorem fits_nil (before : List Opened) : Fits before [] := by
  intro front area behind h
  simp at h

theorem fits_cons_iff {before areas : List Opened} {area : Opened} :
    Fits before (area :: areas) ↔
      (before.countP fun x => area.first ≤ x.2) < 8 ∧ Fits (before ++ [area]) areas := by
  constructor
  · intro h
    refine ⟨by simpa using h [] area areas rfl, fun front x behind heq => ?_⟩
    have hx := h (area :: front) x behind (by rw [heq, List.cons_append])
    rwa [← List.append_cons]
  · rintro ⟨harea, h⟩ front x behind heq
    cases front with
    | nil =>
      obtain ⟨rfl, rfl⟩ := List.cons.inj heq
      simpa using harea
    | cons y front =>
      obtain ⟨rfl, rfl⟩ := List.cons.inj heq
      have hx := h front x behind rfl
      rwa [← List.append_cons] at hx

theorem fits_append_iff {before front areas : List Opened} :
    Fits before (front ++ areas) ↔ Fits before front ∧ Fits (before ++ front) areas := by
  induction front generalizing before with
  | nil =>
    rw [List.nil_append, List.append_nil]
    exact ⟨fun h => ⟨fits_nil before, h⟩, fun h => h.2⟩
  | cons area front ih =>
    rw [List.cons_append, fits_cons_iff, fits_cons_iff, ih, ← List.append_cons, and_assoc]

/-- The areas that begin with a service are pushed if there is room for them. -/
theorem pushAreas_eq {count svcIdx : ℕ} (hcount : svcIdx < count) : ∀ (areas : List FelicaArea)
    (before : List Opened), ∃ now areas',
      reached count svcIdx areas = now ++ reached count (svcIdx + 1) areas' ∧
      (∀ x ∈ now, x.first = svcIdx) ∧
      (¬Fits before now → pushAreas svcIdx areas (stackOf svcIdx before) = none) ∧
      (Fits before now → ∃ lines,
        pushAreas svcIdx areas (stackOf svcIdx before) =
          some (lines, areas', stackOf svcIdx (before ++ now)) ∧
        lines.filterMap DirectoryLine.areaCode? = now.map (fun x => x.1.code) ∧
        lines.filterMap DirectoryLine.serviceBars? = [])
  | [], before => by
    refine ⟨[], [], rfl, by simp, fun h => absurd (fits_nil before) h, fun _ => ?_⟩
    exact ⟨[], by rw [List.append_nil]; rfl, rfl, rfl⟩
  | area :: areas, before => by
    by_cases hne : area.firstIdx.toNat ≠ svcIdx
    · refine ⟨[], area :: areas, reached_succ fun x hx => ?_, by simp,
        fun h => absurd (fits_nil before) h, fun _ => ⟨[], ?_, rfl, rfl⟩⟩
      · obtain rfl := Option.some.inj hx
        exact hne
      · rw [List.append_nil]
        exact if_pos hne
    · have hfirst := not_not.mp hne
      have hreached : reached count svcIdx (area :: areas) =
          (area, closing area (reached count svcIdx areas)) :: reached count svcIdx areas := by
        rw [reached, if_pos ⟨hfirst.ge, hfirst ▸ hcount⟩, hfirst]
      obtain ⟨x, hx⟩ : ∃ x : Opened, (area, closing area (reached count svcIdx areas)) = x :=
        ⟨_, rfl⟩
      have harea : x.1 = area := by rw [← hx]
      have hxfirst : x.first = svcIdx := by rw [← hx]; exact hfirst
      have hopen : svcIdx ≤ x.2 := by
        rw [← hx, ← hfirst]
        exact (le_max_left _ _).trans le_closing
      obtain ⟨now, areas', hnow, hall, hnone, hsome⟩ := pushAreas_eq hcount areas (before ++ [x])
      rw [hx] at hreached
      have hpush : pushAreas svcIdx (area :: areas) (stackOf svcIdx before) =
          if (before.countP fun y => x.first ≤ y.2) < 8 then
            (pushAreas svcIdx areas (stackOf svcIdx (before ++ [x]))).map fun r =>
              (.area (stackOf svcIdx before).length area.code :: r.1, r.2)
          else none := by
        rw [stackOf_push hopen, harea, hxfirst, ← length_stackOf]
        exact if_neg hne
      refine ⟨x :: now, areas', ?_, ?_, fun h => ?_, fun h => ?_⟩
      · rw [hreached, hnow, List.cons_append]
      · intro y hy
        rcases List.mem_cons.mp hy with rfl | hy
        · exact hxfirst
        · exact hall y hy
      · rw [hpush]
        split_ifs with hroom
        · rw [hnone fun hnow => h (fits_cons_iff.mpr ⟨hroom, hnow⟩)]
          rfl
        · rfl
      · obtain ⟨hroom, hnow⟩ := fits_cons_iff.mp h
        obtain ⟨lines, hlines, hareas, hservices⟩ := hsome hnow
        refine ⟨.area (stackOf svcIdx before).length area.code :: lines, ?_, ?_, ?_⟩
        · rw [hpush, if_pos hroom, hlines, ← List.append_cons]
          rfl
        · rw [List.map_cons, harea, ← hareas]
          rfl
        · exact hservices

theorem not_openAt_of_lt {svcIdx : ℕ} {area : Opened} (h : svcIdx < area.first) :
    ¬area.OpenAt svcIdx := fun hopen => absurd hopen.1 (not_le_of_gt h)

theorem length_stackOf_eq {svcIdx : ℕ} {areas later : List Opened}
    (hfirst : ∀ x ∈ areas, x.first ≤ svcIdx) (hlater : ∀ x ∈ later, svcIdx < x.first) :
    (stackOf svcIdx areas).length = (areas ++ later).countP fun x => x.OpenAt svcIdx := by
  have hzero : (later.countP fun x => x.OpenAt svcIdx) = 0 := by
    rw [List.countP_eq_zero]
    intro x hx hopen
    exact not_openAt_of_lt (hlater x hx) (of_decide_eq_true hopen)
  rw [length_stackOf, List.countP_append, hzero, Nat.add_zero]
  refine List.countP_congr fun x hx => ?_
  simp only [decide_eq_true_eq]
  exact ⟨fun h => ⟨hfirst x hx, h⟩, fun h => h.2⟩

/-- The services from one on, each with the bars of the areas that are open, and the areas that are
reached. -/
theorem writeServices_eq : ∀ (services : List FelicaService) {svcIdx count : ℕ},
    count = svcIdx + services.length → ∀ (areas : List FelicaArea) (before : List Opened),
    Closes (before ++ reached count svcIdx areas) → (∀ x ∈ before, x.first < svcIdx) →
    (¬Fits before (reached count svcIdx areas) →
      writeServices svcIdx services areas (stackOf svcIdx before) = none) ∧
    (Fits before (reached count svcIdx areas) → ∃ lines,
      writeServices svcIdx services areas (stackOf svcIdx before) = some lines ∧
      lines.filterMap DirectoryLine.areaCode? =
        (reached count svcIdx areas).map (fun x => x.1.code) ∧
      lines.filterMap DirectoryLine.serviceBars? = services.mapIdx fun i service =>
        (((before ++ reached count svcIdx areas).countP fun x => x.OpenAt (svcIdx + i)) - 1 + 1,
          service.code))
  | [], svcIdx, count, hcount, areas, before, hcloses, hbefore => by
    have hnil : reached count svcIdx areas = [] := by
      refine List.eq_nil_iff_forall_not_mem.mpr fun x hx => ?_
      have hmem := first_of_mem_reached hx
      simp at hcount
      omega
    rw [hnil]
    exact ⟨fun h => absurd (fits_nil before) h, fun _ => ⟨[], rfl, rfl, rfl⟩⟩
  | service :: services, svcIdx, count, hcount, areas, before, hcloses, hbefore => by
    rw [List.length_cons] at hcount
    obtain ⟨now, areas', hnow, hall, hnone, hsome⟩ :=
      pushAreas_eq (show svcIdx < count by omega) areas before
    rw [hnow, ← List.append_assoc] at hcloses
    have hlater : ∀ x ∈ reached count (svcIdx + 1) areas', svcIdx < x.first :=
      fun x hx => (first_of_mem_reached hx).1
    have hle : ∀ x ∈ before ++ now, x.first ≤ svcIdx := by
      intro x hx
      rcases List.mem_append.mp hx with hx | hx
      · exact (hbefore x hx).le
      · exact (hall x hx).le
    have hpop := popArea_stackOf hcloses hle fun x hx => not_openAt_of_lt (hlater x hx)
    have hcount' : count = svcIdx + 1 + services.length := by omega
    obtain ⟨hfull, hfits⟩ := writeServices_eq services hcount' areas' (before ++ now) hcloses
      fun x hx => Nat.lt_succ_of_le (hle x hx)
    rw [hnow, fits_append_iff]
    refine ⟨fun h => ?_, fun h => ?_⟩
    · rw [writeServices]
      by_cases hroom : Fits before now
      · obtain ⟨lines, hlines, -, -⟩ := hsome hroom
        rw [hlines]
        dsimp only
        rw [hpop, hfull fun hrest => h ⟨hroom, hrest⟩]
        rfl
      · rw [hnone hroom]
    · obtain ⟨lines, hlines, hareas, hservices⟩ := hsome h.1
      obtain ⟨rest, hrest, hareas', hservices'⟩ := hfits h.2
      refine ⟨lines ++ .service (stackOf svcIdx (before ++ now)).length (isPublic service)
        service.code :: rest, ?_, ?_, ?_⟩
      · rw [writeServices, hlines]
        dsimp only
        rw [hpop, hrest]
        rfl
      · rw [List.filterMap_append, hareas, List.map_append, ← hareas']
        rfl
      · have hdepth : (stackOf svcIdx (before ++ now)).length =
            (before ++ now ++ reached count (svcIdx + 1) areas').countP
              fun x => x.OpenAt (svcIdx + 0) := length_stackOf_eq hle hlater
        rw [List.filterMap_append, hservices, List.nil_append, List.mapIdx_cons,
          ← List.append_assoc, ← hdepth]
        refine (congrArg (_ :: ·) hservices').trans ?_
        simp only [Nat.add_assoc, Nat.add_comm 1]

/-! ## Layouts -/

/-- The service is in the range of the area. -/
def Contains (svcIdx : ℕ) (area : FelicaArea) : Prop :=
  area.firstIdx.toNat ≤ svcIdx ∧ svcIdx ≤ area.lastIdx.toNat

instance (svcIdx : ℕ) (area : FelicaArea) : Decidable (Contains svcIdx area) :=
  inferInstanceAs (Decidable (_ ∧ _))

/-- Areas that are sorted and nested, at most eight in each other, with services that exist. -/
structure Nested (system : FelicaSystem) : Prop where
  sorted : system.areas.Pairwise fun a b => a.firstIdx.toNat ≤ b.firstIdx.toNat
  nested : system.areas.Pairwise fun a b => (∀ k, ¬(Contains k a ∧ Contains k b)) ∨
    (∀ k, Contains k a → Contains k b) ∨ ∀ k, Contains k b → Contains k a
  depth : ∀ k, (system.areas.countP fun a => Contains k a) ≤ 8
  existing : ∀ a ∈ system.areas, ∀ k, Contains k a → k < system.services.length

/-- The stack has room, and of nested areas each area is written once and each service once, with a
bar for each area that it is in. -/
def WritesDirectory (system : FelicaSystem) : Prop :=
  ∃ lines, system.directoryLines = some lines ∧ (system.Nested →
    lines.filterMap DirectoryLine.areaCode? = system.areas.map (fun area => area.code) ∧
    lines.filterMap DirectoryLine.serviceBars? = system.services.mapIdx fun i service =>
      (system.areas.countP fun a => Contains i a, service.code))

/-- Each service is in an area and each area has a service; no two areas end with one service but the
last; and of two that begin with one service the one in front does not end first. -/
structure Tidy (system : FelicaSystem) : Prop where
  covered : ∀ i < system.services.length, ∃ a ∈ system.areas, Contains i a
  nonempty : ∀ a ∈ system.areas, a.firstIdx.toNat ≤ a.lastIdx.toNat
  ends : system.areas.Pairwise fun a b =>
    a.lastIdx = b.lastIdx → system.services.length ≤ a.lastIdx.toNat + 1
  begins : system.areas.Pairwise fun a b =>
    a.firstIdx = b.firstIdx → b.lastIdx.toNat ≤ a.lastIdx.toNat

theorem prefix_map_fst_reached (count : ℕ) : ∀ (svcIdx : ℕ) (areas : List FelicaArea),
    (reached count svcIdx areas).map Prod.fst <+: areas
  | _, [] => List.prefix_rfl
  | svcIdx, area :: areas => by
    rw [reached]
    split_ifs with h
    · exact (List.prefix_cons_inj area).mpr (prefix_map_fst_reached count _ areas)
    · exact List.nil_prefix

theorem map_fst_reached {count : ℕ} : ∀ {svcIdx : ℕ} {areas : List FelicaArea},
    areas.Pairwise (fun a b => a.firstIdx.toNat ≤ b.firstIdx.toNat) →
    (∀ a ∈ areas, svcIdx ≤ a.firstIdx.toNat ∧ a.firstIdx.toNat < count) →
    (reached count svcIdx areas).map Prod.fst = areas
  | _, [], _, _ => rfl
  | svcIdx, area :: areas, hsorted, hall => by
    obtain ⟨hhead, htail⟩ := List.pairwise_cons.mp hsorted
    have hrest := map_fst_reached htail fun a ha =>
      ⟨hhead a ha, (hall a (List.mem_cons_of_mem _ ha)).2⟩
    rw [reached, if_pos (hall area List.mem_cons_self), List.map_cons, hrest]

theorem imp_of_countP_le {α : Type*} {p q : α → Bool} : ∀ {l : List α},
    (∀ x ∈ l, p x = true → q x = true) → l.countP q ≤ l.countP p →
    ∀ x ∈ l, q x = true → p x = true
  | [], _, _, _, hx, _ => absurd hx List.not_mem_nil
  | y :: l, hpq, hle, x, hx, hq => by
    have hrest : ∀ x ∈ l, p x = true → q x = true := fun x hx => hpq x (List.mem_cons_of_mem _ hx)
    have hmono := List.countP_mono_left hrest
    have hy := hpq y List.mem_cons_self
    rw [List.countP_cons, List.countP_cons] at hle
    rcases List.mem_cons.mp hx with rfl | hx
    · by_contra hp
      rw [if_pos hq, if_neg hp] at hle
      omega
    · refine imp_of_countP_le hrest ?_ x hx hq
      by_cases hp : p y = true
      · rw [if_pos hp, if_pos (hy hp)] at hle
        omega
      · rw [if_neg hp] at hle
        omega

theorem pairwise_of_append {α : Type*} {R : α → α → Prop} {l : List α}
    (h : ∀ before x later, l = before ++ x :: later → ∀ y ∈ later, R x y) : l.Pairwise R := by
  induction l with
  | nil => exact .nil
  | cons a l ih =>
    refine List.pairwise_cons.mpr ⟨h [] a l rfl, ih fun before x later heq => ?_⟩
    exact h (a :: before) x later (by rw [heq, List.cons_append])

section Layout

variable {system : FelicaSystem}

/-- The areas of a system that are reached. -/
def opened (system : FelicaSystem) : List Opened :=
  reached system.services.length 0 system.areas

theorem directoryLines_eq (system : FelicaSystem) :
    (¬Fits [] system.opened → system.directoryLines = none) ∧
    (Fits [] system.opened → ∃ lines, system.directoryLines = some lines ∧
      lines.filterMap DirectoryLine.areaCode? = system.opened.map (fun x => x.1.code) ∧
      lines.filterMap DirectoryLine.serviceBars? = system.services.mapIdx fun i service =>
        ((system.opened.countP fun x => x.OpenAt i) - 1 + 1, service.code)) := by
  have h := writeServices_eq system.services (Nat.zero_add _).symm system.areas []
    (closes_reached _ 0 system.areas) (by simp)
  simp only [List.nil_append, Nat.zero_add] at h
  exact h

theorem le_of_mem_opened {x : Opened} (hx : x ∈ system.opened) : x.first ≤ x.2 ∧ x.last ≤ x.2 := by
  obtain ⟨before, later, heq⟩ := List.append_of_mem hx
  have hclosing := closes_reached _ 0 system.areas before x later heq
  rw [hclosing]
  exact ⟨(le_max_left _ _).trans le_closing, (le_max_right _ _).trans le_closing⟩

/-- Each service has a bar for each area that it is in. -/
def BarsRight (system : FelicaSystem) : Prop :=
  ∀ i < system.services.length, (system.opened.countP fun x => x.OpenAt i) - 1 + 1 =
    system.opened.countP fun x => Contains i x.1

theorem BarsRight.contains (h : system.BarsRight) {i : ℕ} (hi : i < system.services.length)
    {x : Opened} (hx : x ∈ system.opened) (hopen : x.OpenAt i) : Contains i x.1 := by
  have hbars := h i hi
  have himp : ∀ x ∈ system.opened, decide (Contains i x.1) = true → decide (x.OpenAt i) = true := by
    intro x hx hc
    have hc := of_decide_eq_true hc
    exact decide_eq_true ⟨hc.1, hc.2.trans (le_of_mem_opened hx).2⟩
  have hmono := List.countP_mono_left himp
  have hle : (system.opened.countP fun x => x.OpenAt i) ≤
      system.opened.countP fun x => Contains i x.1 := by omega
  exact of_decide_eq_true (imp_of_countP_le himp hle x hx (decide_eq_true hopen))

theorem BarsRight.closing_eq (h : system.BarsRight) {x : Opened} (hx : x ∈ system.opened)
    (hlast : x.last + 1 < system.services.length) : x.2 = x.last := by
  obtain ⟨hfirst, hle⟩ := le_of_mem_opened hx
  by_contra hne
  have hnonempty : Contains x.first x.1 :=
    h.contains (first_of_mem_reached hx).2 hx ⟨le_rfl, hfirst⟩
  have hfl : x.first ≤ x.last := hnonempty.2
  have hcontains := h.contains hlast hx ⟨by omega, by omega⟩
  exact absurd hcontains.2 (Nat.not_succ_le_self _)

theorem BarsRight.not_openAt (h : system.BarsRight) {before later : List Opened} {x y : Opened}
    (heq : system.opened = before ++ x :: later) (hy : y ∈ later)
    (hlast : x.last + 1 < system.services.length) : ¬y.OpenAt x.last := by
  have hx : x ∈ system.opened := by simp [heq]
  rw [← h.closing_eq hx hlast, closes_reached _ 0 system.areas before x later heq]
  exact not_openAt_closing hy

theorem tidy_of_barsRight (hnested : system.Nested)
    (hareas : system.opened.map Prod.fst = system.areas) (h : system.BarsRight) : system.Tidy := by
  have hnonempty : ∀ x ∈ system.opened, x.first ≤ x.last := fun x hx =>
    (h.contains (first_of_mem_reached hx).2 hx ⟨le_rfl, (le_of_mem_opened hx).1⟩).2
  have hexisting : ∀ x ∈ system.opened, x.last < system.services.length := fun x hx =>
    hnested.existing x.1 (hareas ▸ List.mem_map_of_mem hx) x.last ⟨hnonempty x hx, le_rfl⟩
  refine ⟨fun i hi => ?_, fun a ha => ?_, ?_, ?_⟩
  · have hpos : 0 < system.opened.countP fun x => Contains i x.1 := by
      rw [← h i hi]
      exact Nat.succ_pos _
    obtain ⟨x, hx, hc⟩ := List.countP_pos_iff.mp hpos
    exact ⟨x.1, hareas ▸ List.mem_map_of_mem hx, of_decide_eq_true hc⟩
  · rw [← hareas] at ha
    obtain ⟨x, hx, rfl⟩ := List.mem_map.mp ha
    exact hnonempty x hx
  · rw [← hareas, List.pairwise_map]
    refine pairwise_of_append fun before (x : Opened) later heq (y : Opened) hy hends => ?_
    have hymem : y ∈ system.opened := by simp [heq, hy]
    by_contra hlt
    have hlast : y.last = x.last := congrArg UInt16.toNat hends.symm
    refine h.not_openAt heq hy (not_le.mp hlt) ⟨?_, ?_⟩
    · rw [← hlast]
      exact hnonempty y hymem
    · rw [← hlast]
      exact (le_of_mem_opened hymem).2
  · rw [← hareas, List.pairwise_map]
    refine pairwise_of_append fun before (x : Opened) later heq (y : Opened) hy hbegins => ?_
    have hxmem : x ∈ system.opened := by simp [heq]
    have hymem : y ∈ system.opened := by simp [heq, hy]
    by_contra hlt
    have hlt : x.last < y.last := not_le.mp hlt
    have hfirst : x.first = y.first := congrArg UInt16.toNat hbegins
    have hend := hexisting y hymem
    refine h.not_openAt heq hy (by omega) ⟨?_, ?_⟩
    · rw [← hfirst]
      exact hnonempty x hxmem
    · exact hlt.le.trans (le_of_mem_opened hymem).2

theorem opened_of_tidy (hnested : system.Nested) (h : system.Tidy) :
    system.opened.map Prod.fst = system.areas :=
  map_fst_reached hnested.sorted fun a ha =>
    ⟨Nat.zero_le _, hnested.existing a ha _ ⟨le_rfl, h.nonempty a ha⟩⟩

/-- In a tidy layout an area closes with its last service, or with the last one there is. -/
theorem closing_of_tidy (hnested : system.Nested) (h : system.Tidy) :
    ∀ (later before : List Opened), system.opened = before ++ later →
      ∀ x ∈ later, x.last + 1 < system.services.length → x.2 = x.last
  | [], _, _, x, hx, _ => absurd hx List.not_mem_nil
  | y :: later, before, heq, x, hx, hlast => by
    have hrest := closing_of_tidy hnested h later (before ++ [y]) (by rw [heq, List.append_cons])
    rcases List.mem_cons.mp hx with rfl | hx
    · have hareas := opened_of_tidy hnested h
      have hmem : ∀ z ∈ system.opened, z.1 ∈ system.areas := fun z hz => by
        rw [← hareas]
        exact List.mem_map_of_mem hz
      have hxmem : x ∈ system.opened := by simp [heq]
      have hpair : ∀ {R : FelicaArea → FelicaArea → Prop}, system.areas.Pairwise R →
          ∀ z ∈ later, R x.1 z.1 := by
        intro R hR z hz
        rw [← hareas, List.pairwise_map, heq, List.pairwise_append, List.pairwise_cons] at hR
        exact hR.2.1.1 z hz
      have hfl : x.first ≤ x.last := h.nonempty x.1 (hmem x hxmem)
      refine le_antisymm ?_ (le_of_mem_opened hxmem).2
      rw [closes_reached _ 0 system.areas before x later heq]
      refine closing_le (max_le hfl le_rfl) fun z hz hopen => ?_
      have hzmem : z ∈ system.opened := by simp [heq, hz]
      have hsorted : x.first ≤ z.first := hpair hnested.sorted z hz
      have hends : x.last ≠ z.last := fun hends => by
        have hlen := hpair h.ends z hz (UInt16.toNat_inj.mp hends)
        exact absurd hlast (not_lt_of_ge hlen)
      have hzfl : z.first ≤ z.last := h.nonempty z.1 (hmem z hzmem)
      have hbegins : x.first = z.first → z.last ≤ x.last :=
        fun hbegins => hpair h.begins z hz (UInt16.toNat_inj.mp hbegins)
      have hclosed := hrest z hz
      obtain ⟨hzx, hxz⟩ := hopen
      rcases hpair hnested.nested z hz with hdisjoint | hin | hin
      · exact hdisjoint z.first ⟨⟨hsorted, hzx⟩, ⟨le_rfl, hzfl⟩⟩
      · have hxin : z.first ≤ x.first := (hin x.first ⟨le_rfl, hfl⟩).1
        have hxlast : x.last ≤ z.last := (hin x.last ⟨hfl, le_rfl⟩).2
        have hback := hbegins (by omega)
        omega
      · have hzlast : z.last ≤ x.last := (hin z.last ⟨hzfl, le_rfl⟩).2
        have hlt : z.last < x.last := by omega
        rw [hclosed (by omega)] at hxz
        omega
    · exact hrest x hx hlast

theorem barsRight_of_tidy (hnested : system.Nested) (h : system.Tidy) : system.BarsRight := by
  intro i hi
  have hareas := opened_of_tidy hnested h
  have heq : (system.opened.countP fun x => x.OpenAt i) =
      system.opened.countP fun x => Contains i x.1 := by
    refine List.countP_congr fun x hx => ?_
    simp only [decide_eq_true_eq]
    constructor
    · rintro ⟨hfirst, hle⟩
      refine ⟨hfirst, ?_⟩
      by_cases hlast : x.last + 1 < system.services.length
      · rwa [closing_of_tidy hnested h system.opened [] rfl x hx hlast] at hle
      · exact Nat.lt_succ_iff.mp (hi.trans_le (not_lt.mp hlast))
    · exact fun hc => ⟨hc.1, hc.2.trans (le_of_mem_opened hx).2⟩
  have hpos : 0 < system.opened.countP fun x => Contains i x.1 := by
    obtain ⟨a, ha, hc⟩ := h.covered i hi
    rw [← hareas] at ha
    obtain ⟨x, hx, rfl⟩ := List.mem_map.mp ha
    exact List.countP_pos_iff.mpr ⟨x, hx, decide_eq_true hc⟩
  rw [heq]
  omega

theorem mapIdx_eq_iff {α β : Type*} {l : List α} {f g : ℕ → α → β} :
    l.mapIdx f = l.mapIdx g ↔ ∀ i (h : i < l.length), f i l[i] = g i l[i] := by
  constructor
  · intro heq i h
    have hget := congrArg (fun l => l[i]?) heq
    simpa [h] using hget
  · intro h
    refine List.ext_getElem (by simp) fun i h1 h2 => ?_
    simpa using h i (by simpa using h1)

/-- The directory is right exactly when the stack has room and, of nested areas, the layout is
tidy. -/
theorem writesDirectory_iff (system : FelicaSystem) :
    system.WritesDirectory ↔ Fits [] system.opened ∧ (system.Nested → system.Tidy) := by
  obtain ⟨hnone, hsome⟩ := directoryLines_eq system
  constructor
  · rintro ⟨lines, hlines, hright⟩
    have hfits : Fits [] system.opened := by
      by_contra hfull
      rw [hnone hfull] at hlines
      cases hlines
    refine ⟨hfits, fun hnested => ?_⟩
    obtain ⟨lines', hlines', hareas, hservices⟩ := hsome hfits
    obtain rfl := Option.some.inj (hlines.symm.trans hlines')
    obtain ⟨hareas', hservices'⟩ := hright hnested
    have hmap : system.opened.map Prod.fst = system.areas := by
      refine (prefix_map_fst_reached _ 0 system.areas).eq_of_length ?_
      have hlen := congrArg List.length (hareas.symm.trans hareas')
      rw [List.length_map, List.length_map] at hlen
      rw [List.length_map]
      exact hlen
    refine tidy_of_barsRight hnested hmap fun i hi => ?_
    have hbars := mapIdx_eq_iff.mp (hservices.symm.trans hservices') i hi
    rw [← hmap, List.countP_map] at hbars
    exact (Prod.mk.inj hbars).1
  · rintro ⟨hfits, htidy⟩
    obtain ⟨lines, hlines, hareas, hservices⟩ := hsome hfits
    refine ⟨lines, hlines, fun hnested => ?_⟩
    have hmap := opened_of_tidy hnested (htidy hnested)
    have hbars := barsRight_of_tidy hnested (htidy hnested)
    refine ⟨?_, hservices.trans (mapIdx_eq_iff.mpr fun i hi => ?_)⟩
    · rw [hareas, ← hmap, List.map_map]
      rfl
    · rw [← hmap, List.countP_map]
      exact congrArg (fun n => (n, system.services[i].code)) (hbars i hi)

end Layout

/-- Nine areas with one service, and two areas that end with a service before the last one. -/
theorem not_writesDirectory :
    ¬WritesDirectory ⟨0xFE00, 0, [⟨0x0009, 0x09, 0⟩], List.replicate 9 ⟨0, 0xFFFE, 0, 0, 0⟩, []⟩ ∧
    ¬WritesDirectory ⟨0xFE00, 0, List.replicate 3 ⟨0x0009, 0x09, 0⟩,
      [⟨0, 0xFFFE, 0, 2, 0⟩, ⟨0x1000, 0x1FFE, 0, 1, 0⟩, ⟨0x1100, 0x11FE, 1, 1, 0⟩], []⟩ := by
  constructor
  · rintro ⟨lines, hlines, -⟩
    cases hlines
  · rintro ⟨lines, hlines, hright⟩
    obtain rfl := Option.some.inj hlines
    have hnested : Nested ⟨0xFE00, 0, List.replicate 3 ⟨0x0009, 0x09, 0⟩,
        [⟨0, 0xFFFE, 0, 2, 0⟩, ⟨0x1000, 0x1FFE, 0, 1, 0⟩, ⟨0x1100, 0x11FE, 1, 1, 0⟩], []⟩ := by
      refine ⟨by decide, ?_, fun k => List.countP_le_length.trans (by decide), ?_⟩
      · refine List.Pairwise.imp (R := fun a b => a.firstIdx.toNat ≤ b.firstIdx.toNat ∧
          b.lastIdx.toNat ≤ a.lastIdx.toNat) (fun h => .inr (.inr fun k hk => ?_)) (by decide)
        exact ⟨h.1.trans hk.1, hk.2.trans h.2⟩
      · have hlast : ∀ a ∈ ([⟨0, 0xFFFE, 0, 2, 0⟩, ⟨0x1000, 0x1FFE, 0, 1, 0⟩,
            ⟨0x1100, 0x11FE, 1, 1, 0⟩] : List FelicaArea), a.lastIdx.toNat < 3 := by decide
        exact fun a ha k hk => hk.2.trans_lt (hlast a ha)
    exact absurd (hright hnested).2 (by decide)

end FelicaSystem

end KiisuFirmware
