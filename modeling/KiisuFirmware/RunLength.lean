import Mathlib.Tactic

/-!
# Run lengths

A list as the runs of equal elements that it is made of.
-/

namespace RunLength

variable {α : Type*} [DecidableEq α]

/-- Runs with one more element in front. -/
def consRun (a : α) : List (α × ℕ) → List (α × ℕ)
  | [] => [(a, 1)]
  | (b, n) :: rs => if a = b then (b, n + 1) :: rs else (a, 1) :: (b, n) :: rs

def runs : List α → List (α × ℕ)
  | [] => []
  | a :: l => consRun a (runs l)

/-- What the runs are made of. -/
def expand (rs : List (α × ℕ)) : List α := rs.flatMap fun r => List.replicate r.2 r.1

/-- The runs behind the first `n` elements of one. -/
def runsFrom (a : α) (n : ℕ) : List α → List (α × ℕ)
  | [] => [(a, n)]
  | b :: l => if a = b then runsFrom a (n + 1) l else (a, n) :: runsFrom b 1 l

theorem runsFrom_succ (a : α) : ∀ (n : ℕ) (l : List α), runsFrom a (n + 2) l =
    consRun a (runsFrom a (n + 1) l)
  | n, [] => by simp [runsFrom, consRun]
  | n, b :: l => by
    rw [runsFrom, runsFrom]
    split_ifs
    · exact runsFrom_succ a (n + 1) l
    · simp [consRun]

theorem runsFrom_head (a : α) : ∀ (n : ℕ) (l : List α),
    ∃ m rs, runsFrom a n l = (a, m) :: rs ∧ n ≤ m
  | n, [] => ⟨n, [], rfl, le_rfl⟩
  | n, b :: l => by
    rw [runsFrom]
    split_ifs
    · obtain ⟨m, rs, hrs, hle⟩ := runsFrom_head a (n + 1) l
      exact ⟨m, rs, hrs, by omega⟩
    · exact ⟨n, _, rfl, le_rfl⟩

theorem runs_cons (a : α) (l : List α) : runs (a :: l) = runsFrom a 1 l := by
  induction l generalizing a with
  | nil => rfl
  | cons b l ih =>
    rw [runs, ih, runsFrom]
    split_ifs with h
    · rw [h, runsFrom_succ]
    · obtain ⟨m, rs, hrs, -⟩ := runsFrom_head b 1 l
      rw [hrs, consRun, if_neg h]

end RunLength
