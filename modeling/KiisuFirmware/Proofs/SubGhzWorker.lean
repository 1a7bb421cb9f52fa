import Mathlib.Data.List.ReduceOption
import KiisuFirmware.SubGhzWorker

/-!
# What the worker passes on alternates, and nothing of it is lost

The pairs and the level that is still held are one sequence. Its first level is the one that was held
at the start, longer by what has been glued to it, and each later one starts with what was long
enough.
-/

namespace KiisuFirmware

namespace SubGhzWorker

/-- A sequence of levels that goes on from one that is held, with so much received. -/
structure Continues (filterDuration : ℕ) (held : LevelDuration) (total : ℕ)
    (levels : List LevelDuration) : Prop where
  first : ∃ first rest, levels = first :: rest ∧ first.level = held.level ∧
    held.duration ≤ first.duration ∧ ∀ level ∈ rest, filterDuration ≤ level.duration
  alternates : levels.IsChain fun level next => next.level ≠ level.level
  total : totalDuration levels = held.duration + total

theorem Continues.refl (filterDuration : ℕ) (held : LevelDuration) :
    Continues filterDuration held 0 [held] :=
  ⟨⟨held, [], rfl, rfl, le_rfl, by simp⟩, by simp, by simp [totalDuration]⟩

theorem Continues.glue {filterDuration total : ℕ} {held : LevelDuration} {duration : ℕ}
    {levels : List LevelDuration}
    (h : Continues filterDuration ⟨held.level, held.duration + duration⟩ total levels) :
    Continues filterDuration held (duration + total) levels := by
  obtain ⟨⟨first, rest, hlevels, hlevel, hle, hrest⟩, halternates, htotal⟩ := h
  refine ⟨⟨first, rest, hlevels, hlevel, ?_, hrest⟩, halternates, ?_⟩
  · dsimp only at hle
    omega
  · dsimp only at htotal
    omega

theorem Continues.switch {filterDuration total : ℕ} {held item : LevelDuration}
    {levels : List LevelDuration} (h : Continues filterDuration item total levels)
    (hlong : filterDuration ≤ item.duration) (hlevel : item.level ≠ held.level) :
    Continues filterDuration held (item.duration + total) (held :: levels) := by
  obtain ⟨⟨first, rest, hlevels, hfirst, hle, hrest⟩, halternates, htotal⟩ := h
  refine ⟨⟨held, levels, rfl, rfl, le_rfl, ?_⟩, ?_, ?_⟩
  · rw [hlevels]
    exact List.forall_mem_cons.2 ⟨hlong.trans hle, hrest⟩
  · rw [hlevels] at halternates ⊢
    refine List.isChain_cons_cons.2 ⟨?_, halternates⟩
    rw [hfirst]
    exact hlevel
  · rw [totalDuration] at htotal ⊢
    rw [List.map_cons, List.sum_cons, htotal]

theorem levelDurationBits_of_lt {duration : ℕ} (h : duration < 2 ^ 30) :
    levelDurationBits duration = duration := Nat.mod_eq_of_lt h

theorem threadCallback_cases (worker : SubGhzWorker) :
    worker.threadCallback.2.filterDuration = worker.filterDuration ∧
      (receivedLevels [worker.threadCallback.1] = [] ∧ worker.threadCallback.1.pair = none ∧
          worker.threadCallback.2.filterLevelDuration = worker.filterLevelDuration ∨
        ∃ item, receivedLevels [worker.threadCallback.1] = [item] ∧
          (worker.threadCallback.1.pair = none ∧
              worker.threadCallback.2.filterLevelDuration =
                ⟨worker.filterLevelDuration.level,
                  levelDurationBits (worker.filterLevelDuration.duration + item.duration)⟩ ∨
            worker.threadCallback.1.pair = some worker.filterLevelDuration ∧
              worker.filterDuration ≤ item.duration ∧
              item.level ≠ worker.filterLevelDuration.level ∧
              worker.threadCallback.2.filterLevelDuration = item)) := by
  rw [threadCallback]
  rcases hstream : worker.stream with _ | ⟨_ | item, stream⟩
  · exact ⟨rfl, .inl ⟨rfl, rfl, rfl⟩⟩
  · exact ⟨rfl, .inl ⟨rfl, rfl, rfl⟩⟩
  · dsimp only
    rw [filter]
    split_ifs with hglued
    · exact ⟨rfl, .inr ⟨item, rfl, .inl ⟨rfl, rfl⟩⟩⟩
    · rw [not_or, Nat.not_lt] at hglued
      exact ⟨rfl, .inr ⟨item, rfl, .inr ⟨rfl, hglued.1, Ne.symm hglued.2, rfl⟩⟩⟩

theorem receivedLevels_cons (output : WorkerOutput) (outputs : List WorkerOutput) :
    receivedLevels (output :: outputs) = receivedLevels [output] ++ receivedLevels outputs := by
  rw [receivedLevels, ← List.singleton_append, List.filterMap_append, List.reduceOption_append]
  rfl

theorem passedPairs_cons (output : WorkerOutput) (outputs : List WorkerOutput) :
    passedPairs (output :: outputs) = output.pair.toList ++ passedPairs outputs := by
  rw [passedPairs, List.filterMap_cons]
  cases output.pair <;> rfl

theorem run_continues : ∀ (inputs : List WorkerInput) {worker : SubGhzWorker},
    worker.filterLevelDuration.duration +
        totalDuration (receivedLevels (run step worker inputs).1) < 2 ^ 30 →
      Continues worker.filterDuration worker.filterLevelDuration
        (totalDuration (receivedLevels (run step worker inputs).1))
        (passedPairs (run step worker inputs).1 ++
          [(run step worker inputs).2.filterLevelDuration])
  | [], worker, _ => .refl worker.filterDuration worker.filterLevelDuration
  | .rx level duration sent :: inputs, worker, h => by
    have hkept : (worker.rxCallback level duration sent).filterLevelDuration =
          worker.filterLevelDuration ∧
        (worker.rxCallback level duration sent).filterDuration = worker.filterDuration := by
      rw [rxCallback]
      split_ifs <;> exact ⟨rfl, rfl⟩
    obtain ⟨hheld, hfilter⟩ := hkept
    have hrest := @run_continues inputs (worker.rxCallback level duration sent)
    rw [hheld, hfilter] at hrest
    exact hrest h
  | .receive :: inputs, worker, h => by
    obtain ⟨hfilter, hcases⟩ := threadCallback_cases worker
    have hrest := @run_continues inputs worker.threadCallback.2
    have hreceived : receivedLevels (run step worker (.receive :: inputs)).1 =
        receivedLevels [worker.threadCallback.1] ++
          receivedLevels (run step worker.threadCallback.2 inputs).1 := receivedLevels_cons _ _
    have hpassed : passedPairs (run step worker (.receive :: inputs)).1 =
        worker.threadCallback.1.pair.toList ++
          passedPairs (run step worker.threadCallback.2 inputs).1 := passedPairs_cons _ _
    have hfinal : (run step worker (.receive :: inputs)).2 =
        (run step worker.threadCallback.2 inputs).2 := rfl
    rw [hreceived] at h
    rw [hreceived, hpassed, hfinal, List.append_assoc]
    rw [hfilter] at hrest
    rcases hcases with ⟨hnone, hpair, hheld⟩ | ⟨item, hitem, hglued | hswitched⟩
    · rw [hnone] at h ⊢
      rw [hheld] at hrest
      rw [hpair]
      exact hrest h
    · obtain ⟨hpair, hheld⟩ := hglued
      have htotal : totalDuration (receivedLevels [worker.threadCallback.1] ++
          receivedLevels (run step worker.threadCallback.2 inputs).1) = item.duration +
            totalDuration (receivedLevels (run step worker.threadCallback.2 inputs).1) := by
        simp [hitem, totalDuration]
      rw [htotal] at h ⊢
      rw [hheld, levelDurationBits_of_lt (by omega)] at hrest
      rw [hpair]
      exact (hrest (by dsimp only; omega)).glue
    · obtain ⟨hpair, hlong, hlevel, hheld⟩ := hswitched
      have htotal : totalDuration (receivedLevels [worker.threadCallback.1] ++
          receivedLevels (run step worker.threadCallback.2 inputs).1) = item.duration +
            totalDuration (receivedLevels (run step worker.threadCallback.2 inputs).1) := by
        simp [hitem, totalDuration]
      rw [htotal] at h ⊢
      rw [hheld] at hrest
      rw [hpair]
      exact (hrest (by omega)).switch hlong hlevel

end SubGhzWorker

open SubGhzWorker

/-- Whatever order the timer and the thread take turns in, and whatever is lost. -/
theorem subGhzWorker_filter (filterDuration : ℕ) (inputs : List WorkerInput)
    (h : totalDuration (receivedLevels (run step (alloc filterDuration) inputs).1) < 2 ^ 30) :
    (passedPairs (run step (alloc filterDuration) inputs).1).IsChain
        (fun pair next => next.level ≠ pair.level) ∧
      (∀ pair ∈ (passedPairs (run step (alloc filterDuration) inputs).1).tail,
        filterDuration ≤ pair.duration) ∧
      totalDuration (passedPairs (run step (alloc filterDuration) inputs).1) +
          (run step (alloc filterDuration) inputs).2.filterLevelDuration.duration =
        totalDuration (receivedLevels (run step (alloc filterDuration) inputs).1) := by
  obtain ⟨⟨first, rest, hlevels, -, -, hrest⟩, halternates, htotal⟩ :=
    @run_continues inputs (alloc filterDuration) (by simpa [alloc] using h)
  refine ⟨halternates.left_of_append, fun pair hpair => ?_, ?_⟩
  · cases hpairs : passedPairs (run step (alloc filterDuration) inputs).1 with
    | nil =>
      rw [hpairs] at hpair
      cases hpair
    | cons passed pairs =>
      rw [hpairs] at hpair hlevels
      obtain ⟨-, hrest'⟩ := List.cons.inj hlevels
      exact hrest pair (by rw [← hrest']; exact List.mem_append_left _ hpair)
  · simpa [totalDuration, alloc] using htotal

/-- A glitch, a level, one that is lost, and then one that has the level that is held. -/
def glitchInputs : List WorkerInput :=
  [.rx true 10 true, .receive, .rx true 500 true, .rx false 300 false, .rx false 20 true,
    .receive, .receive, .rx true 40 true, .rx false 400 true, .receive, .receive]

theorem subGhzWorker_filter_glitch :
    passedPairs (run step (alloc 30) glitchInputs).1 = [⟨false, 10⟩, ⟨true, 540⟩] ∧
      ∀ pair ∈ (passedPairs (run step (alloc 30) glitchInputs).1).tail, 30 ≤ pair.duration :=
  ⟨by decide, (subGhzWorker_filter 30 glitchInputs (by decide)).2.1⟩

end KiisuFirmware
