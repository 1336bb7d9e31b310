import OneCounter.Proofs.Rounds

/-!
Runs of the counter, and soundness of a finished analysis: every run that stays strictly within
the counter range enters its last node with a value that the analysis holds there. A node that is
not reported reachable is entered by no such run.
-/

namespace OneCounter

namespace Automaton

/-- Runs over visible nodes by their length, with the last two nodes and the value on entry. The
run of length zero is at the initial node and counts as coming from there. Every value on entry
is admitted by the node, and the values after the first are subject to one more condition. -/
inductive Run (a : Automaton) (allowed : ℚ → Prop) : Nat → String → String → ℚ → Prop where
  | start {initial : String} (resolved : a.initial? = some initial)
      (visible : initial ∈ a.visible) (admits : a.Admits initial ((a.start.toInt : ℚ) : ExtRat)) :
      Run a allowed 0 initial initial a.start.toInt
  | step {n : Nat} {origin node stop : String} {x t : ℚ} {data : EdgeData}
      (before : Run a allowed n origin node x) (edge : a.edgeData? node stop = some data)
      (visible : stop ∈ a.visible) (adds : data.delta.Adds t)
      (admits : a.Admits stop ((x + t : ℚ) : ExtRat)) (inside : allowed (x + t)) :
      Run a allowed (n + 1) node stop (x + t)

end Automaton

namespace Reach

theorem brings_of_holds {reach : Reach} {origin node stop : String} {data : EdgeData} {x t : ℚ}
    (holds : reach.Holds node origin x) (adds : data.delta.Adds t)
    (inside : Count.Inside (x + t)) :
    Edge.Brings ⟨data, node, stop⟩ reach ((x + t : ℚ) : ExtRat) := by
  obtain ⟨values, found, member⟩ := holds
  exact ⟨origin, values, found, Region.isEmpty_eq_false_of_mem member,
    Edge.mem_carry_of_adds member adds inside⟩

end Reach

namespace Solver

variable {s s' : Solver} {initial : String}

theorem isReachable_of_holds {node origin : String} {v : ExtRat}
    (holds : s.live.Holds node origin v) : s.isReachable node = true := by
  obtain ⟨values, found, member⟩ := holds
  obtain ⟨arrivals, present, stored⟩ := (Reach.values?_eq_some_iff s.live _ _ _).mp found
  have inhabited := Region.isEmpty_eq_false_of_mem member
  have listed := (Table.mem_values_iff arrivals values).mpr ⟨origin, stored⟩
  rw [isReachable, present, Option.any_some, Arrivals.isReachable, List.any_eq_true]
  exact ⟨values, listed, by simp [inhabited]⟩

/-- The states that single rounds and whole runs lead to. -/
inductive Driven (first : Solver) : Solver → Prop where
  | fresh : Driven first first
  | advanced {s s' : Solver} (before : Driven first s) (ok : s.advance = .ok s') : Driven first s'
  | ran {s s' : Solver} (before : Driven first s) (ok : s.run = .ok s') : Driven first s'

theorem runFor_eq_iterate (fuel : Nat) (s : Solver) : ∃ n, runFor fuel s = round^[n] s := by
  induction fuel generalizing s with
  | zero => exact ⟨0, rfl⟩
  | succ fuel ih =>
      rw [runFor]
      split
      · exact ⟨0, rfl⟩
      · obtain ⟨n, equal⟩ := ih s.round
        exact ⟨n + 1, equal.trans (Function.iterate_succ_apply round n s).symm⟩

theorem run_eq_ok (ok : s.run = .ok s') : ∃ n, s' = round^[n] s := by
  unfold run at ok
  split at ok
  · cases ok
  · obtain ⟨n, equal⟩ := runFor_eq_iterate s.horizon s
    exact ⟨n, (Except.ok.inj ok).symm.trans equal⟩

/-- However the analysis is driven, it does nothing but rounds. -/
theorem Driven.eq_iterate (driven : s.Driven s') : ∃ n, s' = round^[n] s := by
  induction driven with
  | fresh => exact ⟨0, rfl⟩
  | advanced _ ok ih =>
      obtain ⟨n, rfl⟩ := ih
      exact ⟨n + 1, (advance_eq_ok ok).trans (Function.iterate_succ_apply' round n s).symm⟩
  | ran _ ok ih =>
      obtain ⟨n, rfl⟩ := ih
      obtain ⟨more, equal⟩ := run_eq_ok ok
      exact ⟨more + n, equal.trans (Function.iterate_add_apply round more n s).symm⟩

/-- A finished analysis is closed under passage along the edges. -/
theorem Steady.holds_of_brings (steady : s.Steady initial) (finished : s.finished = true)
    {origin node : String} {data : EdgeData} {v : ExtRat}
    (edge : s.automaton.edgeData? origin node = some data)
    (visible : node ∈ s.automaton.visible) (brings : Edge.Brings ⟨data, origin, node⟩ s.live v)
    (admits : s.automaton.Admits node v) : s.live.Holds node origin v := by
  have snapshot := steady.snapshot ▸ steady.valid
  have propagated : s.propagate.Holds node origin v :=
    (holds_propagate_iff steady.valid snapshot node origin v).mpr
      (Or.inr ⟨visible, data, edge, steady.snapshot ▸ brings, admits⟩)
  rw [← steady.fixed finished]
  exact steady.next_valid.2.holds propagated

theorem holds_of_run {a : Automaton} (steady : s.Steady initial) (finished : s.finished = true)
    (same : s.automaton = a.withLoops initial) (resolved : a.initial? = some initial)
    (seeded : (a.firstArrivals initial).Within s.live) {n : Nat} {origin node : String} {x : ℚ}
    (run : a.Run Count.Inside n origin node x) : s.live.Holds node origin x := by
  -- By induction on the run: the start is held from the first round on, and what is held is
  -- closed under one more passage.
  induction run with
  | start found visible admits =>
      obtain rfl := Option.some.inj (found.symm.trans resolved)
      exact seeded.holds ((a.holds_firstArrivals_iff _ _ _ _).mpr ⟨rfl, rfl, visible, rfl, admits⟩)
  | step _ edge visible adds admits inside ih =>
      exact steady.holds_of_brings finished (same ▸ edge) (same ▸ visible)
        (Reach.brings_of_holds ih adds inside) (same ▸ admits)

/-- What a finished analysis holds includes the value with which any run enters its last node,
and a node that is not reported reachable is not entered at all. -/
theorem run_held_of_finished {a : Automaton} {settings : Settings} (current : a.LoopsCurrent)
    (started : start a settings = .ok s) (driven : s.Driven s') (finished : s'.finished = true) :
    (∀ n origin node x, a.Run Count.Inside n origin node x → s'.live.Holds node origin x) ∧
      ∀ node, s'.isReachable node = false →
        ∀ n origin x, ¬ a.Run Count.Inside n origin node x := by
  obtain ⟨initial, resolved, rfl⟩ := start_eq_ok started
  obtain ⟨k, rfl⟩ := driven.eq_iterate
  have first := ofAutomaton_steady current resolved settings
  have held : ∀ n origin node x, a.Run Count.Inside n origin node x →
      (round^[k] _).live.Holds node origin x := fun _ _ _ _ run =>
    holds_of_run (iterate_steady first k) finished (frame_iterate _ k).1 resolved
      (live_within_iterate first k) run
  refine ⟨held, ?_⟩
  intro node unreachable n origin x run
  exact absurd (isReachable_of_holds (held n origin node x run)) (by simp [unreachable])

theorem climb_run_half : Automaton.climb.Run Count.Inside 1 "loop" "loop" (1 / 2) := by
  have sum : (Automaton.climb.start.toInt : ℚ) + 1 / 2 = 1 / 2 := by
    norm_num [Automaton.climb, Count.toInt_zero]
  have first : Automaton.climb.Run Count.Inside 0 "loop" "loop" Automaton.climb.start.toInt :=
    .start rfl (by decide +kernel)
      ((Automaton.climb_admits_loop_iff _).mpr (by norm_num [Automaton.climb, Count.toInt_zero]))
  have edge : Automaton.climb.edgeData? "loop" "loop" =
      some ⟨none, some ⟨.add, .clamp 1⟩⟩ := by decide +kernel
  have adds : (EdgeData.delta ⟨none, some ⟨.add, .clamp 1⟩⟩).Adds (1 / 2) := by
    refine Or.inl ⟨by decide, by norm_num, ?_⟩
    norm_num [EdgeData.delta, Instr.delta?, Count.toInt_clamp]
  have next := first.step edge (by decide +kernel) adds
  rw [sum] at next
  exact next ((Automaton.climb_admits_loop_iff _).mpr (by norm_num))
    (by norm_num [Count.Inside, Count.least, Count.greatest])

theorem climb_run_held :
    ∃ s s', start .climb ⟨some 1, none⟩ = .ok s ∧ s.run = .ok s' ∧ s'.finished = true ∧
      s'.live.Holds "loop" "loop" ((1 / 2 : ℚ) : ExtRat) := by
  have started := start_climb ⟨some 1, none⟩
  obtain ⟨s', ran, finished⟩ :
      ∃ s', run (ofAutomaton (Automaton.climb.withLoops "loop") "loop" ⟨some 1, none⟩) = .ok s' ∧
        s'.finished = true :=
    ⟨_, if_neg (by decide +kernel), by decide +kernel⟩
  have held := run_held_of_finished Automaton.climb_loopsCurrent started (.ran .fresh ran) finished
  exact ⟨_, s', started, ran, finished, held.1 1 "loop" "loop" _ climb_run_half⟩

end Solver

end OneCounter
