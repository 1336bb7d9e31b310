import OneCounter.Proofs.Calls
import OneCounter.Proofs.Jumps

/-!
Closure of a finished analysis, whatever has been added to its entries by hand. Such values need not
be in normal form, and the node need not admit them, so nothing here asks for valid entries. Main
statement: what was held when the analysis finished has been carried along every edge, and stays so
under further calls. What is added later is not carried any more.
-/

namespace OneCounter

namespace Region

/-- A stretch moves one end of one piece, and keeps every value on this side of the limit. -/
theorem mem_stretch_of_mem {r : Region} {direction : Direction} {limit : Bound} {closed : Bool}
    {v : ExtRat} (member : v ∈ r) (before : direction.Before v limit.val)
    (ends : v = limit.val → closed = true) : v ∈ r.stretch direction limit closed := by
  obtain ⟨pieces⟩ := r
  obtain ⟨piece, listed, inside⟩ := member
  cases direction with
  | up =>
      rcases List.eq_nil_or_concat pieces with rfl | ⟨front, last, rfl⟩
      · cases listed
      · rw [List.concat_eq_append] at *
        rw [stretch, setSup, setLastHigh_append]
        rcases List.mem_append.mp listed with early | same
        · exact ⟨piece, List.mem_append_left _ early, inside⟩
        · obtain rfl := List.mem_singleton.mp same
          exact ⟨_, by simp, Interval.mem_setHigh_of_mem inside before ends⟩
  | down =>
      cases pieces with
      | nil => cases listed
      | cons first rest =>
          rcases List.mem_cons.mp listed with rfl | later
          · exact ⟨_, List.mem_cons_self, Interval.mem_setLow_of_mem inside before ends⟩
          · exact ⟨piece, List.mem_cons_of_mem _ later, inside⟩

end Region

theorem Admitted.ordered {lower upper : Bound} {guard? : Option Instr} {v : ExtRat}
    (admitted : Admitted lower upper guard? v) : lower ≤ upper := by
  rw [Bound.le_iff_val]
  exact admitted.lower_le.trans admitted.le_upper

theorem Edge.mem_incoming?_of_brings {edge : Edge} {snapshot : Reach} {v : ExtRat}
    (brings : edge.Brings snapshot v) :
    ∃ incoming, edge.incoming? snapshot = some incoming ∧ v ∈ incoming := by
  obtain ⟨origin, values, found, inhabited, carried⟩ := brings
  obtain ⟨arrivals, present, _⟩ := (Reach.values?_eq_some_iff _ _ _ _).mp found
  have departing := (mem_departures_iff edge present values).mpr ⟨⟨origin, found⟩, inhabited⟩
  cases departures : arrivals.values.filter (!·.isEmpty) with
  | nil => simp [departures] at departing
  | cons first rest =>
      have comes : edge.incoming? snapshot =
          some ((rest.map edge.carry).foldl Region.union (edge.carry first)) := by
        simp only [incoming?, present, departures, List.map_cons]
      have listed : edge.carry values ∈ (first :: rest).map edge.carry :=
        List.mem_map_of_mem (departures ▸ departing)
      exact ⟨_, comes, Region.mem_foldl_union_of_mem ⟨_, listed, carried⟩⟩

namespace Reach

/-- What the first entries bring along an edge between visible nodes is found among the second ones,
as far as the end of the edge can be entered with it. -/
def FlowsInto (a : Automaton) (before after : Reach) : Prop :=
  ∀ origin node data (x : ℚ), a.edgeData? origin node = some data → origin ∈ a.visible →
    node ∈ a.visible → Edge.Brings ⟨data, origin, node⟩ before x → a.Admits node x →
      after.Holds node origin x

/-- Every rational value with which its node can be entered is still held. -/
def Retains (a : Automaton) (before after : Reach) : Prop :=
  ∀ node origin (x : ℚ), a.Admits node x → before.Holds node origin x → after.Holds node origin x

theorem FlowsInto.retained {a : Automaton} {before after later : Reach}
    (flows : before.FlowsInto a after) (retains : after.Retains a later) :
    before.FlowsInto a later := by
  intro origin node data x edge originVisible nodeVisible brings admits
  exact retains node origin x admits
    (flows origin node data x edge originVisible nodeVisible brings admits)

end Reach

namespace Solver

variable {s s' : Solver}

/-! ### One round -/

theorem propagate_flows (keys : s.live.keys = s.automaton.visible) :
    s.snapshot.FlowsInto s.automaton s.propagate := by
  intro origin node data x edge originVisible nodeVisible brings admits
  have way : (⟨data, origin, node⟩ : Edge) ∈ s.sources node := (mem_sources_iff s _ node).mpr
    ⟨rfl, edge, Automaton.isHidden_eq_false_of_visible originVisible⟩
  obtain ⟨incoming, comes, member⟩ := Edge.mem_incoming?_of_brings brings
  rcases values?_propagate_cases (keys ▸ nodeVisible) origin with
    ⟨⟨other, start, stop⟩, listed, starts, equal⟩ | ⟨others, _⟩
  · -- There is one edge at most between two nodes, so this is the one that brings the value.
    obtain ⟨stops, stored, _⟩ := (mem_sources_iff s ⟨other, start, stop⟩ node).mp listed
    subst starts stops
    obtain rfl := Option.some.inj (stored.symm.trans edge)
    rw [pulled, comes] at equal
    refine ⟨_, equal, (Region.mem_restrict_iff _ admits.ordered _ _).mpr ⟨?_, admits⟩⟩
    exact Region.mem_joined_of_mem (Or.inr member)
  · exact absurd rfl (others _ way)

theorem leap_retains {tracker : Tracker} {nodes : List String}
    (read : tracker.loop = Loop.ofNodes s.automaton nodes) (direction : Direction) (reach : Reach) :
    reach.Retains s.automaton (s.leap reach (tracker, direction)) := by
  intro node origin x admits held
  unfold leap
  split
  · exact held
  · next jump found =>
      obtain ⟨target, known, aims, present, _, _, _, rfl⟩ := jump?_eq_some found
      have suits := Loop.suits_of_target? (read ▸ aims)
      obtain ⟨values, stored, member⟩ := held
      rw [Reach.Holds, Jump.values?_apply (Reach.mem_keys_of_values? present)]
      split
      · next here =>
          obtain ⟨rfl, rfl⟩ := here
          obtain rfl := Option.some.inj (present.symm.trans stored)
          have stretched := Region.mem_stretch_of_mem member (suits.before_limit admits)
            fun same => suits.infinite_of_open x same.symm
          exact ⟨_, rfl, (Region.mem_restrict_iff _ admits.ordered none _).mpr
            ⟨stretched, admits.lower_le, admits.le_upper, by simp⟩⟩
      · exact ⟨values, stored, member⟩

theorem leaps_retain {turns : List (Tracker × Direction)}
    (read : ∀ turn ∈ turns, ∃ nodes, turn.1.loop = Loop.ofNodes s.automaton nodes) (reach : Reach) :
    reach.Retains s.automaton (turns.foldl s.leap reach) := by
  induction turns generalizing reach with
  | nil => exact fun _ _ _ _ held => held
  | cons turn rest ih =>
      intro node origin x admits held
      obtain ⟨nodes, first⟩ := read turn List.mem_cons_self
      have later := ih (fun other member => read other (List.mem_cons_of_mem _ member))
      exact later _ node origin x admits (leap_retains first turn.2 reach node origin x admits held)

theorem next_flows (keys : s.live.keys = s.automaton.visible) (loops : s.LoopsRead) :
    s.snapshot.FlowsInto s.automaton s.next := by
  rw [next, accelerate, foldl_jumps]
  exact (propagate_flows keys).retained
    (leaps_retain (fun turn due => loops turn.1 ((mem_due_iff s turn.1 turn.2).mp due).1) _)

theorem keys_leaps (s : Solver) (reach : Reach) (turns : List (Tracker × Direction)) :
    (turns.foldl s.leap reach).keys = reach.keys := by
  induction turns generalizing reach with
  | nil => rfl
  | cons turn rest ih =>
      rw [List.foldl_cons, ih, leap]
      split
      · rfl
      · exact Jump.keys_apply reach _

theorem keys_next (s : Solver) : s.next.keys = s.live.keys := by
  rw [next, accelerate, foldl_jumps, keys_leaps, keys_propagate]

/-! ### Calls -/

/-- How an analysis stands between two calls, whatever has been added to its entries. -/
structure Consistent (s : Solver) : Prop where
  keys : s.live.keys = s.automaton.visible
  loops : s.LoopsRead
  /-- Once finished, all that the last round has started from is carried on. -/
  flows : s.finished = true → s.snapshot.FlowsInto s.automaton s.live

theorem round_consistent (consistent : s.Consistent) : s.round.Consistent := by
  cases finished : s.finished with
  | true => exact (round_of_finished finished).symm ▸ consistent
  | false =>
      have keys := (keys_next s).trans consistent.keys
      rcases round_cases finished with ⟨_, equal⟩ | ⟨_, equal⟩
      · rw [equal]
        exact ⟨keys, consistent.loops, fun _ => next_flows consistent.keys consistent.loops⟩
      · rw [equal]
        refine ⟨keys, ?_, fun done => absurd (finished.symm.trans done) Bool.false_ne_true⟩
        intro tracker member
        obtain ⟨old, present, rfl⟩ := List.mem_map.mp member
        obtain ⟨nodes, read⟩ := consistent.loops old present
        exact ⟨nodes, (loop_update _ _ old).trans read⟩

theorem addValues_retains (s : Solver) (node origin : String) (values : Region) :
    s.live.Retains s.automaton (s.addValues node origin values).live := by
  intro place source x admits held
  obtain ⟨known, found, member⟩ := held
  rw [Reach.Holds, values?_addValues]
  split
  · next here =>
      obtain ⟨rfl, rfl⟩ := here
      obtain ⟨arrivals, present, stored⟩ := (Reach.values?_eq_some_iff _ _ _ _).mp found
      rw [present]
      refine ⟨_, rfl, (Region.mem_restrict_iff _ admits.ordered none _).mpr
        ⟨?_, admits.lower_le, admits.le_upper, by simp⟩⟩
      exact Region.mem_joined_of_mem (Or.inl ⟨known, stored, member⟩)
  · exact ⟨known, found, member⟩

theorem addValues_consistent (consistent : s.Consistent) (node origin : String) (values : Region) :
    (s.addValues node origin values).Consistent where
  keys := (Table.keys_modify _ _ _).trans consistent.keys
  loops := consistent.loops
  flows finished := (consistent.flows finished).retained (addValues_retains s node origin values)

theorem performAll_consistent {calls : List Call} (called : s.performAll calls = .ok s')
    (consistent : s.Consistent) : s'.Consistent :=
  performAll_induction (motive := Consistent) (fun _ => round_consistent)
    (fun _ node origin values consistent => addValues_consistent consistent node origin values) called consistent

theorem ofAutomaton_consistent {a : Automaton} {initial : String} (current : a.LoopsCurrent)
    (resolved : a.initial? = some initial) (settings : Settings) :
    (ofAutomaton (a.withLoops initial) initial settings).Consistent where
  keys := Automaton.keys_firstArrivals _ initial
  loops := (ofAutomaton_steady current resolved settings).loops
  flows finished := by cases finished

/-! ### The call that finishes the analysis -/

theorem iterate_of_finished (finished : s.finished = true) (n : Nat) : round^[n] s = s :=
  Function.iterate_fixed (round_of_finished finished) n

/-- A finished analysis keeps the snapshot of its last round. -/
theorem performAll_of_finished {calls : List Call} (called : s.performAll calls = .ok s')
    (finished : s.finished = true) : s'.finished = true ∧ s'.snapshot = s.snapshot :=
  performAll_induction (motive := fun t => t.finished = true ∧ t.snapshot = s.snapshot)
    (fun _ kept => (round_of_finished kept.1).symm ▸ kept) (fun _ _ _ _ kept => kept) called
    ⟨finished, rfl⟩

/-- The call that finishes an analysis leaves it with the entries that its last round has started
from. -/
theorem live_of_finishing {call : Call} (running : s.finished = false)
    (performed : call.perform s = .ok s') (finished : s'.finished = true) :
    s'.live = s'.snapshot := by
  cases adds : call.isAddition with
  | true =>
      cases call with
      | add node origin values =>
          obtain rfl := Except.ok.inj performed
          exact absurd (running.symm.trans finished) Bool.false_ne_true
      | advance => cases adds
      | run => cases adds
  | false =>
      have round_keeps : ∀ t : Solver, (t.finished = true → t.live = t.snapshot) →
          t.round.finished = true → t.round.live = t.round.snapshot := by
        intro t kept
        cases before : t.finished with
        | true => exact (round_of_finished before).symm ▸ kept
        | false =>
            rcases round_cases before with ⟨same, equal⟩ | ⟨_, equal⟩
            · rw [equal]
              exact fun _ => same
            · rw [equal]
              exact fun _ => rfl
      obtain ⟨n, rfl⟩ := perform_eq_iterate adds performed
      have first : s.finished = true → s.live = s.snapshot := fun done =>
        absurd (running.symm.trans done) Bool.false_ne_true
      exact Function.Iterate.rec (fun t : Solver => t.finished = true → t.live = t.snapshot) first
        round_keeps n finished

theorem exists_finishing {calls : List Call} (running : s.finished = false)
    (called : s.performAll calls = .ok s') (finished : s'.finished = true) :
    ∃ before call after middle done, calls = before ++ call :: after ∧
      s.performAll before = .ok middle ∧ middle.finished = false ∧
      call.perform middle = .ok done ∧ done.finished = true ∧ done.performAll after = .ok s' := by
  induction calls generalizing s with
  | nil =>
      obtain rfl := Except.ok.inj called
      exact absurd (running.symm.trans finished) Bool.false_ne_true
  | cons call rest ih =>
      obtain ⟨next, performed, later⟩ := performAll_cons_eq_ok called
      cases done : next.finished with
      | true => exact ⟨[], call, rest, s, next, rfl, rfl, running, performed, done, later⟩
      | false =>
          obtain ⟨before, last, after, middle, final, rfl, reached, facts⟩ := ih done later
          exact ⟨call :: before, last, after, middle, final, rfl,
            (performAll_cons_of_ok performed).trans reached, facts⟩

/-- However an analysis has been called, if it is finished then one of the calls has finished it, and
all that was held after that call has been carried along the edges. Further calls change nothing,
except that an addition adds its values. -/
theorem performAll_flows {a : Automaton} {settings : Settings} {calls : List Call}
    (current : a.LoopsCurrent) (started : start a settings = .ok s)
    (called : s.performAll calls = .ok s') (finished : s'.finished = true) :
    ∃ before call after middle done, calls = before ++ call :: after ∧
      s.performAll before = .ok middle ∧ middle.finished = false ∧
      call.perform middle = .ok done ∧ done.finished = true ∧ done.performAll after = .ok s' ∧
      done.live.FlowsInto a done.live ∧ done.live.FlowsInto a s'.live ∧
      ((∀ call ∈ after, call.isAddition = false) → s' = done) := by
  obtain ⟨initial, resolved, rfl⟩ := start_eq_ok started
  obtain ⟨before, call, after, middle, done, split, reached, running, performed, ends, later⟩ :=
    exists_finishing rfl called finished
  have together : performAll [call] middle = .ok done := performAll_cons_of_ok performed
  have now : done.Consistent := performAll_consistent together
    (performAll_consistent reached (ofAutomaton_consistent current resolved settings))
  have same : done.automaton = a.withLoops initial :=
    (automaton_performAll together).trans (automaton_performAll reached)
  have live := live_of_finishing running performed ends
  have still := performAll_of_finished later ends
  have flows := now.flows ends
  have flowsOn := (performAll_consistent later now).flows still.1
  rw [← live, same] at flows
  rw [still.2, ← live, automaton_performAll later, same] at flowsOn
  refine ⟨before, call, after, middle, done, split, reached, running, performed, ends, later, flows,
    flowsOn, ?_⟩
  intro rounds
  obtain ⟨n, equal⟩ := performAll_eq_iterate rounds later
  exact equal.trans (iterate_of_finished ends n)

/-! ### A single stride -/

end Solver

namespace Automaton

/-- One edge that raises the counter by one. -/
def stride (start : Count) : Automaton where
  name := "stride"
  nodes := ((Table.empty.insert "entry" ⟨none, none, true⟩).insert "first"
    ⟨none, none, false⟩).insert "second" ⟨none, none, false⟩
  rows := (Table.empty.insert "entry" (Table.empty.insert "first" .plain)).insert "first"
    (Table.empty.insert "second" ⟨none, some ⟨.add, .clamp 1⟩⟩)
  initial? := some "first"
  lower := .negInf
  upper := .posInf
  start := start
  loops? := none

theorem stride_loopsFresh (start : Count) : (stride start).LoopsFresh := by
  intro initial loops _ known
  cases known

theorem stride_fits (start : Count) : (stride start).Fits := by
  intro edge listed
  have all : ∀ edge ∈ (stride 0).edges, edge.overflows = false := by decide +kernel
  exact all edge listed

theorem condition?_stride (start : Count) (node : String) :
    (stride start).condition? node = none := by
  simp only [condition?, stride, Table.get?_insert, Table.get?_empty]
  split_ifs <;> rfl

theorem stride_admits (start : Count) (node : String) (v : ExtRat) :
    (stride start).Admits node v :=
  ⟨bot_le, le_top, by simp [condition?_stride]⟩

end Automaton

namespace Solver

theorem start_stride (start : Count) (settings : Settings) :
    Solver.start (.stride start) settings =
      .ok (ofAutomaton ((Automaton.stride start).withLoops "first") "first" settings) :=
  start_of_fits (a := .stride start) rfl (Automaton.stride_fits start) settings

/-- The stride, run until it is finished. -/
def strideFinished (start : Count) : Solver :=
  runFor 2 (ofAutomaton ((Automaton.stride start).withLoops "first") "first" ⟨none, none⟩)

theorem run_stride :
    run (ofAutomaton ((Automaton.stride 0).withLoops "first") "first" ⟨none, none⟩) =
      .ok (strideFinished 0) :=
  (if_neg (by decide +kernel)).trans (congrArg Except.ok (by decide +kernel))

/-- Five added to the finished stride where it starts. -/
def strideWithFive : Solver :=
  (strideFinished 0).addValues "first" "first" (.point (.finite (.clamp 5)))

theorem performAll_stride :
    (ofAutomaton ((Automaton.stride 0).withLoops "first") "first" ⟨none, none⟩).performAll
      [.run, .add "first" "first" (.point (.finite (.clamp 5)))] = .ok strideWithFive := by
  have ran : Call.run.perform _ = .ok _ := run_stride
  exact (performAll_cons_of_ok ran).trans (performAll_cons_of_ok rfl)

theorem finished_strideWithFive : strideWithFive.finished = true := by decide +kernel

theorem stride_flows :
    ∃ s s', start (.stride 0) ⟨none, none⟩ = .ok s ∧
      s.performAll [.run, .add "first" "first" (.point (.finite (.clamp 5)))] = .ok s' ∧
      s'.finished = true ∧
      ∃ (done : Solver) (after : List Call), done.finished = true ∧ done.performAll after = .ok s' ∧
        done.live.FlowsInto (.stride 0) s'.live := by
  have started := start_stride 0 ⟨none, none⟩
  obtain ⟨_, _, after, _, done, _, _, _, _, finished, later, _, flows, _⟩ := performAll_flows
    (Automaton.stride_loopsFresh 0).current started performAll_stride finished_strideWithFive
  exact ⟨_, _, started, performAll_stride, finished_strideWithFive, done, after, finished, later,
    flows⟩

/-- Five has been added after the analysis was finished, and six has not arrived. -/
theorem stride_addition_not_carried :
    ∃ s s', start (.stride 0) ⟨none, none⟩ = .ok s ∧
      s.performAll [.run, .add "first" "first" (.point (.finite (.clamp 5)))] = .ok s' ∧
      s'.finished = true ∧ ¬ s'.live.FlowsInto (.stride 0) s'.live := by
  refine ⟨_, _, start_stride 0 ⟨none, none⟩, performAll_stride, finished_strideWithFive, ?_⟩
  intro flows
  let known : Region := (Region.point 0).union (.point (.finite (.clamp 5)))
  let step : EdgeData := ⟨none, some ⟨.add, .clamp 1⟩⟩
  have carried : (Bound.finite (.clamp 6)).val ∈ Edge.carry ⟨step, "first", "second"⟩ known :=
    (Region.contains_iff _ _).mp (by decide +kernel)
  obtain ⟨values, found, held⟩ := flows "first" "second" step (Count.clamp 6).toInt
    (by decide +kernel) (by decide +kernel) (by decide +kernel)
    ⟨"first", known, by decide +kernel, by decide +kernel, carried⟩
    (Automaton.stride_admits 0 _ _)
  have brought : strideWithFive.live.values? "second" "first" =
      some (.ofInterval ⟨0, false, .finite (.clamp 1), true⟩) := by decide +kernel
  obtain rfl := Option.some.inj (brought.symm.trans found)
  exact absurd ((Region.contains_iff _ (.finite (.clamp 6))).mpr held) (by decide)

end Solver

end OneCounter
