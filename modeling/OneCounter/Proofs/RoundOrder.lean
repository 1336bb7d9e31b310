import OneCounter.Proofs.Jumps
import OneCounter.Proofs.Termination

/-!
The order within a round. Nodes pull from the snapshot only, and a loop fills an entry with all that
its node admits beyond the values there, so it does not matter which node or which loop comes first.
Main statement: a round with its nodes and its loops in any order ends in the same state.
-/

namespace OneCounter

namespace Table

variable {α : Type}

/-- Entries that are modified one after the other, each of them once. -/
theorem get?_foldl_modify {names : List String} (distinct : names.Nodup) (f : String → α → α)
    (table : Table α) (name : String) :
    (names.foldl (fun table other => table.modify other (f other)) table).get? name =
      if name ∈ names then (table.get? name).map (f name) else table.get? name := by
  induction names generalizing table with
  | nil => simp
  | cons first rest ih =>
      obtain ⟨absent, later⟩ := List.nodup_cons.mp distinct
      rw [List.foldl_cons, ih later, get?_modify]
      by_cases same : name = first
      · subst same
        simp [absent]
      · simp [same]

theorem foldl_modify_eq_map {names : List String} (distinct : names.Nodup) (f : String → α → α)
    (table : Table α) (all : ∀ name ∈ table.keys, name ∈ names) :
    names.foldl (fun table other => table.modify other (f other)) table = table.map f := by
  apply eq_of_get?_eq
  intro name
  rw [get?_foldl_modify distinct, get?_map]
  split
  · rfl
  · next absent =>
      have missing : table.get? name = none := by
        by_contra found
        exact absent (all name ((mem_keys_iff table name).mpr (Option.isSome_iff_ne_none.mpr found)))
      rw [missing, Option.map_none]

end Table

/-- Valid entries are known by the rational values that they hold. -/
theorem Reach.Valid.eq_of_holds_iff {before after : Reach} {a : Automaton} {initial : String}
    (left : before.Valid a initial) (right : after.Valid a initial)
    (there : ∀ node origin, (before.values? node origin).isSome = (after.values? node origin).isSome)
    (same : ∀ node origin (x : ℚ), before.Holds node origin x ↔ after.Holds node origin x) :
    before = after := by
  apply left.eq_of_shows right
  intro node _ origin _ mark _
  cases mark with
  | none => exact iff_of_eq (congrArg (· = true) (there node origin))
  | some cell => exact same node origin (Cell.point cell)

namespace Solver

variable {s s' : Solver} {initial : String}

/-! ### Rounds in a given order -/

/-- What a node pulls from the snapshot is put in its place. -/
def pullAt (s : Solver) (reach : Reach) (node : String) : Reach := reach.modify node (s.pull node)

/-- A loop jumps when its turn comes, if it has grown for as many rounds as the threshold. -/
def takeTurn (s : Solver) (reach : Reach) (turn : Tracker × Direction) : Reach :=
  if s.threshold ≤ (turn.1.gauge turn.2).streak then s.leap reach turn else reach

/-- The turns of a round: every loop in both directions. -/
def turns (s : Solver) : List (Tracker × Direction) :=
  s.trackers.flatMap fun tracker => [(tracker, .down), (tracker, .up)]

def nextIn (s : Solver) (nodes : List String) (turns : List (Tracker × Direction)) : Reach :=
  turns.foldl s.takeTurn (nodes.foldl s.pullAt s.live)

/-- The state that the values at the end of a round lead to. -/
def conclude (s : Solver) (reach : Reach) : Solver :=
  if reach = s.snapshot then { s with live := reach, finished := true }
  else
    { s with
      live := reach
      snapshot := reach
      trackers := s.trackers.map (Tracker.update s.snapshot reach)
      rounds := s.rounds + 1 }

/-- One round that visits the nodes and lets the loops jump in the given order. -/
def roundIn (s : Solver) (nodes : List String) (turns : List (Tracker × Direction)) : Solver :=
  if s.finished then s else s.conclude (s.nextIn nodes turns)

theorem round_eq_conclude (s : Solver) :
    s.round = if s.finished then s else s.conclude s.next := rfl

/-- One round in the given order, unless the change along an edge is out of range. -/
def advanceIn (s : Solver) (nodes : List String) (turns : List (Tracker × Direction)) :
    Except AutomatonError Solver :=
  if !s.finished && s.overflows then .error .deltaOverflow else .ok (s.roundIn nodes turns)

/-! ### The order does not matter -/

theorem foldl_pullAt {nodes : List String} (order : nodes.Perm s.live.keys) :
    nodes.foldl s.pullAt s.live = s.propagate :=
  Table.foldl_modify_eq_map (order.nodup_iff.mpr s.live.nodup_keys) s.pull s.live
    fun _ member => order.mem_iff.mpr member

theorem mem_turns_iff (s : Solver) (turn : Tracker × Direction) :
    turn ∈ s.turns ↔ turn.1 ∈ s.trackers := by
  obtain ⟨tracker, direction⟩ := turn
  cases direction <;> simp [turns]

theorem foldl_takeTurn (s : Solver) (reach : Reach) (turns : List (Tracker × Direction)) :
    turns.foldl s.takeTurn reach = (turns.filter fun turn =>
      s.threshold ≤ (turn.1.gauge turn.2).streak).foldl s.leap reach := by
  rw [List.foldl_filter]
  simp only [decide_eq_true_eq]
  rfl

/-- Loops that jump in another order leave the same entries. -/
theorem leaps_eq_of_mem_iff {first second : List (Tracker × Direction)} {reach : Reach}
    (loops : s.LoopsRead) (tracked : ∀ turn ∈ first, turn.1 ∈ s.trackers)
    (valid : reach.Valid s.automaton initial) (same : ∀ turn, turn ∈ first ↔ turn ∈ second) :
    first.foldl s.leap reach = second.foldl s.leap reach := by
  have trackedToo : ∀ turn ∈ second, turn.1 ∈ s.trackers := fun turn member =>
    tracked turn ((same turn).mpr member)
  have left := (jumps_valid loops tracked valid).1
  have right := (jumps_valid loops trackedToo valid).1
  rw [foldl_jumps] at left right
  apply left.eq_of_holds_iff right
  · intro node origin
    rw [isSome_values?_leaps, isSome_values?_leaps]
  · -- What a loop adds depends on the entries before the first jump only.
    intro node origin x
    rw [holds_leaps_iff (fun turn member => loops turn.1 (tracked turn member)) valid,
      holds_leaps_iff (fun turn member => loops turn.1 (trackedToo turn member)) valid]
    simp only [same]

theorem Steady.nextIn_eq_next (steady : s.Steady initial) {nodes : List String}
    {turns : List (Tracker × Direction)} (everyNode : nodes.Perm s.automaton.visible)
    (everyTurn : turns.Perm s.turns) : s.nextIn nodes turns = s.next := by
  have valid := propagate_valid steady.valid (steady.snapshot ▸ steady.valid)
  rw [nextIn, next, accelerate, foldl_jumps, foldl_pullAt (steady.valid.keys ▸ everyNode),
    foldl_takeTurn]
  refine (leaps_eq_of_mem_iff steady.loops ?_ valid ?_).symm
  · intro turn due
    exact ((mem_due_iff s turn.1 turn.2).mp due).1
  · intro turn
    rw [List.mem_filter, everyTurn.mem_iff, mem_turns_iff, mem_due_iff, decide_eq_true_eq]

/-- After any number of rounds of a new analysis, the next one may visit the nodes and let the loops
jump in any order, each loop in either direction first: the state is the same in the end. -/
theorem advanceIn_eq_advance {a : Automaton} {settings : Settings} (current : a.LoopsCurrent)
    (started : start a settings = .ok s) {n : Nat} (reached : s.advanceBy n = .ok s')
    {nodes : List String} {turns : List (Tracker × Direction)} (everyNode : nodes.Perm a.visible)
    (everyTurn : turns.Perm s'.turns) : s'.advanceIn nodes turns = s'.advance := by
  obtain ⟨initial, resolved, rfl⟩ := start_eq_ok started
  rcases advanceBy_cases (s := ofAutomaton (a.withLoops initial) initial settings) rfl n with
    ⟨_, _, failed⟩ | ok
  · cases failed.symm.trans reached
  · obtain rfl := Except.ok.inj (ok.symm.trans reached)
    have steady := iterate_steady (ofAutomaton_steady current resolved settings) n
    have visible : nodes.Perm (round^[n] (ofAutomaton (a.withLoops initial) initial
        settings)).automaton.visible := (frame_iterate _ n).1.symm ▸ everyNode
    rw [advanceIn, roundIn, steady.nextIn_eq_next visible everyTurn, advance, round_eq_conclude]

theorem climb_any_order :
    ∃ s s', start .climb ⟨some 1, none⟩ = .ok s ∧ s.advanceBy 2 = .ok s' ∧
      ["loop", "exit"].Perm Automaton.climb.visible ∧ s'.turns.reverse.Perm s'.turns ∧
      s'.advanceIn ["loop", "exit"] s'.turns.reverse = s'.advance := by
  have started := start_climb ⟨some 1, none⟩
  have reached := advanceBy_of_not_overflows (s := ofAutomaton (Automaton.climb.withLoops "loop")
    "loop" ⟨some 1, none⟩) (by decide +kernel) 2
  have everyNode : ["loop", "exit"].Perm Automaton.climb.visible := by decide +kernel
  have everyTurn := List.reverse_perm (round^[2] (ofAutomaton (Automaton.climb.withLoops "loop")
    "loop" ⟨some 1, none⟩)).turns
  exact ⟨_, _, started, reached, everyNode, everyTurn,
    advanceIn_eq_advance Automaton.climb_loopsCurrent started reached everyNode everyTurn⟩

end Solver

end OneCounter
