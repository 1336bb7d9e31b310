import OneCounter.Proofs.Acceleration

/-!
Rounds of the analysis. Between two rounds the snapshot is up to date, the entries are valid, and
an analysis that is finished would not change in another round. Main statements: the first state
is like this and every round keeps it so, and no round loses a value.
-/

namespace OneCounter

namespace Automaton

/-- The loops, if they have been looked for, are those of the graph as it is. An earlier analysis
may have marked some of them. -/
def LoopsCurrent (a : Automaton) : Prop :=
  ∀ initial loops, a.initial? = some initial → a.loops? = some loops →
    loops.map Loop.unmarked = a.loopsFrom initial

/-- The loops, if they have been looked for, are as they are when they are found. -/
def LoopsFresh (a : Automaton) : Prop :=
  ∀ initial loops, a.initial? = some initial → a.loops? = some loops →
    loops = a.loopsFrom initial

/-- The automaton with its loops looked for, unless that has been done. -/
def withLoops (a : Automaton) (initial : String) : Automaton :=
  { a with loops? := some (a.loops?.getD (a.loopsFrom initial)) }

theorem withLoops_of_known {a : Automaton} {loops : List Loop} (known : a.loops? = some loops)
    (initial : String) : a.withLoops initial = a := by
  rw [withLoops, known, Option.getD_some, ← known]

theorem unmarked_loopsFrom (a : Automaton) (initial : String) :
    (a.loopsFrom initial).map Loop.unmarked = a.loopsFrom initial := by
  rw [loopsFrom, List.map_map]
  rfl

theorem LoopsCurrent.loops {a : Automaton} {initial : String} (current : a.LoopsCurrent)
    (resolved : a.initial? = some initial) :
    (a.withLoops initial).loops.map Loop.unmarked = a.loopsFrom initial := by
  cases known : a.loops? with
  | none =>
      rw [Automaton.loops, withLoops, known]
      exact a.unmarked_loopsFrom initial
  | some loops =>
      rw [withLoops_of_known known, Automaton.loops, known]
      exact current initial loops resolved known

theorem LoopsFresh.loops {a : Automaton} {initial : String} (fresh : a.LoopsFresh)
    (resolved : a.initial? = some initial) :
    (a.withLoops initial).loops = a.loopsFrom initial := by
  cases known : a.loops? with
  | none =>
      rw [Automaton.loops, withLoops, known]
      rfl
  | some loops =>
      rw [withLoops_of_known known, Automaton.loops, known]
      exact fresh initial loops resolved known

theorem LoopsFresh.current {a : Automaton} (fresh : a.LoopsFresh) : a.LoopsCurrent := by
  intro initial loops resolved known
  rw [fresh initial loops resolved known, unmarked_loopsFrom]

theorem ensureLoops_eq_ok {a found : Automaton} {initial : String}
    (resolved : a.initial? = some initial) (ok : a.ensureLoops = .ok found) :
    found = a.withLoops initial := by
  unfold ensureLoops at ok
  split at ok
  · next known =>
      obtain ⟨loops, known⟩ := Option.isSome_iff_exists.mp known
      rw [withLoops_of_known known]
      exact (Except.ok.inj ok).symm
  · next unknown =>
      have none : a.loops? = none := by simpa using unknown
      unfold discoverLoops at ok
      split at ok
      · cases ok
      · next other known =>
          obtain rfl := Option.some.inj (known.symm.trans resolved)
          split at ok
          · cases ok
          · rw [withLoops, none]
            exact (Except.ok.inj ok).symm

/-- No edge changes the counter by more than its range. -/
def Fits (a : Automaton) : Prop := ∀ edge ∈ a.edges, edge.overflows = false

theorem Fits.loop {a : Automaton} (fits : a.Fits) (nodes : List String) :
    Loop.overflows a nodes = false := by
  rw [Loop.overflows, List.any_eq_false]
  intro data member
  obtain ⟨⟨start, stop⟩, _, found⟩ := List.mem_filterMap.mp member
  simp [fits ⟨data, start, stop⟩ ((mem_edges_iff a _).mpr found)]

theorem ensureLoops_of_fits {a : Automaton} {initial : String}
    (resolved : a.initial? = some initial) (fits : a.Fits) :
    a.ensureLoops = .ok (a.withLoops initial) := by
  cases known : a.loops? with
  | some loops =>
      rw [withLoops_of_known known]
      simp [ensureLoops, known]
  | none =>
      have none : (a.cyclesFrom initial).any (Loop.overflows a) = false := by
        rw [List.any_eq_false]
        intro nodes _
        simp [fits.loop nodes]
      rw [ensureLoops, known, Option.isSome_none, if_neg Bool.false_ne_true, discoverLoops]
      split
      · next missing => exact absurd (missing.symm.trans resolved) (by simp)
      · next other found =>
          obtain rfl := Option.some.inj (found.symm.trans resolved)
          rw [none, if_neg Bool.false_ne_true, withLoops, known]
          rfl

/-! ### The starting value -/

theorem pieces_obey_of_nil {r : Region} (nothing : r.pieces = []) (guard : Instr) :
    (r.obey guard).pieces = [] := by
  obtain ⟨op, constant⟩ := guard
  cases op <;>
    simp [Region.obey, Region.clipAbove, Region.clipBelow, Region.onlyPoint, Region.contains,
      Region.empty, nothing]

/-- In an inverted range no value can start: it is past one end or before the other. -/
theorem seed_eq_empty (a : Automaton) (initial : String) (inverted : ¬ a.lower ≤ a.upper) :
    a.seed initial = Region.empty := by
  have outside : a.upper < .finite a.start ∨ Bound.finite a.start < a.lower := by
    rw [Bound.le_iff_val, not_le] at inverted
    rw [Bound.lt_iff_val, Bound.lt_iff_val]
    rcases lt_or_ge a.upper.val (Bound.finite a.start).val with above | below
    · exact Or.inl above
    · exact Or.inr (below.trans_lt inverted)
  have nothing : ((Region.point (.finite a.start)).rescale a.lower a.upper).pieces = [] := by
    simpa [Region.rescale, Region.point, Region.ofInterval, Interval.point,
      or_iff_not_imp_left] using outside
  unfold seed Region.restrict
  cases a.condition? initial with
  | none => simp [Region.clean, nothing, Region.empty]
  | some guard => simp [Region.clean, pieces_obey_of_nil nothing guard, Region.empty]

theorem mem_seed_iff (a : Automaton) (initial : String) (v : ExtRat) :
    v ∈ a.seed initial ↔ v = (Bound.finite a.start).val ∧ a.Admits initial v := by
  by_cases ordered : a.lower ≤ a.upper
  · rw [seed, Region.mem_restrict_iff _ ordered, Region.mem_point_iff]
    rfl
  · rw [seed_eq_empty a initial ordered]
    constructor
    · intro member
      exact absurd member (Region.not_mem_empty v)
    · rintro ⟨_, admits⟩
      rw [Bound.le_iff_val] at ordered
      exact absurd (admits.lower_le.trans admits.le_upper) ordered

theorem normal_seed (a : Automaton) (initial : String) : (a.seed initial).Normal := by
  by_cases ordered : a.lower ≤ a.upper
  · exact (Region.normal_point _).restrict ordered _
  · rw [seed_eq_empty a initial ordered]
    exact Region.normal_empty

theorem keys_noArrivals (a : Automaton) : a.noArrivals.keys = a.visible := Table.keys_map _ _

theorem keys_firstArrivals (a : Automaton) (initial : String) :
    (a.firstArrivals initial).keys = a.visible := by
  unfold firstArrivals
  split
  · rw [Table.keys_modify, keys_noArrivals]
  · exact keys_noArrivals a

theorem get?_noArrivals {a : Automaton} {node : String} {arrivals : Arrivals}
    (found : a.noArrivals.get? node = some arrivals) : arrivals = .empty := by
  rw [noArrivals, Table.get?_map, Option.map_eq_some_iff] at found
  obtain ⟨_, _, same⟩ := found
  exact same.symm

/-- At first there is only the starting value, at the initial node. -/
theorem values?_firstArrivals (a : Automaton) (initial node origin : String) (values : Region) :
    (a.firstArrivals initial).values? node origin = some values ↔
      node = initial ∧ origin = initial ∧ initial ∈ a.visible ∧ values = a.seed initial ∧
        values.isEmpty = false := by
  -- An initial node that is unknown has no entry to start from, though it is not hidden.
  have present : initial ∈ a.visible ↔ ∃ arrivals, a.noArrivals.get? initial = some arrivals := by
    rw [← keys_noArrivals, Table.mem_keys_iff, Option.isSome_iff_exists]
  unfold firstArrivals
  split
  · next admits =>
      rw [admitsStart, Bool.and_eq_true, Bool.not_eq_true', Bool.not_eq_true'] at admits
      rw [Reach.values?_eq_some_iff, Table.get?_modify]
      constructor
      · rintro ⟨arrivals, found, stored⟩
        split at found
        · next same =>
            obtain ⟨old, there, rfl⟩ := Option.map_eq_some_iff.mp found
            rw [get?_noArrivals there] at stored
            simp only [Arrivals.receive, Table.get?_empty, Table.get?_insert] at stored
            split at stored
            · next atStart =>
                injection stored with stored
                subst stored same atStart
                exact ⟨rfl, rfl, present.mpr ⟨old, there⟩, rfl, admits.2⟩
            · simp at stored
        · rw [get?_noArrivals found] at stored
          simp at stored
      · rintro ⟨rfl, rfl, visible, rfl, _⟩
        obtain ⟨arrivals, there⟩ := present.mp visible
        rw [if_pos rfl, there, get?_noArrivals there]
        exact ⟨_, rfl, by simp [Arrivals.receive, Table.get?_insert]⟩
  · next refused =>
      rw [Reach.values?_eq_some_iff]
      constructor
      · rintro ⟨arrivals, found, stored⟩
        rw [get?_noArrivals found] at stored
        simp at stored
      · rintro ⟨_, _, visible, rfl, inhabited⟩
        exact absurd (by simp [admitsStart, isHidden_eq_false_of_visible visible, inhabited]) refused

theorem firstArrivals_valid (a : Automaton) (initial : String) :
    (a.firstArrivals initial).Valid a initial := by
  refine ⟨keys_firstArrivals a initial, ?_, ?_, ?_⟩
  · intro node origin values found
    obtain ⟨rfl, rfl, visible, _⟩ := (values?_firstArrivals a initial node origin values).mp found
    exact ⟨visible, Or.inr ⟨rfl, rfl⟩⟩
  · intro node origin values found
    obtain ⟨_, _, _, rfl, _⟩ := (values?_firstArrivals a initial node origin values).mp found
    exact normal_seed a initial
  · intro node origin values found v member
    obtain ⟨rfl, _, _, rfl, _⟩ := (values?_firstArrivals a initial node origin values).mp found
    obtain ⟨rfl, admits⟩ := (mem_seed_iff a node v).mp member
    exact ⟨a.start.toInt, rfl, admits⟩

theorem holds_firstArrivals_iff (a : Automaton) (initial node origin : String) (v : ExtRat) :
    (a.firstArrivals initial).Holds node origin v ↔
      node = initial ∧ origin = initial ∧ initial ∈ a.visible ∧
        v = (Bound.finite a.start).val ∧ a.Admits initial v := by
  constructor
  · rintro ⟨values, found, member⟩
    obtain ⟨same, sameOrigin, visible, rfl, _⟩ :=
      (values?_firstArrivals a initial node origin values).mp found
    exact ⟨same, sameOrigin, visible, (mem_seed_iff a initial v).mp member⟩
  · rintro ⟨same, sameOrigin, visible, starts⟩
    have member := (mem_seed_iff a initial v).mpr starts
    exact ⟨a.seed initial, (values?_firstArrivals a initial node origin _).mpr
      ⟨same, sameOrigin, visible, rfl, Region.isEmpty_eq_false_of_mem member⟩, member⟩

end Automaton

namespace Solver

/-- How the analysis stands between two rounds. -/
structure Steady (initial : String) (s : Solver) : Prop where
  snapshot : s.snapshot = s.live
  valid : s.live.Valid s.automaton initial
  loops : s.LoopsRead
  /-- Once finished, another round would change nothing. -/
  fixed : s.finished = true → s.next = s.live

variable {s : Solver} {initial : String}

theorem loops_ofAutomaton {a : Automaton} (current : a.LoopsCurrent)
    (resolved : a.initial? = some initial) (settings : Settings) :
    (ofAutomaton (a.withLoops initial) initial settings).trackers.map Tracker.loop =
      a.loopsFrom initial := by
  rw [← current.loops resolved, ofAutomaton, List.map_map]
  rfl

theorem ofAutomaton_steady {a : Automaton} (current : a.LoopsCurrent)
    (resolved : a.initial? = some initial) (settings : Settings) :
    (ofAutomaton (a.withLoops initial) initial settings).Steady initial := by
  refine ⟨rfl, Automaton.firstArrivals_valid _ initial, ?_, ?_⟩
  · intro tracker member
    have listed := List.mem_map_of_mem (f := Tracker.loop) member
    rw [loops_ofAutomaton current resolved] at listed
    obtain ⟨nodes, _, equal⟩ := List.mem_map.mp listed
    exact ⟨nodes, equal.symm⟩
  · intro finished
    exact absurd finished (by simp [ofAutomaton])

/-- The state that an analysis starts with. -/
theorem start_eq_ok {a : Automaton} {settings : Settings} (started : start a settings = .ok s) :
    ∃ initial, a.initial? = some initial ∧
      s = ofAutomaton (a.withLoops initial) initial settings := by
  unfold start at started
  split at started
  · cases started
  · next initial resolved =>
      cases looked : a.ensureLoops with
      | error error =>
          rw [looked] at started
          cases started
      | ok found =>
          rw [looked] at started
          refine ⟨initial, resolved, ?_⟩
          rw [← Automaton.ensureLoops_eq_ok resolved looked]
          exact (Except.ok.inj started).symm

theorem start_of_fits {a : Automaton} {initial : String} (resolved : a.initial? = some initial)
    (fits : a.Fits) (settings : Settings) :
    start a settings = .ok (ofAutomaton (a.withLoops initial) initial settings) := by
  unfold start
  split
  · next missing => exact absurd (missing.symm.trans resolved) (by simp)
  · next other found =>
      obtain rfl := Option.some.inj (found.symm.trans resolved)
      rw [Automaton.ensureLoops_of_fits resolved fits]
      rfl

/-! ### One round -/

theorem Steady.next_valid (steady : s.Steady initial) :
    s.next.Valid s.automaton initial ∧ s.propagate.Within s.next :=
  accelerate_valid steady.loops
    (propagate_valid steady.valid (steady.snapshot ▸ steady.valid))

theorem Steady.live_within_next (steady : s.Steady initial) : s.live.Within s.next :=
  (live_within_propagate steady.valid (steady.snapshot ▸ steady.valid)).trans
    steady.next_valid.2

theorem jumps_finish (s : Solver) (reach : Reach) (due : List (Tracker × Direction)) :
    jumps { s with finished := true } reach due = s.jumps reach due := by
  induction due generalizing reach with
  | nil => rfl
  | cons entry rest ih =>
      have same : jump? { s with finished := true } reach entry.1 entry.2 =
          s.jump? reach entry.1 entry.2 := rfl
      simp only [jumps, same, ih]

theorem next_finish (s : Solver) : next { s with finished := true } = s.next := by
  unfold next accelerate
  rw [jumps_finish]
  rfl

/-- All that a round can do to an analysis that is not finished. -/
theorem round_cases (running : s.finished = false) :
    (s.next = s.snapshot ∧ s.round = { s with live := s.next, finished := true }) ∨
    (s.next ≠ s.snapshot ∧ s.round =
      { s with
        live := s.next
        snapshot := s.next
        trackers := s.trackers.map (Tracker.update s.snapshot s.next)
        rounds := s.rounds + 1 }) := by
  by_cases same : s.next = s.snapshot
  · exact Or.inl ⟨same, by simp [round, running, same]⟩
  · exact Or.inr ⟨same, by simp [round, running, same]⟩

theorem round_of_finished (finished : s.finished = true) : s.round = s := by
  simp [round, finished]

/-- A round leaves the automaton, the settings and the threshold alone. -/
theorem frame_round (s : Solver) : s.round.automaton = s.automaton ∧
    s.round.settings = s.settings ∧ s.round.threshold = s.threshold := by
  cases finished : s.finished with
  | true =>
      rw [round_of_finished finished]
      exact ⟨rfl, rfl, rfl⟩
  | false =>
      rcases round_cases finished with ⟨_, equal⟩ | ⟨_, equal⟩
      · rw [equal]
        exact ⟨rfl, rfl, rfl⟩
      · rw [equal]
        exact ⟨rfl, rfl, rfl⟩

theorem loop_update (before after : Reach) (tracker : Tracker) :
    (tracker.update before after).loop = tracker.loop := by
  unfold Tracker.update
  split <;> rfl

theorem round_steady (steady : s.Steady initial) : s.round.Steady initial := by
  cases finished : s.finished with
  | true => exact (round_of_finished finished).symm ▸ steady
  | false =>
      rcases round_cases finished with ⟨same, equal⟩ | ⟨_, equal⟩
      · -- Nothing has changed but the mark, which the next round does not look at.
        have live : s.next = s.live := same.trans steady.snapshot
        rw [equal, live]
        exact ⟨steady.snapshot, steady.valid, steady.loops, fun _ => (next_finish s).trans live⟩
      · rw [equal]
        refine ⟨rfl, steady.next_valid.1, ?_, ?_⟩
        · intro tracker member
          obtain ⟨old, present, rfl⟩ := List.mem_map.mp member
          obtain ⟨nodes, read⟩ := steady.loops old present
          exact ⟨nodes, (loop_update _ _ old).trans read⟩
        · intro done
          exact absurd (finished.symm.trans done) (by simp)

theorem live_round (steady : s.Steady initial) : s.round.live = s.next := by
  cases finished : s.finished with
  | true => rw [round_of_finished finished, steady.fixed finished]
  | false =>
      rcases round_cases finished with ⟨_, equal⟩ | ⟨_, equal⟩
      · rw [equal]
      · rw [equal]

/-! ### Many rounds -/

theorem frame_iterate (s : Solver) (n : Nat) : (round^[n] s).automaton = s.automaton ∧
    (round^[n] s).settings = s.settings ∧ (round^[n] s).threshold = s.threshold := by
  induction n with
  | zero => exact ⟨rfl, rfl, rfl⟩
  | succ n ih =>
      rw [Function.iterate_succ_apply']
      have one := frame_round (round^[n] s)
      exact ⟨one.1.trans ih.1, one.2.1.trans ih.2.1, one.2.2.trans ih.2.2⟩

theorem iterate_steady (steady : s.Steady initial) (n : Nat) : (round^[n] s).Steady initial := by
  induction n with
  | zero => exact steady
  | succ n ih =>
      rw [Function.iterate_succ_apply']
      exact round_steady ih

theorem live_within_iterate (steady : s.Steady initial) (n : Nat) :
    s.live.Within (round^[n] s).live := by
  induction n with
  | zero => exact Reach.Within.refl s.live
  | succ n ih =>
      have now := iterate_steady steady n
      rw [Function.iterate_succ_apply', live_round now]
      exact ih.trans now.live_within_next

/-- As many rounds, unless the change along an edge is out of range. -/
def advanceBy : Nat → Solver → Except AutomatonError Solver
  | 0, s => .ok s
  | n + 1, s => do
      let s ← s.advance
      advanceBy n s

theorem overflows_round (s : Solver) : s.round.overflows = s.overflows := by
  rw [overflows, overflows, (frame_round s).1]

theorem advance_eq_ok {s' : Solver} (ok : s.advance = .ok s') : s' = s.round := by
  unfold advance at ok
  split at ok
  · cases ok
  · exact (Except.ok.inj ok).symm

theorem advance_of_not_overflows (fits : s.overflows = false) : s.advance = .ok s.round := by
  simp [advance, fits]

theorem advanceBy_of_not_overflows (fits : s.overflows = false) (n : Nat) :
    s.advanceBy n = .ok (round^[n] s) := by
  induction n generalizing s with
  | zero => rfl
  | succ n ih =>
      rw [advanceBy, advance_of_not_overflows fits, Function.iterate_succ_apply]
      exact ih ((overflows_round s).trans fits)

theorem advanceBy_of_overflows (overflow : s.overflows = true) (running : s.finished = false)
    (n : Nat) : s.advanceBy (n + 1) = .error .deltaOverflow := by
  have one : s.advance = .error .deltaOverflow := by simp [advance, overflow, running]
  rw [advanceBy, one]
  rfl

/-- Rounds of a new analysis either all succeed, or fail because an edge is out of range. -/
theorem advanceBy_cases (running : s.finished = false) (n : Nat) :
    (0 < n ∧ s.overflows = true ∧ s.advanceBy n = .error .deltaOverflow) ∨
      s.advanceBy n = .ok (round^[n] s) := by
  cases n with
  | zero => exact Or.inr rfl
  | succ n =>
      cases overflow : s.overflows with
      | true => exact Or.inl ⟨n.succ_pos, rfl, advanceBy_of_overflows overflow running n⟩
      | false => exact Or.inr (advanceBy_of_not_overflows overflow (n + 1))

end Solver

/-! ### A small automaton -/

namespace Automaton

/-- A loop raises the counter by one while it is at most ten, and the way out needs ten. -/
def climb : Automaton where
  name := "climb"
  nodes := ((Table.empty.insert "entry" ⟨none, none, true⟩).insert "loop"
    ⟨none, some ⟨.atMost, .clamp 10⟩, false⟩).insert "exit"
      ⟨none, some ⟨.atLeast, .clamp 10⟩, false⟩
  rows := (Table.empty.insert "entry" (Table.empty.insert "loop" .plain)).insert "loop"
    ((Table.empty.insert "exit" .plain).insert "loop" ⟨none, some ⟨.add, .clamp 1⟩⟩)
  initial? := some "loop"
  lower := .negInf
  upper := .posInf
  start := 0
  loops? := none

theorem climb_loopsFresh : climb.LoopsFresh := by
  intro initial loops _ known
  cases known

theorem climb_loopsCurrent : climb.LoopsCurrent := climb_loopsFresh.current

theorem climb_fits : climb.Fits := by
  unfold Fits
  decide +kernel

theorem climb_admits_loop_iff (x : ℚ) : climb.Admits "loop" x ↔ x ≤ 10 := by
  have guarded : climb.condition? "loop" = some ⟨.atMost, .clamp 10⟩ := by decide +kernel
  have limit : ((Count.clamp 10).toInt : ℚ) = 10 := by norm_num [Count.toInt_clamp]
  constructor
  · intro admits
    have accepted : (x : ExtRat) ≤ (((Count.clamp 10).toInt : ℚ) : ExtRat) :=
      admits.accepts _ guarded
    exact limit ▸ WithBotTop.coe_le_coe.mp accepted
  · intro small
    refine ⟨bot_le, le_top, ?_⟩
    intro guard found
    obtain rfl := Option.some.inj (guarded.symm.trans found)
    exact WithBotTop.coe_le_coe.mpr (limit ▸ small)

end Automaton

namespace Solver

variable {s : Solver}

theorem start_climb (settings : Settings) : start .climb settings =
    .ok (ofAutomaton (Automaton.climb.withLoops "loop") "loop" settings) :=
  start_of_fits rfl Automaton.climb_fits settings

/-! ### The entries after any number of rounds -/

/-- After any number of rounds of a new analysis the entries belong to the visible nodes and to
origins with an edge, each region is in normal form, and each of its values is in the range of the
counter and passes the guard of the node. -/
theorem advanceBy_entries {a : Automaton} {settings : Settings} (current : a.LoopsCurrent)
    (started : start a settings = .ok s) (n : Nat) :
    (0 < n ∧ s.overflows = true ∧ s.advanceBy n = .error .deltaOverflow) ∨
      ∃ s', s.advanceBy n = .ok s' ∧ s'.live.keys = a.visible ∧
        ∀ node origin values, s'.live.values? node origin = some values →
          origin ∈ a.visible ∧
          (a.hasEdge origin node = true ∨
            (a.initial? = some origin ∧ a.initial? = some node)) ∧
          values.Normal ∧
          ∀ x : ℚ, (x : ExtRat) ∈ values → a.lower.val ≤ x ∧ x ≤ a.upper.val ∧
            ∀ guard, a.condition? node = some guard → guard.Accepts x := by
  obtain ⟨initial, resolved, rfl⟩ := start_eq_ok started
  rcases advanceBy_cases (s := ofAutomaton (a.withLoops initial) initial settings) rfl n with
    overflow | ok
  · exact Or.inl overflow
  · -- Looking for loops has changed neither the nodes nor the edges, so this is about `a` too.
    have valid := (iterate_steady (ofAutomaton_steady current resolved settings) n).valid
    rw [(frame_iterate _ n).1] at valid
    refine Or.inr ⟨_, ok, valid.keys, ?_⟩
    intro node origin values found
    obtain ⟨visible, way⟩ := valid.origin node origin values found
    refine ⟨visible, ?_, valid.normal node origin values found, ?_⟩
    · rcases way with edge | ⟨rfl, rfl⟩
      · exact Or.inl edge
      · exact Or.inr ⟨resolved, resolved⟩
    · intro x member
      have admits := valid.admits_of_mem found member
      exact ⟨admits.lower_le, admits.le_upper, admits.accepts⟩

theorem climb_entries :
    ∃ s s', start .climb ⟨some 2, none⟩ = .ok s ∧ s.advanceBy 4 = .ok s' ∧
      s'.live.keys = ["exit", "loop"] ∧
      ∀ origin values, s'.live.values? "loop" origin = some values →
        values.Normal ∧ ∀ x : ℚ, (x : ExtRat) ∈ values → x ≤ 10 := by
  have started := start_climb ⟨some 2, none⟩
  rcases advanceBy_entries Automaton.climb_loopsCurrent started 4 with
    ⟨_, overflow, _⟩ | ⟨s', ok, keys, entries⟩
  · exact absurd overflow (by decide +kernel)
  · refine ⟨_, s', started, ok, keys.trans (by decide +kernel), ?_⟩
    intro origin values found
    obtain ⟨_, _, normal, admitted⟩ := entries "loop" origin values found
    refine ⟨normal, ?_⟩
    intro x member
    obtain ⟨above, below, accepts⟩ := admitted x member
    exact (Automaton.climb_admits_loop_iff x).mp ⟨above, below, accepts⟩

/-! ### No round loses a value -/

/-- After any number of rounds of a new analysis, one more round keeps every entry, and the entry
keeps all its values. -/
theorem advanceBy_grows {a : Automaton} {settings : Settings} (current : a.LoopsCurrent)
    (started : start a settings = .ok s) (n : Nat) :
    (s.overflows = true ∧ s.advanceBy (n + 1) = .error .deltaOverflow) ∨
      ∃ before after, s.advanceBy n = .ok before ∧ before.advance = .ok after ∧
        ∀ node origin values, before.live.values? node origin = some values →
          ∃ grown, after.live.values? node origin = some grown ∧
            ∀ x : ℚ, (x : ExtRat) ∈ values → (x : ExtRat) ∈ grown := by
  obtain ⟨initial, resolved, rfl⟩ := start_eq_ok started
  cases overflow : (ofAutomaton (a.withLoops initial) initial settings).overflows with
  | true => exact Or.inl ⟨rfl, advanceBy_of_overflows overflow rfl n⟩
  | false =>
      have steady := iterate_steady (ofAutomaton_steady current resolved settings) n
      have inRange : (round^[n] (ofAutomaton (a.withLoops initial) initial settings)).overflows =
          false := by
        rw [overflows, (frame_iterate _ n).1]
        exact overflow
      refine Or.inr ⟨_, _, advanceBy_of_not_overflows overflow n,
        advance_of_not_overflows inRange, ?_⟩
      intro node origin values found
      rw [live_round steady]
      obtain ⟨grown, present, kept⟩ := steady.live_within_next node origin values found
      exact ⟨grown, present, fun x member => kept x member⟩

theorem climb_grows :
    ∃ s before after, start .climb ⟨some 1, none⟩ = .ok s ∧ s.advanceBy 3 = .ok before ∧
      before.advance = .ok after ∧
      ∀ values, before.live.values? "loop" "loop" = some values →
        ∃ grown, after.live.values? "loop" "loop" = some grown ∧
          ∀ x : ℚ, (x : ExtRat) ∈ values → (x : ExtRat) ∈ grown := by
  have started := start_climb ⟨some 1, none⟩
  rcases advanceBy_grows Automaton.climb_loopsCurrent started 3 with
    ⟨overflow, _⟩ | ⟨before, after, reached, advanced, grows⟩
  · exact absurd overflow (by decide +kernel)
  · exact ⟨_, before, after, started, reached, advanced, grows "loop" "loop"⟩

end Solver

end OneCounter
