import OneCounter.Proofs.Exactness
import OneCounter.Proofs.GraphReachability
import OneCounter.Proofs.Termination

/-!
Automata without cycles. What changes in a round has been brought along one more edge than what
changed in the round before, and a walk without cycles passes a node once. Main statement: where
the visible nodes that can be reached form no cycle, an analysis is finished after fewer rounds than
there are visible nodes, no loop ever jumps, and what it holds are the values of the runs. Only a
change past the counter range makes it fail.
-/

namespace OneCounter

namespace Automaton

/-- No visible node that the graph leads to can be come back to. -/
def AcyclicFrom (a : Automaton) (initial : String) : Prop :=
  ∀ node, a.Connects initial node → ¬ Relation.TransGen (a.Link fun _ => True) node node

/-- A walk from the initial node, with the nodes passed before the last one. -/
inductive Walk (a : Automaton) (initial : String) : List String → String → Prop where
  | start : Walk a initial [] initial
  | step {path : List String} {node stop : String} (before : Walk a initial path node)
      (link : a.Link (fun _ => True) node stop) : Walk a initial (node :: path) stop

variable {a : Automaton} {initial node : String} {path : List String}

/-- Numbers that increase along all edges leave no room for a cycle. -/
theorem acyclicFrom_of_rank (rank : String → Nat)
    (increases : ∀ edge ∈ a.edges, edge.start ∈ a.visible → edge.stop ∈ a.visible →
      rank edge.start < rank edge.stop) : a.AcyclicFrom initial := by
  intro node _ cycle
  have above : ∀ stop, Relation.TransGen (a.Link fun _ => True) node stop →
      rank node < rank stop := by
    intro stop leads
    induction leads with
    | single link =>
        obtain ⟨starts, stops, data, edge, _⟩ := link
        exact increases ⟨data, _, _⟩ ((a.mem_edges_iff _).mpr edge) starts stops
    | tail _ link ih =>
        obtain ⟨starts, stops, data, edge, _⟩ := link
        exact ih.trans (increases ⟨data, _, _⟩ ((a.mem_edges_iff _).mpr edge) starts stops)
  exact lt_irrefl _ (above node cycle)

namespace Walk

theorem connects (walk : a.Walk initial path node) : a.Connects initial node := by
  induction walk with
  | start => exact .refl
  | step _ link ih => exact ih.tail link

theorem leads (walk : a.Walk initial path node) :
    ∀ earlier ∈ path, Relation.TransGen (a.Link fun _ => True) earlier node := by
  induction walk with
  | start => simp
  | step _ link ih =>
      exact List.forall_mem_cons.mpr
        ⟨.single link, fun earlier member => (ih earlier member).tail link⟩

theorem nodup (walk : a.Walk initial path node) (acyclic : a.AcyclicFrom initial) :
    (node :: path).Nodup := by
  induction walk with
  | start => exact List.nodup_singleton _
  | step before link ih =>
      refine List.nodup_cons.mpr ⟨fun again => ?_, ih⟩
      exact acyclic _ (before.step link).connects ((before.step link).leads _ again)

theorem visible (walk : a.Walk initial path node) (moved : path ≠ []) :
    ∀ passed ∈ node :: path, passed ∈ a.visible := by
  induction walk with
  | start => exact absurd rfl moved
  | step before link ih =>
      refine List.forall_mem_cons.mpr ⟨link.2.1, ?_⟩
      cases before with
      | start => simpa using link.1
      | step _ _ => exact ih (List.cons_ne_nil _ _)

/-- A walk without cycles has fewer edges than there are visible nodes. -/
theorem length_le (walk : a.Walk initial path node) (acyclic : a.AcyclicFrom initial) :
    path.length ≤ a.visible.length - 1 := by
  by_cases moved : path = []
  · simp [moved]
  · have count := (walk.nodup acyclic).length_le_of_subset (walk.visible moved)
    rw [List.length_cons] at count
    omega

end Walk

theorem Run.node_visible {allowed : ℚ → Prop} {n : Nat} {origin : String} {x : ℚ}
    (run : a.Run allowed n origin node x) : node ∈ a.visible := by
  cases run with
  | start _ visible _ => exact visible
  | step _ _ visible _ _ _ => exact visible

theorem Run.exists_walk {allowed : ℚ → Prop} {n : Nat} {origin : String} {x : ℚ}
    (resolved : a.initial? = some initial) (run : a.Run allowed n origin node x) :
    ∃ path, a.Walk initial path node ∧ path.length = n := by
  induction run with
  | start found _ _ =>
      obtain rfl := Option.some.inj (found.symm.trans resolved)
      exact ⟨[], .start, rfl⟩
  | step before edge visible _ _ _ ih =>
      obtain ⟨path, walk, length⟩ := ih
      exact ⟨_, walk.step ⟨before.node_visible, visible, _, edge, trivial⟩, by simp [length]⟩

/-- The nodes of a circle all lie on one cycle. -/
theorem transGen_of_successors {nodes : List String}
    (linked : ∀ pair ∈ Loop.successors nodes, a.Link (fun _ => True) pair.1 pair.2)
    {pair : String × String} (listed : pair ∈ Loop.successors nodes) :
    Relation.TransGen (a.Link fun _ => True) pair.2 pair.2 := by
  obtain ⟨_, first, _⟩ := (Loop.mem_successors_iff pair).mp listed
  have spreads : ∀ other ∈ Loop.successors nodes,
      Relation.ReflTransGen (a.Link fun _ => True) pair.2 other.1 →
      Relation.ReflTransGen (a.Link fun _ => True) pair.2 other.2 :=
    fun other member reached => reached.tail (linked other member)
  have around : Relation.ReflTransGen (a.Link fun _ => True) pair.2 pair.1 :=
    Loop.forall_of_successors spreads (Loop.mem_of_mem_successors listed) .refl pair.1
      (List.mem_of_getElem? first)
  exact Relation.TransGen.tail' around (linked pair listed)

end Automaton

/-! ### No loop jumps -/

namespace Solver

variable {s : Solver} {initial node origin : String}

/-- Between two rounds everything is held where the graph leads, and no loop that moves the counter
has grown. -/
structure Straight (initial : String) (s : Solver) : Prop where
  steady : s.Steady initial
  connects : ∀ node origin v, s.live.Holds node origin v → s.automaton.Connects initial node
  /-- Loops do not come through a node twice. -/
  loops : ∀ tracker ∈ s.trackers, ∃ nodes : List String, nodes.Nodup ∧
    tracker.loop = Loop.ofNodes s.automaton nodes
  grown : ∀ tracker ∈ s.trackers, ∀ direction, (tracker.gauge direction).grown = true →
    (tracker.loop.side direction).moves = false

namespace Straight

theorem accelerate_eq (straight : s.Straight initial) (reach : Reach) :
    s.accelerate reach = reach := by
  rw [accelerate, foldl_jumps]
  refine List.foldlRecOn (motive := (· = reach)) _ _ rfl fun _ same turn due => ?_
  obtain ⟨tracker, direction⟩ := turn
  have tracked := ((mem_due_iff s tracker direction).mp due).1
  rw [leap]
  split
  · exact same
  · next jump found =>
      obtain ⟨⟨grown, moves, _⟩, _⟩ := aims_of_jump? found
      simp [straight.grown tracker tracked direction grown] at moves

theorem next_eq (straight : s.Straight initial) : s.next = s.propagate := straight.accelerate_eq _

theorem next_connects (straight : s.Straight initial) (node origin : String) (v : ExtRat)
    (held : s.next.Holds node origin v) : s.automaton.Connects initial node := by
  have valid := straight.steady.valid
  rw [straight.next_eq, holds_propagate_iff valid (straight.steady.snapshot ▸ valid)] at held
  rcases held with old | ⟨visible, data, edge, ⟨before, values, found, inhabited, _⟩, _⟩
  · exact straight.connects node origin v old
  · rw [straight.steady.snapshot] at found
    obtain ⟨u, member⟩ := Region.exists_mem inhabited
    exact (straight.connects origin before u ⟨values, found, member⟩).tail
      ⟨valid.node_visible found, visible, data, edge, trivial⟩

/-- Values along all edges of a loop that moves the counter would show a cycle. -/
theorem not_moves_of_growth (straight : s.Straight initial)
    (acyclic : s.automaton.AcyclicFrom initial) {tracker : Tracker} (tracked : tracker ∈ s.trackers)
    {growth : Growth} (found : tracker.loop.growth? s.snapshot s.next = some growth)
    (direction : Direction) : (tracker.loop.side direction).moves = false := by
  by_contra moves
  rw [Bool.not_eq_false] at moves
  obtain ⟨nodes, distinct, read⟩ := straight.loops tracker tracked
  obtain ⟨held, _⟩ := Loop.growth?_spec found
  have valid := straight.steady.next_valid.1
  rw [read] at held moves
  obtain ⟨pair, listed, data, edge, _⟩ := Loop.exists_of_moves moves
  have linked : ∀ other ∈ Loop.successors nodes,
      s.automaton.Link (fun _ => True) other.1 other.2 := by
    intro other member
    obtain ⟨_, values, stored, _⟩ := held other member
    obtain ⟨visible, there | ⟨first, second⟩⟩ := valid.origin _ _ _ stored
    · obtain ⟨own, there⟩ := Option.isSome_iff_exists.mp there
      exact ⟨visible, valid.node_visible stored, own, there, trivial⟩
    · -- A loop that turns at one node has no other node, so its one edge is there.
      obtain rfl : other = (initial, initial) := Prod.ext first second
      obtain rfl := Loop.eq_singleton_of_mem_successors distinct member
      obtain rfl := List.mem_singleton.mp listed
      exact ⟨visible, valid.node_visible stored, data, edge, trivial⟩
  obtain ⟨v, present⟩ := held pair listed
  exact acyclic pair.2 (straight.next_connects _ _ v present)
    (Automaton.transGen_of_successors linked listed)

theorem round_straight (straight : s.Straight initial)
    (acyclic : s.automaton.AcyclicFrom initial) : s.round.Straight initial := by
  have steady := round_steady straight.steady
  cases finished : s.finished with
  | true => exact (round_of_finished finished).symm ▸ straight
  | false =>
      rcases round_cases finished with ⟨_, equal⟩ | ⟨_, equal⟩
      · rw [equal] at steady ⊢
        exact ⟨steady, straight.next_connects, straight.loops, straight.grown⟩
      · rw [equal] at steady ⊢
        refine ⟨steady, straight.next_connects, ?_, ?_⟩
        · intro tracker member
          obtain ⟨old, tracked, rfl⟩ := List.mem_map.mp member
          rw [loop_update]
          exact straight.loops old tracked
        · intro tracker member direction grown
          obtain ⟨old, tracked, rfl⟩ := List.mem_map.mp member
          rw [loop_update]
          rcases Tracker.grown_update grown with before | ⟨growth, found, _⟩
          · exact straight.grown old tracked direction before
          · exact straight.not_moves_of_growth acyclic tracked found direction

end Straight

theorem ofAutomaton_straight {a : Automaton} (fresh : a.LoopsFresh)
    (resolved : a.initial? = some initial) (settings : Settings) :
    (ofAutomaton (a.withLoops initial) initial settings).Straight initial where
  steady := ofAutomaton_steady fresh.current resolved settings
  connects := by
    intro node origin v held
    obtain ⟨rfl, rfl, _⟩ := (Automaton.holds_firstArrivals_iff _ _ _ _ _).mp held
    exact .refl
  loops := fun _ member => (trackers_ofAutomaton fresh resolved member).1
  grown := by
    intro tracker member direction grown
    simp [(trackers_ofAutomaton fresh resolved member).2 direction] at grown

theorem iterate_straight {a : Automaton} (fresh : a.LoopsFresh)
    (resolved : a.initial? = some initial) (acyclic : a.AcyclicFrom initial) (settings : Settings)
    (n : Nat) :
    (round^[n] (ofAutomaton (a.withLoops initial) initial settings)).Straight initial := by
  induction n with
  | zero => exact ofAutomaton_straight fresh resolved settings
  | succ n ih =>
      rw [Function.iterate_succ_apply']
      have same : (round^[n] (ofAutomaton (a.withLoops initial) initial settings)).automaton =
        a.withLoops initial := (frame_iterate _ n).1
      refine ih.round_straight ?_
      rw [same]
      exact acyclic

end Solver

/-! ### What changes in a round -/

/-- A valid entry is known by its values. -/
theorem Reach.Valid.values?_eq {before after : Reach} {a : Automaton} {initial node origin : String}
    (left : before.Valid a initial) (right : after.Valid a initial)
    (there : (before.values? node origin).isSome = (after.values? node origin).isSome)
    (same : ∀ v, before.Holds node origin v ↔ after.Holds node origin v) :
    before.values? node origin = after.values? node origin := by
  cases old : before.values? node origin with
  | none =>
      cases new : after.values? node origin with
      | none => rfl
      | some values => simp [old, new] at there
  | some values =>
      cases new : after.values? node origin with
      | none => simp [old, new] at there
      | some others =>
          congr 1
          refine (left.normal _ _ _ old).eq_of_mem_iff (right.normal _ _ _ new) fun v => ?_
          simpa [Holds, old, new] using same v

namespace Solver

variable {s : Solver} {initial node origin : String}

/-- An entry that changes gets something along its edge. It was not there, or it gets a new
value. -/
theorem exists_of_changed (steady : s.Steady initial)
    (changed : s.propagate.values? node origin ≠ s.live.values? node origin) :
    ∃ data, s.automaton.edgeData? origin node = some data ∧ node ∈ s.automaton.visible ∧
      (∃ before u, s.live.Holds origin before u) ∧
      ((s.live.values? node origin).isSome = false ∨
        ∃ v, Edge.Brings ⟨data, origin, node⟩ s.live v ∧ s.automaton.Admits node v ∧
          ¬ s.live.Holds node origin v) := by
  have snapshot := steady.snapshot ▸ steady.valid
  have there := isSome_values?_propagate_iff steady.valid snapshot node origin
  have holds := holds_propagate_iff steady.valid snapshot node origin
  rw [steady.snapshot] at there holds
  cases known : (s.live.values? node origin).isSome with
  | false =>
      have appears : (s.propagate.values? node origin).isSome = true := by
        by_contra gone
        rw [Option.not_isSome_iff_eq_none] at gone
        rw [Option.isSome_eq_false_iff, Option.isNone_iff_eq_none] at known
        exact changed (gone.trans known.symm)
      rw [there, known] at appears
      obtain ⟨visible, edge, held⟩ := appears.resolve_left Bool.false_ne_true
      obtain ⟨data, edge⟩ := Option.isSome_iff_exists.mp edge
      exact ⟨data, edge, visible, held, Or.inl rfl⟩
  | true =>
      obtain ⟨v, new, missing⟩ :
          ∃ v, s.propagate.Holds node origin v ∧ ¬ s.live.Holds node origin v := by
        by_contra none
        push Not at none
        refine changed (Reach.Valid.values?_eq (propagate_valid steady.valid snapshot) steady.valid
          ?_ fun v => ⟨none v, fun old => (holds v).mpr (Or.inl old)⟩)
        rw [known, there]
        exact Or.inl known
      obtain ⟨visible, data, edge, brings, admits⟩ := ((holds v).mp new).resolve_left missing
      obtain ⟨before, values, found, inhabited, carried⟩ := brings
      obtain ⟨u, member⟩ := Region.exists_mem inhabited
      exact ⟨data, edge, visible, ⟨before, u, values, found, member⟩,
        Or.inr ⟨v, ⟨before, values, found, inhabited, carried⟩, admits, missing⟩⟩

/-- An entry changes only if the start of its edge has changed in the round before. -/
theorem Straight.exists_of_changed_again (straight : s.Straight initial)
    (changed : s.round.propagate.values? node origin ≠ s.round.live.values? node origin) :
    s.automaton.Link (fun _ => True) origin node ∧
      ∃ before, s.propagate.values? origin before ≠ s.live.values? origin before := by
  have steady := round_steady straight.steady
  have live : s.round.live = s.propagate := (live_round straight.steady).trans straight.next_eq
  obtain ⟨data, edge, visible, ⟨before, u, values, found, member⟩, reason⟩ :=
    exists_of_changed steady changed
  have originVisible := steady.valid.node_visible found
  rw [(frame_round s).1] at edge visible originVisible reason
  refine ⟨⟨originVisible, visible, data, edge, trivial⟩, ?_⟩
  by_contra same
  push Not at same
  have snapshot := straight.steady.snapshot ▸ straight.steady.valid
  rw [live] at reason found
  rw [same] at found
  -- What comes along the edge has come along it in the round before.
  rcases reason with gone | ⟨v, ⟨source, region, stored, inhabited, carried⟩, admits, missing⟩
  · have there := (isSome_values?_propagate_iff straight.steady.valid snapshot node origin).mpr
      (Or.inr ⟨visible, Option.isSome_iff_exists.mpr ⟨data, edge⟩, before, u,
        straight.steady.snapshot ▸ ⟨values, found, member⟩⟩)
    simp [there] at gone
  · rw [same] at stored
    exact missing ((holds_propagate_iff straight.steady.valid snapshot node origin v).mpr
      (Or.inr ⟨visible, data, edge,
        straight.steady.snapshot ▸ ⟨source, region, stored, inhabited, carried⟩, admits⟩))

section Rounds

variable {a : Automaton} {settings : Settings} (fresh : a.LoopsFresh)
  (resolved : a.initial? = some initial) (acyclic : a.AcyclicFrom initial)

include fresh resolved acyclic

/-- What changes in a round has come along as many edges as there were rounds. -/
theorem exists_walk_of_changed (n : Nat)
    (changed : (round^[n] (ofAutomaton (a.withLoops initial) initial settings)).propagate.values?
      node origin ≠
        (round^[n] (ofAutomaton (a.withLoops initial) initial settings)).live.values? node origin) :
    ∃ path, a.Walk initial path node ∧ path.length = n + 1 := by
  induction n generalizing node origin with
  | zero =>
      have steady := ofAutomaton_steady fresh.current resolved settings
      obtain ⟨data, edge, visible, ⟨before, u, values, found, member⟩, _⟩ :=
        exists_of_changed steady changed
      obtain ⟨rfl, rfl, originVisible, _⟩ :=
        (a.holds_firstArrivals_iff initial origin before u).mp ⟨values, found, member⟩
      exact ⟨_, .step .start ⟨originVisible, visible, data, edge, trivial⟩, rfl⟩
  | succ n ih =>
      rw [Function.iterate_succ_apply'] at changed
      obtain ⟨link, before, earlier⟩ :=
        (iterate_straight fresh resolved acyclic settings n).exists_of_changed_again changed
      obtain ⟨path, walk, length⟩ := ih earlier
      rw [(frame_iterate _ n).1] at link
      exact ⟨_, walk.step link, by simp [length]⟩

theorem next_eq_live_of_le {n : Nat} (late : a.visible.length - 1 ≤ n) :
    (round^[n] (ofAutomaton (a.withLoops initial) initial settings)).next =
      (round^[n] (ofAutomaton (a.withLoops initial) initial settings)).live := by
  have straight := iterate_straight fresh resolved acyclic settings n
  rw [straight.next_eq]
  refine Reach.eq_of_values? (keys_propagate _) fun node origin => ?_
  by_contra changed
  obtain ⟨path, walk, length⟩ := exists_walk_of_changed fresh resolved acyclic n changed
  have short := walk.length_le acyclic
  omega

theorem rounds_iterate_le (n : Nat) :
    (round^[n] (ofAutomaton (a.withLoops initial) initial settings)).rounds ≤
      a.visible.length - 1 := by
  induction n with
  | zero => exact Nat.zero_le _
  | succ n ih =>
      have steady := iterate_steady (ofAutomaton_steady fresh.current resolved settings) n
      have few := (iterate_paced (ofAutomaton_paced (a.withLoops initial) initial settings) n).2
      rw [Function.iterate_succ_apply']
      cases finished :
          (round^[n] (ofAutomaton (a.withLoops initial) initial settings)).finished with
      | true => rwa [round_of_finished finished]
      | false =>
          rcases round_cases finished with ⟨_, equal⟩ | ⟨different, equal⟩
          · rw [equal]
            exact ih
          · -- Something has changed, so there have not been as many rounds yet.
            have early : n < a.visible.length - 1 := by
              by_contra late
              rw [steady.snapshot] at different
              exact different (next_eq_live_of_le fresh resolved acyclic (not_lt.mp late))
            rw [equal]
            change _ + 1 ≤ _
            have zero : (ofAutomaton (a.withLoops initial) initial settings).rounds = 0 := rfl
            omega

theorem iterate_finished_of_acyclic : (round^[a.visible.length - 1 + 1]
    (ofAutomaton (a.withLoops initial) initial settings)).finished = true := by
  have steady := iterate_steady (ofAutomaton_steady fresh.current resolved settings) (a.visible.length - 1)
  have still : (round^[a.visible.length - 1]
      (ofAutomaton (a.withLoops initial) initial settings)).next = _ :=
    next_eq_live_of_le fresh resolved acyclic (le_refl _)
  rw [Function.iterate_succ_apply']
  cases finished : (round^[a.visible.length - 1]
      (ofAutomaton (a.withLoops initial) initial settings)).finished with
  | true => rwa [round_of_finished finished]
  | false =>
      rcases round_cases finished with ⟨_, equal⟩ | ⟨different, _⟩
      · rw [equal]
      · exact absurd (still.trans steady.snapshot.symm) different

end Rounds

theorem run_of_unlimited (unlimited : s.settings.maxRounds? = none) (fits : s.overflows = false) :
    s.run = .ok (round^[s.horizon] s) := by
  rw [run, fits, Bool.and_false, if_neg Bool.false_ne_true, runFor_of_unlimited unlimited]

/-- Rounds that have finished the analysis all lead to the same state. -/
theorem iterate_eq_of_finished {m n : Nat} (first : (round^[m] s).finished = true)
    (second : (round^[n] s).finished = true) : round^[m] s = round^[n] s := by
  rcases Nat.le_total m n with before | before
  · obtain ⟨more, rfl⟩ := Nat.exists_eq_add_of_le' before
    rw [Function.iterate_add_apply, iterate_of_finished first]
  · obtain ⟨more, rfl⟩ := Nat.exists_eq_add_of_le' before
    rw [Function.iterate_add_apply, iterate_of_finished second]

/-- Without cycles every run is shorter than there are visible nodes. -/
theorem exists_run_iff_of_acyclic {a : Automaton} (resolved : a.initial? = some initial)
    (acyclic : a.AcyclicFrom initial) {origin node : String} {x : ℚ} :
    (∃ k ≤ a.visible.length - 1, a.Run (fun _ => True) k origin node x) ↔
      ∃ k, a.Run (fun _ => True) k origin node x := by
  constructor
  · rintro ⟨k, _, run⟩
    exact ⟨k, run⟩
  · rintro ⟨k, run⟩
    obtain ⟨path, walk, rfl⟩ := run.exists_walk resolved
    exact ⟨path.length, walk.length_le acyclic, run⟩

/-- Without cycles, and with all changes of the counter in range, a run is finished after fewer
rounds than there are visible nodes, no round ever changes anything by acceleration, and if no run
can leave the counter range, just the values of the runs are held. -/
theorem run_of_acyclic {a : Automaton} {settings : Settings} (fresh : a.LoopsFresh)
    (started : start a settings = .ok s) (unlimited : settings.maxRounds? = none)
    (resolved : a.initial? = some initial) (acyclic : a.AcyclicFrom initial) :
    (s.overflows = true → s.run = .error .deltaOverflow) ∧
    (s.overflows = false →
      ∃ s', s.run = .ok s' ∧ s'.finished = true ∧ s'.rounds ≤ a.visible.length - 1 ∧
        (∀ n t, s.advanceBy n = .ok t → t.accelerate t.propagate = t.propagate) ∧
        (Count.least.toInt ≤ a.start.toInt - a.visible.length * a.largestDelta →
          a.start.toInt + a.visible.length * a.largestDelta ≤ Count.greatest.toInt →
          ∀ origin node (x : ℚ), s'.live.Holds node origin x ↔
            ∃ k, a.Run (fun _ => True) k origin node x)) := by
  obtain ⟨other, found, rfl⟩ := start_eq_ok started
  obtain rfl := Option.some.inj (found.symm.trans resolved)
  have steady := ofAutomaton_steady fresh.current resolved settings
  constructor
  · intro overflow
    have going : (ofAutomaton (a.withLoops other) other settings).stopped = false := by
      simp [stopped, exhausted, ofAutomaton, unlimited]
    rw [run, going, overflow]
    rfl
  · intro inRange
    refine ⟨_, run_of_unlimited unlimited inRange, iterate_finished steady,
      rounds_iterate_le fresh resolved acyclic _, ?_, ?_⟩
    · intro n t advanced
      rw [advanceBy_of_not_overflows inRange] at advanced
      obtain rfl := Except.ok.inj advanced
      exact (iterate_straight fresh resolved acyclic settings n).accelerate_eq _
    · intro low high origin node x
      have fewer : (a.visible.length - 1) * a.largestDelta ≤ a.visible.length * a.largestDelta :=
        Nat.mul_le_mul_right _ (Nat.sub_le _ 1)
      have exact := iterate_exact_of_plain fresh.current resolved
        (fun m _ => (iterate_straight fresh resolved acyclic settings m).next_eq)
        (n := a.visible.length - 1) (by omega) (by omega) origin node x
      -- The last round has changed nothing any more.
      rw [iterate_eq_of_finished (iterate_finished steady) (iterate_finished_of_acyclic fresh resolved acyclic),
        Function.iterate_succ_apply', live_round (iterate_steady steady _),
        next_eq_live_of_le fresh resolved acyclic (le_refl _), exact,
        exists_run_iff_of_acyclic resolved acyclic]

end Solver

namespace Automaton

/-- Two ways lead to the last node, and from there a hidden node leads back to the first one. -/
def detour : Automaton where
  name := "detour"
  nodes := ((((Table.empty.insert "entry" ⟨none, none, true⟩).insert "first" .plain).insert "left"
    .plain).insert "right" .plain).insert "last" ⟨none, some ⟨.atMost, .clamp 1⟩, false⟩
  rows := ((((Table.empty.insert "entry" (Table.empty.insert "first" .plain)).insert "first"
    ((Table.empty.insert "left" ⟨none, some ⟨.add, .clamp 2⟩⟩).insert "right"
      ⟨none, some ⟨.sub, .clamp 1⟩⟩)).insert "left" (Table.empty.insert "last" .plain)).insert
    "right" (Table.empty.insert "last" .plain)).insert "last" (Table.empty.insert "entry" .plain)
  initial? := some "first"
  lower := .negInf
  upper := .posInf
  start := 0
  loops? := none

theorem detour_loopsFresh : detour.LoopsFresh := by
  intro initial loops _ known
  cases known

theorem detour_fits : detour.Fits := by
  unfold Fits
  decide +kernel

theorem detour_acyclic : detour.AcyclicFrom "first" :=
  acyclicFrom_of_rank
    (fun name => if name = "first" then 0 else if name = "last" then 2 else 1) (by decide +kernel)

/-- One edge that takes the least counter value away, which is a change past the range. -/
def recoil : Automaton where
  name := "recoil"
  nodes := ((Table.empty.insert "entry" ⟨none, none, true⟩).insert "first" .plain).insert "second"
    ⟨none, some ⟨.atMost, .clamp (-1)⟩, false⟩
  rows := (Table.empty.insert "entry" (Table.empty.insert "first" .plain)).insert "first"
    (Table.empty.insert "second" ⟨none, some ⟨.sub, .least⟩⟩)
  initial? := some "first"
  lower := .negInf
  upper := .posInf
  start := 0
  loops? := some []

theorem recoil_loopsFresh : recoil.LoopsFresh := by
  intro initial loops resolved known
  obtain rfl := Option.some.inj resolved
  obtain rfl := Option.some.inj known
  decide +kernel

theorem recoil_acyclic : recoil.AcyclicFrom "first" :=
  acyclicFrom_of_rank (fun name => if name = "first" then 0 else 1) (by decide +kernel)

end Automaton

namespace Solver

theorem detour_run : ∃ s s', start .detour ⟨some 0, none⟩ = .ok s ∧ s.trackers ≠ [] ∧
    s.run = .ok s' ∧ s'.finished = true ∧ s'.rounds ≤ 3 ∧
    (∀ n t, s.advanceBy n = .ok t → t.accelerate t.propagate = t.propagate) ∧
    ∀ origin node (x : ℚ), s'.live.Holds node origin x ↔
      ∃ k, Automaton.detour.Run (fun _ => True) k origin node x := by
  have started := start_of_fits rfl Automaton.detour_fits
    ⟨some 0, none⟩
  obtain ⟨s', ran, finished, few, plain, exact⟩ := (run_of_acyclic Automaton.detour_loopsFresh
    started rfl rfl Automaton.detour_acyclic).2 (by decide +kernel)
  exact ⟨_, s', started, by decide +kernel, ran, finished, few, plain,
    exact (by decide +kernel) (by decide +kernel)⟩

/-- The run fails, although the graph has no cycle. -/
theorem recoil_not_finished : Automaton.recoil.LoopsFresh ∧
    Automaton.recoil.initial? = some "first" ∧ Automaton.recoil.AcyclicFrom "first" ∧
    ∃ s, start .recoil ⟨none, none⟩ = .ok s ∧ s.run = .error .deltaOverflow :=
  ⟨Automaton.recoil_loopsFresh, rfl, Automaton.recoil_acyclic, _, rfl,
    if_pos (by decide +kernel)⟩

end Solver

end OneCounter
