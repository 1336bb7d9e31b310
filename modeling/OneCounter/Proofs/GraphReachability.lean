import OneCounter.Proofs.Circuits
import OneCounter.Proofs.Closure
import OneCounter.Proofs.Growth

/-!
Reachability where neither guards nor bounds restrict the counter. A node should then be reachable
if the graph leads there, and it is, unless the counter starts at an end of its range: an edge that
points past this end leads nowhere as long as the counter has not moved away from it. Main
statement: a finished analysis reports just the nodes that are reached before the counter changes, or
after a first change that does not point past the end of the range.
-/

namespace OneCounter

/-! ### Ways through the graph -/

namespace Automaton

/-- Neither guards nor bounds restrict the counter. -/
structure Unrestricted (a : Automaton) : Prop where
  unguarded : ∀ node, a.condition? node = none
  lower : a.lower = .negInf
  upper : a.upper = .posInf

/-- An edge between visible nodes, with a change of some kind. -/
def Link (a : Automaton) (kind : Count → Prop) (node stop : String) : Prop :=
  node ∈ a.visible ∧ stop ∈ a.visible ∧
    ∃ data, a.edgeData? node stop = some data ∧ kind data.delta

/-- The graph leads from the one node to the other. -/
def Connects (a : Automaton) (initial node : String) : Prop :=
  Relation.ReflTransGen (a.Link fun _ => True) initial node

/-- A change that takes the counter off its starting value. At an end of its range the counter
cannot go on in the same direction. -/
def Departs (a : Automaton) (delta : Count) : Prop :=
  (0 < delta ∧ a.start ≠ .greatest) ∨ (delta < 0 ∧ a.start ≠ .least)

/-- The node is reached before the counter changes. -/
def Waits (a : Automaton) (initial node : String) : Prop :=
  Relation.ReflTransGen (a.Link (· = 0)) initial node

/-- The node is reached after the counter has left its starting value. -/
def Moves (a : Automaton) (initial node : String) : Prop :=
  ∃ last first, a.Waits initial last ∧ a.Link a.Departs last first ∧ a.Connects first node

variable {a : Automaton} {initial node stop : String}

theorem Unrestricted.admits (free : a.Unrestricted) (node : String) (v : ExtRat) :
    a.Admits node v := by
  refine ⟨?_, ?_, by simp [free.unguarded]⟩
  · rw [free.lower]
    exact bot_le
  · rw [free.upper]
    exact le_top

theorem Link.weaken {kind : Count → Prop} (link : a.Link kind node stop) :
    a.Link (fun _ => True) node stop := by
  obtain ⟨starts, stops, data, edge, _⟩ := link
  exact ⟨starts, stops, data, edge, trivial⟩

theorem Moves.step (moves : a.Moves initial node) (link : a.Link (fun _ => True) node stop) :
    a.Moves initial stop := by
  obtain ⟨last, first, waits, departs, connects⟩ := moves
  exact ⟨last, first, waits, departs, connects.tail link⟩

theorem Waits.connects (waits : a.Waits initial node) : a.Connects initial node :=
  Relation.ReflTransGen.mono (fun _ _ => Link.weaken) _ _ waits

theorem Moves.connects (moves : a.Moves initial node) : a.Connects initial node := by
  obtain ⟨last, first, waits, departs, connects⟩ := moves
  exact (waits.connects.tail departs.weaken).trans connects

/-- Away from the ends of its range the counter can follow the graph everywhere. -/
theorem waits_or_moves_of_connects (above : a.start ≠ .least) (below : a.start ≠ .greatest)
    (connects : a.Connects initial node) : a.Waits initial node ∨ a.Moves initial node := by
  induction connects with
  | refl => exact Or.inl .refl
  | tail _ link ih =>
      rcases ih with waits | moves
      · obtain ⟨starts, stops, data, edge, _⟩ := link
        rcases lt_trichotomy data.delta.toInt 0 with down | same | up
        · exact Or.inr ⟨_, _, waits, ⟨starts, stops, data, edge, Or.inr ⟨down, above⟩⟩, .refl⟩
        · exact Or.inl (waits.tail ⟨starts, stops, data, edge, Count.ext same⟩)
        · exact Or.inr ⟨_, _, waits, ⟨starts, stops, data, edge, Or.inl ⟨up, below⟩⟩, .refl⟩
      · exact Or.inr (moves.step link)

end Automaton

/-! ### Changes at the ends of the range -/

theorem Region.mem_of_mem_point_add {value : Bound} {i : Interval} {v : ExtRat}
    (member : v ∈ point value + ofInterval i) : v ∈ Interval.point value + i := by
  obtain ⟨⟨low, lowPiece, above⟩, high, highPiece, below⟩ := exists_ends_of_mem_add member
  obtain rfl : low = Interval.point value := List.mem_singleton.mp lowPiece
  obtain rfl : high = Interval.point value := List.mem_singleton.mp highPiece
  exact ⟨above, below⟩

/-- What an edge with a change carries away from the starting value shows that the counter can
depart along the edge. -/
theorem Edge.departs_of_mem_carry {a : Automaton} {edge : Edge} {v : ExtRat}
    (changes : edge.delta ≠ 0) (member : v ∈ edge.carry (.point (.finite a.start))) :
    a.Departs edge.delta := by
  by_cases up : 0 < edge.delta
  · refine Or.inl ⟨up, ?_⟩
    intro highest
    rw [carry_of_pos up, highest] at member
    have sum := Region.mem_of_mem_point_add member
    -- The sum is more than the greatest value, and at most what saturates to it.
    have past : (Bound.finite .greatest).val < v := by
      rcases sum.1 with less | ⟨_, closed⟩
      · exact less
      · cases closed
    have within : v ≤ (Bound.finite (.greatest + edge.delta)).val := Interval.le_high_of_mem sum
    have less : Count.greatest.toInt < (Count.greatest + edge.delta).toInt := by
      exact_mod_cast WithBotTop.coe_lt_coe.mp (past.trans_le within)
    exact absurd less (not_lt.mpr (Count.greatest + edge.delta).le_greatest)
  · have down : edge.delta < 0 := lt_of_le_of_ne (not_lt.mp up) fun same => changes (Count.ext same)
    refine Or.inr ⟨down, ?_⟩
    intro lowest
    rw [carry_of_neg down, lowest] at member
    have sum := Region.mem_of_mem_point_add member
    have past : v < (Bound.finite .least).val := by
      rcases sum.2 with less | ⟨_, closed⟩
      · exact less
      · cases closed
    have within : (Bound.finite (.least + edge.delta)).val ≤ v := Interval.low_le_of_mem sum
    have less : (Count.least + edge.delta).toInt < Count.least.toInt := by
      exact_mod_cast WithBotTop.coe_lt_coe.mp (within.trans_lt past)
    exact absurd less (not_lt.mpr (Count.least + edge.delta).least_le)

/-- Some part of a change leads strictly within the range of the counter. -/
theorem Count.exists_adds_inside {delta : Count} {x : ℚ} (low : (least.toInt : ℚ) ≤ x)
    (high : x ≤ greatest.toInt) (up : 0 < delta.toInt → x < greatest.toInt)
    (down : delta.toInt < 0 → (least.toInt : ℚ) < x) (still : delta.toInt = 0 → Inside x) :
    ∃ t, delta.Adds t ∧ Inside (x + t) := by
  -- Half of the room that is left on the way is added, or all of the change if that is less.
  rcases lt_trichotomy delta.toInt 0 with falls | same | rises
  · have change : (delta.toInt : ℚ) < 0 := by exact_mod_cast falls
    have half : ((least.toInt : ℚ) - x) / 2 < 0 := by linarith [down falls]
    have part := le_max_right (delta.toInt : ℚ) ((least.toInt - x) / 2)
    have below := max_lt change half
    exact ⟨_, (adds_iff_of_neg falls _).mpr ⟨le_max_left _ _, below⟩, by linarith [down falls],
      by linarith⟩
  · obtain rfl : delta = 0 := Count.ext same
    refine ⟨0, (adds_zero_iff 0).mpr rfl, ?_⟩
    rw [add_zero]
    exact still rfl
  · have change : 0 < (delta.toInt : ℚ) := by exact_mod_cast rises
    have half : 0 < ((greatest.toInt : ℚ) - x) / 2 := by linarith [up rises]
    have part := min_le_right (delta.toInt : ℚ) ((greatest.toInt - x) / 2)
    have above := lt_min change half
    exact ⟨_, (adds_iff_of_pos rises _).mpr ⟨above, min_le_left _ _⟩, by linarith,
      by linarith [up rises]⟩

theorem Automaton.Departs.exists_adds_inside {a : Automaton} {delta : Count}
    (departs : a.Departs delta) : ∃ t, delta.Adds t ∧ Count.Inside (a.start.toInt + t) := by
  have low : (Count.least.toInt : ℚ) ≤ a.start.toInt := by exact_mod_cast a.start.least_le
  have high : (a.start.toInt : ℚ) ≤ Count.greatest.toInt := by exact_mod_cast a.start.le_greatest
  rcases departs with ⟨up, below⟩ | ⟨down, above⟩
  · have rises : 0 < delta.toInt := up
    have room : (a.start.toInt : ℚ) < Count.greatest.toInt := by
      exact_mod_cast lt_of_le_of_ne a.start.le_greatest fun same => below (Count.ext same)
    exact Count.exists_adds_inside low high (fun _ => room) (fun falls => by omega)
      fun same => by omega
  · have falls : delta.toInt < 0 := down
    have room : (Count.least.toInt : ℚ) < a.start.toInt := by
      exact_mod_cast lt_of_le_of_ne a.start.least_le fun same => above (Count.ext same.symm)
    exact Count.exists_adds_inside low high (fun rises => by omega) (fun _ => room)
      fun same => by omega

/-! ### Where values come from -/

/-- Every value is held where the counter may have moved, or it is the starting value and has come
there without a change. -/
def Reach.Traced (a : Automaton) (initial : String) (reach : Reach) : Prop :=
  ∀ node origin v, reach.Holds node origin v → a.Moves initial node ∨
    (a.Waits initial node ∧ v = (Bound.finite a.start).val ∧
      ((origin = initial ∧ node = initial) ∨
        ∀ data, a.edgeData? origin node = some data → data.delta = 0))

namespace Reach.Traced

variable {a : Automaton} {initial node origin : String} {reach : Reach} {values : Region}

/-- Where the counter cannot have moved, there is nothing but the starting value. -/
theorem eq_point (traced : reach.Traced a initial) (valid : reach.Valid a initial)
    (found : reach.values? node origin = some values) (inhabited : values.isEmpty = false)
    (unmoved : ¬ a.Moves initial node) : values = .point (.finite a.start) := by
  have only : ∀ v ∈ values, v = (Bound.finite a.start).val := by
    intro v member
    exact ((traced node origin v ⟨values, found, member⟩).resolve_left unmoved).2.1
  apply (valid.normal node origin values found).eq_of_mem_iff (Region.normal_point _)
  intro v
  rw [Region.mem_point_iff]
  constructor
  · exact only v
  · rintro rfl
    obtain ⟨u, member⟩ := Region.exists_mem inhabited
    exact only u member ▸ member

theorem of_brings (traced : reach.Traced a initial) (valid : reach.Valid a initial)
    {data : EdgeData} (edge : a.edgeData? origin node = some data) (visible : node ∈ a.visible)
    {v : ExtRat} (brings : Edge.Brings ⟨data, origin, node⟩ reach v) :
    a.Moves initial node ∨
      (a.Waits initial node ∧ v = (Bound.finite a.start).val ∧ data.delta = 0) := by
  obtain ⟨source, values, found, inhabited, carried⟩ := brings
  have originVisible := valid.node_visible found
  by_cases moves : a.Moves initial origin
  · exact Or.inl (moves.step ⟨originVisible, visible, data, edge, trivial⟩)
  · obtain ⟨u, member⟩ := Region.exists_mem inhabited
    have waits := ((traced origin source u ⟨values, found, member⟩).resolve_left moves).1
    rw [traced.eq_point valid found inhabited moves] at carried
    by_cases unchanged : data.delta = 0
    · rw [Edge.carry_of_unchanged unchanged, Region.mem_point_iff] at carried
      exact Or.inr ⟨waits.tail ⟨originVisible, visible, data, edge, unchanged⟩, carried, unchanged⟩
    · exact Or.inl ⟨origin, node, waits, ⟨originVisible, visible, data, edge,
        Edge.departs_of_mem_carry unchanged carried⟩, .refl⟩

end Reach.Traced

theorem Automaton.firstArrivals_traced (a : Automaton) (initial : String) :
    (a.firstArrivals initial).Traced a initial := by
  intro node origin v held
  obtain ⟨rfl, rfl, _, same, _⟩ := (holds_firstArrivals_iff a initial node origin v).mp held
  exact Or.inr ⟨.refl, same, Or.inl ⟨rfl, rfl⟩⟩

/-! ### No growth without a move -/

theorem Region.extendsAbove_self (r : Region) : r.extendsAbove r = false := by
  unfold extendsAbove
  cases r.pieces.getLast? with
  | none => rfl
  | some last => simp [Bound.lt_iff_val]

theorem Region.extendsBelow_self (r : Region) : r.extendsBelow r = false := by
  unfold extendsBelow
  cases r.pieces.head? with
  | none => rfl
  | some first => simp [Bound.lt_iff_val]

/-- An edge whose values are the same as before has not grown. -/
theorem Loop.along_of_same {l : Loop} {before after : Reach} {edge : String × String}
    {values : Region} {growth : Growth} (old : before.values? edge.2 edge.1 = some values)
    (new : after.values? edge.2 edge.1 = some values) (inhabited : values.isEmpty = false)
    (found : l.edgeGrowth? before after edge = some growth) (direction : Direction) :
    growth.along direction = false := by
  simp only [edgeGrowth?, old, new, Option.filter_some, inhabited, Bool.not_false, if_true,
    Region.extendsAbove_self, Region.extendsBelow_self] at found
  split at found
  · obtain rfl := Option.some.inj found
    cases direction <;> rfl
  · cases found

namespace Solver

variable {s s' : Solver} {initial : String}

/-- Between two rounds every value can be traced back to the start, the starting value is where it
was, and the counter may have moved wherever a loop has grown. -/
structure Traced (initial : String) (s : Solver) : Prop where
  steady : s.Steady initial
  seeded : s.live.Holds initial initial (Bound.finite s.automaton.start).val
  entries : s.live.Traced s.automaton initial
  /-- Loops do not come through a node twice. -/
  loops : ∀ tracker ∈ s.trackers, ∃ nodes : List String, nodes.Nodup ∧
    tracker.loop = Loop.ofNodes s.automaton nodes
  grown : ∀ tracker ∈ s.trackers, ∀ direction, (tracker.gauge direction).grown = true →
    (tracker.loop.side direction).moves = true →
      ∀ node ∈ tracker.loop.nodes, s.automaton.Moves initial node

theorem Traced.snapshot_valid (traced : s.Traced initial) :
    s.snapshot.Valid s.automaton initial :=
  traced.steady.snapshot ▸ traced.steady.valid

theorem Traced.snapshot_traced (traced : s.Traced initial) :
    s.snapshot.Traced s.automaton initial :=
  traced.steady.snapshot ▸ traced.entries

theorem Traced.propagate_traced (traced : s.Traced initial) :
    s.propagate.Traced s.automaton initial := by
  intro node origin v held
  rcases (holds_propagate_iff traced.steady.valid traced.snapshot_valid node origin v).mp held with
    old | ⟨visible, data, edge, brings, _⟩
  · exact traced.entries node origin v old
  · rcases traced.snapshot_traced.of_brings traced.snapshot_valid edge visible brings with
      moves | ⟨waits, same, unchanged⟩
    · exact Or.inl moves
    · refine Or.inr ⟨waits, same, Or.inr ?_⟩
      intro other found
      obtain rfl := Option.some.inj (edge.symm.trans found)
      exact unchanged

theorem Traced.next_traced (traced : s.Traced initial) : s.next.Traced s.automaton initial := by
  intro node origin v held
  have valid := propagate_valid traced.steady.valid traced.snapshot_valid
  obtain ⟨values, found, member⟩ := held
  obtain ⟨x, rfl⟩ := traced.steady.next_valid.1.finite found v member
  rcases (holds_accelerate_iff traced.steady.loops valid node origin x).mp
    ⟨values, found, member⟩ with old | ⟨turn, due, ⟨grown, moves, target, aims, rfl, _⟩, _⟩
  · exact traced.propagate_traced node origin x old
  · -- A loop jumps at one of its own nodes.
    have tracked := ((mem_due_iff s turn.1 turn.2).mp due).1
    obtain ⟨nodes, _, read⟩ := traced.loops turn.1 tracked
    refine Or.inl (traced.grown turn.1 tracked turn.2 grown moves _ ?_)
    rw [read] at aims ⊢
    exact Loop.mem_nodes_of_target? aims

/-- The starting value has been at the initial node from the start, so nothing can grow there unless
the counter moves. -/
theorem Traced.moves_of_edgeGrowth? (traced : s.Traced initial) {l : Loop} {growth : Growth}
    {direction : Direction}
    (found : l.edgeGrowth? s.snapshot s.next (initial, initial) = some growth)
    (along : growth.along direction = true) : s.automaton.Moves initial initial := by
  by_contra unmoved
  obtain ⟨v, new, stored, member⟩ := Loop.holds_of_edgeGrowth? found
  obtain ⟨old, seeded, held⟩ := traced.steady.snapshot ▸ traced.seeded
  have inhabited := Region.isEmpty_eq_false_of_mem held
  obtain rfl := traced.next_traced.eq_point traced.steady.next_valid.1 stored
    (Region.isEmpty_eq_false_of_mem member) unmoved
  obtain rfl := traced.snapshot_traced.eq_point traced.snapshot_valid seeded inhabited unmoved
  have same := Loop.along_of_same seeded stored inhabited found direction
  exact absurd (same.symm.trans along) Bool.false_ne_true

/-- The counter may have moved at all nodes of a loop that has grown. -/
theorem Traced.moves_of_growth (traced : s.Traced initial) {tracker : Tracker}
    (tracked : tracker ∈ s.trackers) {growth : Growth} {direction : Direction}
    (found : tracker.loop.growth? s.snapshot s.next = some growth)
    (along : growth.along direction = true) (moves : (tracker.loop.side direction).moves = true) :
    ∀ node ∈ tracker.loop.nodes, s.automaton.Moves initial node := by
  obtain ⟨nodes, distinct, read⟩ := traced.loops tracker tracked
  obtain ⟨held, grows⟩ := Loop.growth?_spec found
  have valid := traced.steady.next_valid.1
  rw [read] at held grows moves ⊢
  -- Values along all edges show that the loop can be followed from node to node.
  have spreads : ∀ pair ∈ Loop.successors nodes, s.automaton.Moves initial pair.1 →
      s.automaton.Moves initial pair.2 := by
    intro pair listed moved
    obtain ⟨_, values, stored, _⟩ := held pair listed
    obtain ⟨visible, edge | ⟨first, second⟩⟩ := valid.origin _ _ _ stored
    · obtain ⟨data, edge⟩ := Option.isSome_iff_exists.mp edge
      exact moved.step ⟨visible, valid.node_visible stored, data, edge, trivial⟩
    · have same : pair.1 = pair.2 := first.trans second.symm
      exact same ▸ moved
  obtain ⟨pair, listed, data, edge, follows⟩ := Loop.exists_of_moves moves
  have changes : data.delta ≠ 0 := by
    intro unchanged
    rw [unchanged] at follows
    cases direction <;> exact absurd follows (by decide)
  refine Loop.forall_of_successors spreads (Loop.mem_of_mem_successors listed) ?_
  obtain ⟨v, present⟩ := held pair listed
  rcases traced.next_traced _ _ v present with moved | ⟨_, _, turns | still⟩
  · exact moved
  · -- A loop that turns at one node has no other node, so it is there that it has grown.
    obtain rfl : pair = (initial, initial) := Prod.ext turns.1 turns.2
    obtain rfl := Loop.eq_singleton_of_mem_successors distinct listed
    obtain ⟨edge, onLoop, change, grew, goes⟩ := grows direction along
    obtain rfl := List.mem_singleton.mp onLoop
    exact traced.moves_of_edgeGrowth? grew goes
  · exact absurd (still data edge) changes

theorem Traced.round_traced (traced : s.Traced initial) : s.round.Traced initial := by
  have steady := round_steady traced.steady
  cases finished : s.finished with
  | true => exact (round_of_finished finished).symm ▸ traced
  | false =>
      have seeded := traced.steady.live_within_next.holds traced.seeded
      rcases round_cases finished with ⟨_, equal⟩ | ⟨_, equal⟩
      · rw [equal] at steady ⊢
        exact ⟨steady, seeded, traced.next_traced, traced.loops, traced.grown⟩
      · rw [equal] at steady ⊢
        refine ⟨steady, seeded, traced.next_traced, ?_, ?_⟩
        · intro tracker member
          obtain ⟨old, tracked, rfl⟩ := List.mem_map.mp member
          rw [loop_update]
          exact traced.loops old tracked
        · intro tracker member direction grown moves
          obtain ⟨old, tracked, rfl⟩ := List.mem_map.mp member
          rw [loop_update] at moves ⊢
          rcases Tracker.grown_update grown with before | ⟨growth, found, along⟩
          · exact traced.grown old tracked direction before moves
          · exact traced.moves_of_growth tracked found along moves

/-- A new analysis follows loops that do not come through a node twice, and none has grown yet. -/
theorem trackers_ofAutomaton {a : Automaton} (fresh : a.LoopsFresh)
    (resolved : a.initial? = some initial) {settings : Settings} {tracker : Tracker}
    (member : tracker ∈ (ofAutomaton (a.withLoops initial) initial settings).trackers) :
    (∃ nodes : List String, nodes.Nodup ∧
      tracker.loop = Loop.ofNodes (a.withLoops initial) nodes) ∧
    ∀ direction, (tracker.gauge direction).grown = false := by
  obtain ⟨loop, found, rfl⟩ := List.mem_map.mp member
  rw [fresh.loops resolved] at found
  obtain ⟨nodes, listed, rfl⟩ := List.mem_map.mp found
  refine ⟨⟨nodes, (Automaton.circuit_of_mem_cyclesFrom listed).distinct, rfl⟩, ?_⟩
  intro direction
  cases direction <;> rfl

theorem ofAutomaton_traced {a : Automaton} (fresh : a.LoopsFresh)
    (resolved : a.initial? = some initial) (free : a.Unrestricted) (visible : initial ∈ a.visible)
    (settings : Settings) :
    (ofAutomaton (a.withLoops initial) initial settings).Traced initial where
  steady := ofAutomaton_steady fresh.current resolved settings
  seeded := (Automaton.holds_firstArrivals_iff _ _ _ _ _).mpr
    ⟨rfl, rfl, visible, rfl, free.admits initial _⟩
  entries := Automaton.firstArrivals_traced _ initial
  loops := fun _ member => (trackers_ofAutomaton fresh resolved member).1
  grown := by
    intro tracker member direction grown
    simp [(trackers_ofAutomaton fresh resolved member).2 direction] at grown

theorem iterate_traced (traced : s.Traced initial) (n : Nat) : (round^[n] s).Traced initial :=
  Function.Iterate.rec (Traced initial) traced (fun _ => Traced.round_traced) n

/-! ### Where values get to -/

theorem exists_holds_of_isReachable {node : String} (reachable : s.isReachable node = true) :
    ∃ origin v, s.live.Holds node origin v := by
  rw [isReachable, Option.any_eq_true] at reachable
  obtain ⟨arrivals, present, reachable⟩ := reachable
  obtain ⟨values, listed, inhabited⟩ := List.any_eq_true.mp reachable
  obtain ⟨origin, stored⟩ := (Table.mem_values_iff arrivals values).mp listed
  obtain ⟨v, member⟩ := Region.exists_mem (Bool.not_eq_true' _ ▸ inhabited)
  exact ⟨origin, v, values, (Reach.values?_eq_some_iff _ _ _ _).mpr ⟨arrivals, present, stored⟩,
    member⟩

theorem Traced.waits_or_moves (traced : s.Traced initial) {node : String}
    (reachable : s.isReachable node = true) :
    s.automaton.Waits initial node ∨ s.automaton.Moves initial node := by
  obtain ⟨origin, v, held⟩ := exists_holds_of_isReachable reachable
  exact (traced.entries node origin v held).symm.imp_left And.left

section Finished

variable (traced : s.Traced initial) (finished : s.finished = true)
  (free : s.automaton.Unrestricted) {node : String}

include traced finished free

theorem holds_of_waits (waits : s.automaton.Waits initial node) :
    ∃ origin, s.live.Holds node origin (Bound.finite s.automaton.start).val := by
  induction waits with
  | refl => exact ⟨initial, traced.seeded⟩
  | @tail middle stop _ link ih =>
      obtain ⟨source, values, found, member⟩ := ih
      obtain ⟨_, visible, data, edge, unchanged⟩ := link
      have still : Edge.carry ⟨data, middle, stop⟩ values = values :=
        Edge.carry_of_unchanged unchanged
      exact ⟨middle, traced.steady.holds_of_brings finished edge visible
        ⟨source, values, found, Region.isEmpty_eq_false_of_mem member, still.symm ▸ member⟩
        (free.admits _ _)⟩

theorem holds_of_moves (moves : s.automaton.Moves initial node) :
    ∃ origin, ∃ x : ℚ, Count.Inside x ∧ s.live.Holds node origin x := by
  obtain ⟨last, first, waits, ⟨_, visible, data, edge, departs⟩, connects⟩ := moves
  induction connects with
  | refl =>
      obtain ⟨source, held⟩ := holds_of_waits traced finished free waits
      obtain ⟨t, adds, inside⟩ := departs.exists_adds_inside
      exact ⟨last, _, inside, traced.steady.holds_of_brings finished edge visible
        (Reach.brings_of_holds held adds inside) (free.admits _ _)⟩
  | @tail middle stop _ link ih =>
      obtain ⟨source, x, inside, held⟩ := ih
      obtain ⟨_, visible, data, edge, _⟩ := link
      obtain ⟨t, adds, stays⟩ : ∃ t, data.delta.Adds t ∧ Count.Inside (x + t) :=
        Count.exists_adds_inside inside.1.le inside.2.le (fun _ => inside.2) (fun _ => inside.1)
          fun _ => inside
      exact ⟨middle, x + t, stays, traced.steady.holds_of_brings finished edge visible
        (Reach.brings_of_holds held adds stays) (free.admits _ _)⟩

end Finished

theorem Traced.isReachable_iff (traced : s.Traced initial) (finished : s.finished = true)
    (free : s.automaton.Unrestricted) (node : String) :
    s.isReachable node = true ↔
      s.automaton.Waits initial node ∨ s.automaton.Moves initial node := by
  constructor
  · exact traced.waits_or_moves
  · rintro (waits | moves)
    · obtain ⟨origin, held⟩ := holds_of_waits traced finished free waits
      exact isReachable_of_holds held
    · obtain ⟨origin, x, _, held⟩ := holds_of_moves traced finished free moves
      exact isReachable_of_holds held

/-- Without guards and bounds, a finished analysis reports the nodes that are reached before the
counter changes or after it has left its starting value. The graph leads to all of these nodes, and
to no others, unless the counter starts at an end of its range. -/
theorem isReachable_iff_of_unrestricted {a : Automaton} {settings : Settings}
    (fresh : a.LoopsFresh) (free : a.Unrestricted) (resolved : a.initial? = some initial)
    (visible : initial ∈ a.visible) (started : start a settings = .ok s) (driven : s.Driven s')
    (finished : s'.finished = true) (node : String) :
    (s'.isReachable node = true ↔ a.Waits initial node ∨ a.Moves initial node) ∧
      (s'.isReachable node = true → a.Connects initial node) ∧
      (a.start ≠ .least → a.start ≠ .greatest →
        (s'.isReachable node = true ↔ a.Connects initial node)) := by
  obtain ⟨other, known, rfl⟩ := start_eq_ok started
  obtain rfl := Option.some.inj (known.symm.trans resolved)
  obtain ⟨n, rfl⟩ := driven.eq_iterate
  have traced := iterate_traced (ofAutomaton_traced fresh resolved free visible settings) n
  -- Looking for loops has changed neither the graph nor the start, so this is about `a` too.
  have same := (frame_iterate (ofAutomaton (a.withLoops other) other settings) n).1
  have reports : isReachable (round^[n] _) node = true ↔ a.Waits other node ∨ a.Moves other node :=
    same ▸ traced.isReachable_iff finished (same ▸ ⟨free.unguarded, free.lower, free.upper⟩) node
  have connects : a.Waits other node ∨ a.Moves other node → a.Connects other node := fun way =>
    way.elim Automaton.Waits.connects Automaton.Moves.connects
  refine ⟨reports, fun reachable => connects (reports.mp reachable), ?_⟩
  intro above below
  rw [reports]
  exact ⟨connects, Automaton.waits_or_moves_of_connects above below⟩

/-! ### A stride from the end of the range -/

theorem stride_unrestricted (start : Count) : (Automaton.stride start).Unrestricted :=
  ⟨Automaton.condition?_stride start, rfl, rfl⟩

theorem stride_connects (start : Count) : (Automaton.stride start).Connects "first" "second" := by
  have shown : "first" ∈ (Automaton.stride 0).visible ∧ "second" ∈ (Automaton.stride 0).visible := by
    decide +kernel
  have edge : (Automaton.stride 0).edgeData? "first" "second" =
      some ⟨none, some ⟨.add, .clamp 1⟩⟩ := by decide +kernel
  exact .single ⟨shown.1, shown.2, _, edge, trivial⟩

theorem stride_reachable :
    ∃ s s', start (.stride 0) ⟨none, none⟩ = .ok s ∧ s.run = .ok s' ∧ s'.finished = true ∧
      (s'.isReachable "second" = true ↔ (Automaton.stride 0).Connects "first" "second") := by
  have started := start_stride 0 ⟨none, none⟩
  have finished : (strideFinished 0).finished = true := by decide +kernel
  have reachable := isReachable_iff_of_unrestricted (Automaton.stride_loopsFresh 0)
    (stride_unrestricted 0) rfl (by decide +kernel) started (.ran .fresh run_stride) finished "second"
  exact ⟨_, _, started, run_stride, finished, reachable.2.2 (by decide) (by decide)⟩

/-- From the greatest value the stride leads nowhere, and the end of it is not reported although the
graph leads there. -/
theorem stride_greatest_unreachable :
    ∃ s s', start (.stride .greatest) ⟨none, none⟩ = .ok s ∧ s.run = .ok s' ∧
      s'.finished = true ∧ s'.isReachable "second" = false ∧
      (Automaton.stride .greatest).Connects "first" "second" := by
  have ran : run (ofAutomaton ((Automaton.stride .greatest).withLoops "first") "first"
      ⟨none, none⟩) = .ok (strideFinished .greatest) :=
    (if_neg (by decide +kernel)).trans (congrArg Except.ok (by decide +kernel))
  exact ⟨_, _, start_stride .greatest ⟨none, none⟩, ran, by decide +kernel, by decide +kernel,
    stride_connects .greatest⟩

end Solver

end OneCounter
