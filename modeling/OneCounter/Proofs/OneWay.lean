import OneCounter.Proofs.Growth
import OneCounter.Proofs.Jumps

/-!
Counters that move one way. Where no edge moves the counter in some direction, neither passing along
edges nor a jump takes it there. Main statement: without increases no value is above the starting
one, and without decreases none is below, after any number of rounds.
-/

namespace OneCounter

theorem Bound.add_zero (b : Bound) : b + 0 = b := by
  cases b with
  | negInf => rfl
  | posInf => rfl
  | finite c =>
      have same : Count.clamp (c.toInt + 0) = c := by rw [Int.add_zero, Count.clamp_toInt]
      exact congrArg Bound.finite same

/-- A passage along an edge that does not move the counter in a direction gets no further there. -/
theorem Edge.before_of_mem_carry {edge : Edge} {values : Region} {direction : Direction}
    {limit v : ExtRat} (calm : direction.follows edge.delta = false) (normal : values.Normal)
    (bounded : ∀ u ∈ values, direction.Before u limit) (member : v ∈ edge.carry values) :
    direction.Before v limit := by
  by_cases unchanged : edge.delta = 0
  · rw [carry_of_unchanged unchanged] at member
    exact bounded v member
  · -- One end of the change is zero, so this end of the values stays where it is.
    cases direction with
    | up =>
        have notUp : ¬ 0 < edge.delta := of_decide_eq_false calm
        have down : edge.delta < 0 :=
          lt_of_le_of_ne (not_lt.mp notUp) fun same => unchanged (Count.ext same)
        rw [carry_of_neg down] at member
        obtain ⟨_, i, piece, below⟩ := Region.exists_ends_of_mem_add member
        have within := Interval.high_le_of_forall_le (normal.inhabited i piece)
          fun u inside => bounded u ⟨i, piece, inside⟩
        have high : v ≤ (i.high + 0).val := below.elim le_of_lt fun same => same.1.le
        exact (Bound.add_zero i.high ▸ high).trans within
    | down =>
        have notDown : ¬ edge.delta < 0 := of_decide_eq_false calm
        have up : 0 < edge.delta :=
          lt_of_le_of_ne (not_lt.mp notDown) fun same => unchanged (Count.ext same.symm)
        rw [carry_of_pos up] at member
        obtain ⟨⟨i, piece, above⟩, _⟩ := Region.exists_ends_of_mem_add member
        have within := Interval.le_low_of_forall_le (normal.inhabited i piece)
          fun u inside => bounded u ⟨i, piece, inside⟩
        have low : (i.low + 0).val ≤ v := above.elim le_of_lt fun same => same.1.le
        exact within.trans (Bound.add_zero i.low ▸ low)

/-- All values lie before the limit in the direction. -/
def Reach.Behind (reach : Reach) (direction : Direction) (limit : ExtRat) : Prop :=
  ∀ node origin v, reach.Holds node origin v → direction.Before v limit

/-- No edge moves the counter in the direction. -/
def Automaton.Calm (a : Automaton) (direction : Direction) : Prop :=
  ∀ start stop data, a.edgeData? start stop = some data → direction.follows data.delta = false

namespace Solver

variable {s : Solver} {initial : String} {direction : Direction} {limit : ExtRat}

theorem propagate_behind (steady : s.Steady initial) (calm : s.automaton.Calm direction)
    (behind : s.live.Behind direction limit) : s.propagate.Behind direction limit := by
  intro node origin v held
  rw [holds_propagate_iff steady.valid (steady.snapshot ▸ steady.valid)] at held
  rcases held with old | ⟨_, data, edge, ⟨before, values, found, _, carried⟩, _⟩
  · exact behind node origin v old
  · rw [steady.snapshot] at found
    exact Edge.before_of_mem_carry (calm origin node data edge)
      (steady.valid.normal _ _ _ found)
      (fun u member => behind _ _ u ⟨values, found, member⟩) carried

/-- A loop jumps only where one of its edges leads, which is away from the limit. -/
theorem accelerate_behind {reach : Reach} (loops : s.LoopsRead)
    (valid : reach.Valid s.automaton initial) (calm : s.automaton.Calm direction)
    (behind : reach.Behind direction limit) (node origin : String) (x : ℚ)
    (held : (s.accelerate reach).Holds node origin x) : direction.Before x limit := by
  rcases (holds_accelerate_iff loops valid node origin x).mp held with
    old | ⟨⟨tracker, other⟩, due, ⟨_, moves, _⟩, _, ⟨u, there⟩, beyond⟩
  · exact behind node origin x old
  · obtain ⟨nodes, read⟩ := loops tracker ((mem_due_iff s tracker other).mp due).1
    rw [read] at moves
    obtain ⟨pair, _, data, edge, follows⟩ := Loop.exists_of_moves moves
    have different : other ≠ direction := by
      rintro rfl
      simp [calm _ _ data edge] at follows
    exact Direction.before_trans (Direction.before_of_ne different (beyond u there))
      (behind node origin u there)

theorem round_behind (steady : s.Steady initial) (calm : s.automaton.Calm direction)
    (behind : s.live.Behind direction limit) : s.round.live.Behind direction limit := by
  intro node origin v held
  rw [live_round steady] at held
  obtain ⟨values, found, member⟩ := held
  obtain ⟨x, rfl⟩ := steady.next_valid.1.finite found v member
  exact accelerate_behind steady.loops
    (propagate_valid steady.valid (steady.snapshot ▸ steady.valid)) calm
    (propagate_behind steady calm behind) node origin x ⟨values, found, member⟩

theorem iterate_behind (steady : s.Steady initial) (calm : s.automaton.Calm direction)
    (behind : s.live.Behind direction limit) (n : Nat) :
    (round^[n] s).live.Behind direction limit := by
  induction n with
  | zero => exact behind
  | succ n ih =>
      rw [Function.iterate_succ_apply']
      exact round_behind (iterate_steady steady n) ((frame_iterate s n).1 ▸ calm) ih

/-- The counter never gets past its starting value in a direction in which no edge moves it. -/
theorem iterate_before_start {a : Automaton} {settings : Settings} (current : a.LoopsCurrent)
    (resolved : a.initial? = some initial) (calm : a.Calm direction) (n : Nat)
    {node origin : String} {v : ExtRat}
    (held : (round^[n] (ofAutomaton (a.withLoops initial) initial settings)).live.Holds
      node origin v) : direction.Before v (Bound.finite a.start).val := by
  refine iterate_behind (ofAutomaton_steady current resolved settings) calm ?_ n node origin v held
  intro node origin v seeded
  obtain ⟨_, _, _, rfl, _⟩ := (a.holds_firstArrivals_iff initial node origin v).mp seeded
  exact direction.before_refl _

/-- Without increases every value is at most the starting one, and without decreases at least,
however many rounds are made and whatever is accelerated in them. -/
theorem advanceBy_one_way {a : Automaton} {settings : Settings} (current : a.LoopsCurrent)
    (started : start a settings = .ok s) (n : Nat) :
    (0 < n ∧ s.overflows = true ∧ s.advanceBy n = .error .deltaOverflow) ∨
      ∃ s', s.advanceBy n = .ok s' ∧
        ((∀ edge ∈ a.edges, edge.delta ≤ 0) → ∀ node origin v, s'.live.Holds node origin v →
          v ≤ (Bound.finite a.start).val) ∧
        ((∀ edge ∈ a.edges, 0 ≤ edge.delta) → ∀ node origin v, s'.live.Holds node origin v →
          (Bound.finite a.start).val ≤ v) := by
  obtain ⟨initial, resolved, rfl⟩ := start_eq_ok started
  rcases advanceBy_cases (s := ofAutomaton (a.withLoops initial) initial settings) rfl n with
    overflow | ok
  · exact Or.inl overflow
  · refine Or.inr ⟨_, ok, ?_, ?_⟩
    · intro falling node origin v held
      have calm : a.Calm .up := fun start stop data edge =>
        decide_eq_false (Int.not_lt.mpr (falling ⟨data, start, stop⟩
          ((a.mem_edges_iff _).mpr edge)))
      exact iterate_before_start current resolved calm n held
    · intro rising node origin v held
      have calm : a.Calm .down := fun start stop data edge =>
        decide_eq_false (Int.not_lt.mpr (rising ⟨data, start, stop⟩
          ((a.mem_edges_iff _).mpr edge)))
      exact iterate_before_start current resolved calm n held

theorem climb_one_way : ∃ s s', start .climb ⟨some 0, none⟩ = .ok s ∧ s.advanceBy 20 = .ok s' ∧
    ∀ node origin v, s'.live.Holds node origin v → 0 ≤ v := by
  have started := start_climb ⟨some 0, none⟩
  rcases advanceBy_one_way Automaton.climb_loopsCurrent started 20 with
    ⟨_, overflow, _⟩ | ⟨s', ok, _, rising⟩
  · exact absurd overflow (by decide +kernel)
  · exact ⟨_, s', started, ok, rising (by decide +kernel)⟩

end Solver

end OneCounter
