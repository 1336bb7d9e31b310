import OneCounter.Proofs.Soundness

/-!
Calls on an analysis: rounds, runs and values added by hand, in any order. Main statement: an entry
never holds a value outside the range of the counter, provided that the ends of the range are in
order. If they are crossed there is no such value, but one that was added by hand may be kept: all
that is certain of it is that it lies between the two ends.
-/

namespace OneCounter

/-! ### Crossed ends -/

/-- An interval that reaches over both of two crossed ends becomes all that lies between them. -/
theorem Interval.clamp_of_crossed {i : Interval} {lower upper : Bound} (crossed : upper < lower)
    (starts : ¬ upper < i.low) (stops : ¬ i.high < lower) :
    i.clamp lower upper = ⟨upper, true, lower, true⟩ := by
  have cut : upper < i.high := by
    rw [Bound.lt_iff_val] at *
    exact crossed.trans_le (not_lt.mp stops)
  have raised : i.low < lower := by
    rw [Bound.lt_iff_val] at *
    exact (not_lt.mp starts).trans_lt crossed
  simp [clamp, lowerHigh, raiseHigh, raiseLow, lowerLow, setHigh, setLow, cut, crossed, raised]

namespace Region

theorem between_of_mem_rescale {r : Region} {lower upper : Bound} (crossed : upper < lower)
    {v : ExtRat} (member : v ∈ r.rescale lower upper) : upper.val ≤ v ∧ v ≤ lower.val := by
  obtain ⟨piece, listed, inside⟩ := member
  obtain ⟨i, kept, rfl⟩ := List.mem_map.mp listed
  have meets := (List.mem_filter.mp kept).2
  simp only [Bool.not_eq_true', Bool.or_eq_false_iff, decide_eq_false_iff_not] at meets
  rw [Interval.clamp_of_crossed crossed meets.1 meets.2] at inside
  exact ⟨Interval.low_le_of_mem inside, Interval.le_high_of_mem inside⟩

theorem mem_rescale_of_mem_restrict {r : Region} {lower upper : Bound} {guard? : Option Instr}
    {v : ExtRat} (member : v ∈ r.restrict lower upper guard?) : v ∈ r.rescale lower upper := by
  cases guard? with
  | none => exact (mem_clean_iff _ v).mp member
  | some guard => exact ((mem_obey_iff _ guard v).mp ((mem_clean_iff _ v).mp member)).1

/-- New values joined with those that are known, if any are. -/
def joined (known? : Option Region) (values : Region) : Region :=
  match known? with
  | some known => known.union values
  | none => values

theorem mem_joined_of_mem {known? : Option Region} {values : Region} {v : ExtRat}
    (member : (∃ known, known? = some known ∧ v ∈ known) ∨ v ∈ values) :
    v ∈ joined known? values := by
  cases known? with
  | none =>
      rcases member with ⟨known, found, _⟩ | new
      · cases found
      · exact new
  | some known =>
      apply mem_union_of_mem
      rcases member with ⟨other, found, old⟩ | new
      · exact Or.inl (Option.some.inj found ▸ old)
      · exact Or.inr new

end Region

theorem Arrivals.get?_receive (arrivals : Arrivals) (origin : String) (values : Region)
    (other : String) :
    (arrivals.receive origin values).get? other =
      if other = origin then some (Region.joined (arrivals.get? origin) values)
      else arrivals.get? other := by
  unfold receive
  cases arrivals.get? origin <;> exact Table.get?_insert _ _ _ _

/-! ### Entries are cut to the range -/

/-- Every entry is what is left of some region in the range of the counter. -/
def Reach.Cut (a : Automaton) (reach : Reach) : Prop :=
  ∀ node origin values, reach.values? node origin = some values →
    ∃ whole guard?, values = Region.restrict a.lower a.upper guard? whole

theorem Automaton.firstArrivals_cut (a : Automaton) (initial : String) :
    (a.firstArrivals initial).Cut a := by
  intro node origin values found
  obtain ⟨_, _, _, rfl, _⟩ := (values?_firstArrivals a initial node origin values).mp found
  exact ⟨Region.point (.finite a.start), a.condition? initial, rfl⟩

namespace Solver

variable {s s' : Solver}

theorem pulled_cases (s : Solver) (edge : Edge) (known? : Option Region) :
    s.pulled edge known? = known? ∨ ∃ whole : Region, s.pulled edge known? =
      some (whole.restrict s.automaton.lower s.automaton.upper
        (s.automaton.condition? edge.stop)) := by
  unfold pulled
  split
  · exact Or.inl rfl
  · exact Or.inr ⟨_, rfl⟩

theorem propagate_cut (cut : s.live.Cut s.automaton) : s.propagate.Cut s.automaton := by
  intro node origin values found
  have present := keys_propagate s ▸ Reach.mem_keys_of_values? found
  rcases values?_propagate_cases present origin with ⟨edge, _, rfl, equal⟩ | ⟨_, equal⟩
  · rcases pulled_cases s edge (s.live.values? node edge.start) with same | ⟨whole, pulled⟩
    · exact cut node edge.start values ((equal.trans same).symm.trans found)
    · have stored := (equal.trans pulled).symm.trans found
      exact ⟨whole, s.automaton.condition? edge.stop, (Option.some.inj stored).symm⟩
  · exact cut node origin values (equal ▸ found)

theorem jumps_cut {reach : Reach} (cut : reach.Cut s.automaton)
    (turns : List (Tracker × Direction)) :
    ((s.jumps reach turns).foldl Jump.apply reach).Cut s.automaton := by
  induction turns generalizing reach with
  | nil => exact cut
  | cons turn rest ih =>
      obtain ⟨tracker, direction⟩ := turn
      simp only [jumps]
      split
      · exact ih cut
      · next jump found =>
          apply ih
          obtain ⟨target, known, _, present, _, _, _, rfl⟩ := jump?_eq_some found
          intro node origin values stored
          rw [Jump.values?_apply (Reach.mem_keys_of_values? present)] at stored
          split at stored
          · exact ⟨_, none, (Option.some.inj stored).symm⟩
          · exact cut node origin values stored

theorem round_cut (cut : s.live.Cut s.automaton) : s.round.live.Cut s.round.automaton := by
  cases finished : s.finished with
  | true => exact (round_of_finished finished).symm ▸ cut
  | false =>
      have next : s.next.Cut s.automaton := jumps_cut (propagate_cut cut) s.due
      rcases round_cases finished with ⟨_, equal⟩ | ⟨_, equal⟩
      · rw [equal]
        exact next
      · rw [equal]
        exact next

/-- Values added by hand are joined with those at their place and cut to the range. All other
entries stay as they are. -/
theorem values?_addValues (s : Solver) (node origin : String) (values : Region)
    (place source : String) :
    (s.addValues node origin values).live.values? place source =
      if place = node ∧ source = origin then
        (s.live.get? node).map fun arrivals =>
          (Region.joined (arrivals.get? origin) values).restrict s.automaton.lower
            s.automaton.upper none
      else s.live.values? place source := by
  rw [Reach.values?, addValues, Table.get?_modify, Reach.values?]
  by_cases here : place = node
  · subst here
    cases s.live.get? place with
    | none => simp
    | some arrivals =>
        by_cases same : source = origin
        · simp [Arrivals.restrict, Table.get?_modify, Arrivals.get?_receive, same]
        · simp [Arrivals.restrict, Table.get?_modify, Arrivals.get?_receive, same]
  · simp [here]

theorem addValues_cut (cut : s.live.Cut s.automaton) (node origin : String) (values : Region) :
    (s.addValues node origin values).live.Cut s.automaton := by
  intro place source stored found
  rw [values?_addValues] at found
  split at found
  · obtain ⟨arrivals, _, rfl⟩ := Option.map_eq_some_iff.mp found
    exact ⟨_, none, rfl⟩
  · exact cut place source stored found

end Solver

/-! ### Sequences of calls -/

/-- What can be asked of an analysis. -/
inductive Call where
  | advance
  | run
  | add (node origin : String) (values : Region)
deriving DecidableEq

namespace Call

def isAddition : Call → Bool
  | add _ _ _ => true
  | _ => false

def perform : Call → Solver → Except AutomatonError Solver
  | advance, s => s.advance
  | run, s => s.run
  | add node origin values, s => .ok (s.addValues node origin values)

end Call

namespace Solver

variable {s s' : Solver}

/-- One call after the other, up to the first that fails. -/
def performAll : List Call → Solver → Except AutomatonError Solver
  | [], s => .ok s
  | call :: rest, s => do
      let s ← call.perform s
      performAll rest s

theorem performAll_cons_of_ok {call : Call} {rest : List Call}
    (performed : call.perform s = .ok s') :
    s.performAll (call :: rest) = s'.performAll rest := by
  rw [performAll, performed]
  rfl

theorem performAll_cons_eq_ok {call : Call} {rest : List Call}
    (called : s.performAll (call :: rest) = .ok s') :
    ∃ between, call.perform s = .ok between ∧ between.performAll rest = .ok s' := by
  rw [performAll] at called
  cases performed : call.perform s with
  | error error =>
      rw [performed] at called
      cases called
  | ok between =>
      rw [performed] at called
      exact ⟨between, rfl, called⟩

/-- A call that adds nothing by hand is a number of rounds. -/
theorem perform_eq_iterate {call : Call} (rounds : call.isAddition = false)
    (performed : call.perform s = .ok s') : ∃ n, s' = round^[n] s := by
  cases call with
  | advance => exact ⟨1, advance_eq_ok performed⟩
  | run => exact run_eq_ok performed
  | add node origin values => cases rounds

/-- What single rounds and additions keep, every sequence of calls keeps. -/
theorem performAll_induction {motive : Solver → Prop}
    (round_keeps : ∀ s, motive s → motive s.round)
    (addition_keeps : ∀ s node origin values, motive s → motive (s.addValues node origin values))
    {calls : List Call} (called : s.performAll calls = .ok s') (first : motive s) : motive s' := by
  induction calls generalizing s with
  | nil => exact Except.ok.inj called ▸ first
  | cons call rest ih =>
      obtain ⟨between, performed, later⟩ := performAll_cons_eq_ok called
      refine ih later ?_
      cases adds : call.isAddition with
      | true =>
          cases call with
          | add node origin values => exact Except.ok.inj performed ▸ addition_keeps s _ _ _ first
          | advance => cases adds
          | run => cases adds
      | false =>
          obtain ⟨n, rfl⟩ := perform_eq_iterate adds performed
          exact Function.Iterate.rec motive first round_keeps n

theorem performAll_eq_iterate {calls : List Call}
    (rounds : ∀ call ∈ calls, call.isAddition = false) (called : s.performAll calls = .ok s') :
    ∃ n, s' = round^[n] s := by
  induction calls generalizing s with
  | nil => exact ⟨0, (Except.ok.inj called).symm⟩
  | cons call rest ih =>
      obtain ⟨between, performed, later⟩ := performAll_cons_eq_ok called
      obtain ⟨n, rfl⟩ := perform_eq_iterate (rounds call List.mem_cons_self) performed
      obtain ⟨more, equal⟩ := ih (fun other member => rounds other (List.mem_cons_of_mem _ member))
        later
      exact ⟨more + n, equal.trans (Function.iterate_add_apply round more n s).symm⟩

theorem automaton_performAll {calls : List Call} (called : s.performAll calls = .ok s') :
    s'.automaton = s.automaton :=
  performAll_induction (motive := fun t => t.automaton = s.automaton)
    (fun t same => (frame_round t).1.trans same) (fun _ _ _ _ same => same) called rfl

theorem performAll_cut {calls : List Call} (called : s.performAll calls = .ok s')
    (cut : s.live.Cut s.automaton) : s'.live.Cut s'.automaton :=
  performAll_induction (motive := fun t => t.live.Cut t.automaton) (fun _ => round_cut)
    (fun _ node origin values cut => addValues_cut cut node origin values) called cut

/-- However an analysis is called, its entries hold only values of the range of the counter. The
exception is a range with crossed ends, which has none: there the values lie between the two ends,
and some of them have been added by hand. -/
theorem performAll_in_range {a : Automaton} {settings : Settings} {calls : List Call}
    (current : a.LoopsCurrent) (started : start a settings = .ok s)
    (called : s.performAll calls = .ok s') {node origin : String} {values : Region}
    (found : s'.live.values? node origin = some values) :
    (a.lower ≤ a.upper → ∀ v ∈ values, a.lower.val ≤ v ∧ v ≤ a.upper.val) ∧
      (a.upper < a.lower → ∀ v ∈ values, (a.upper.val ≤ v ∧ v ≤ a.lower.val) ∧
        ∃ call ∈ calls, call.isAddition = true) := by
  obtain ⟨initial, resolved, rfl⟩ := start_eq_ok started
  have same := automaton_performAll called
  obtain ⟨whole, guard?, rfl⟩ := performAll_cut called (Automaton.firstArrivals_cut _ initial)
    node origin values found
  rw [same] at found ⊢
  constructor
  · intro ordered v member
    have admitted := ((Region.mem_restrict_iff whole ordered guard? v).mp member).2
    exact ⟨admitted.lower_le, admitted.le_upper⟩
  · intro crossed v member
    refine ⟨Region.between_of_mem_rescale crossed (Region.mem_rescale_of_mem_restrict member), ?_⟩
    -- Rounds alone would have left valid entries, and a value in one shows that the ends are in order.
    by_contra none
    have rounds : ∀ call ∈ calls, call.isAddition = false := by
      intro call listed
      by_contra adds
      exact none ⟨call, listed, Bool.not_eq_false _ ▸ adds⟩
    obtain ⟨n, rfl⟩ := performAll_eq_iterate rounds called
    have valid := (iterate_steady (ofAutomaton_steady current resolved settings) n).valid
    have ordered := valid.ordered found (Region.isEmpty_eq_false_of_mem member)
    rw [same] at ordered
    exact ordered crossed

end Solver

/-! ### A range around the climb -/

/-- The climb with a range for its counter. -/
def Automaton.climbWithin (lower upper : Int) : Automaton :=
  { climb with lower := .finite (.clamp lower), upper := .finite (.clamp upper) }

namespace Solver

theorem climbWithin_loopsCurrent (lower upper : Int) :
    (Automaton.climbWithin lower upper).LoopsCurrent := by
  intro initial loops _ known
  cases known

theorem start_climbWithin (lower upper : Int) (settings : Settings) :
    start (.climbWithin lower upper) settings =
      .ok (ofAutomaton ((Automaton.climbWithin lower upper).withLoops "loop") "loop" settings) :=
  start_of_fits (a := .climbWithin lower upper) rfl Automaton.climb_fits settings

theorem climbWithin_in_range :
    ∃ s s' values, start (.climbWithin 0 8) ⟨some 1, none⟩ = .ok s ∧
      s.performAll [.add "loop" "exit" (.ofInterval ⟨.finite (.clamp 5), true, .posInf, false⟩),
        .advance] = .ok s' ∧
      s'.live.values? "loop" "loop" = some values ∧
      ∀ v ∈ values, (Bound.finite (.clamp 0)).val ≤ v ∧ v ≤ (Bound.finite (.clamp 8)).val := by
  have started := start_climbWithin 0 8 ⟨some 1, none⟩
  let added := addValues (ofAutomaton ((Automaton.climbWithin 0 8).withLoops "loop") "loop"
    ⟨some 1, none⟩) "loop" "exit" (.ofInterval ⟨.finite (.clamp 5), true, .posInf, false⟩)
  have advanced : added.advance = .ok added.round := if_neg (by decide +kernel)
  obtain ⟨values, found⟩ : ∃ values, added.round.live.values? "loop" "loop" = some values :=
    Option.isSome_iff_exists.mp (by decide +kernel)
  have called : performAll [.add "loop" "exit"
      (.ofInterval ⟨.finite (.clamp 5), true, .posInf, false⟩), .advance] _ = .ok _ :=
    (performAll_cons_of_ok rfl).trans (performAll_cons_of_ok advanced)
  have inRange := performAll_in_range (climbWithin_loopsCurrent 0 8) started called found
  exact ⟨_, _, values, started, called, found, inRange.1 (by decide)⟩

/-- The ends ten and five are crossed, and still seven is held once a set that reaches over both has
been added. -/
theorem climbWithin_crossed_breached :
    ∃ s s' values, start (.climbWithin 10 5) ⟨none, none⟩ = .ok s ∧
      s.performAll [.add "loop" "loop" (.ofInterval ⟨0, true, .finite (.clamp 20), true⟩)] =
        .ok s' ∧
      s'.live.values? "loop" "loop" = some values ∧
      values.contains (.finite (.clamp 7)) = true ∧
      ¬ ((Automaton.climbWithin 10 5).lower ≤ .finite (.clamp 7) ∧
        Bound.finite (.clamp 7) ≤ (Automaton.climbWithin 10 5).upper) :=
  ⟨_, _, .ofInterval ⟨.finite (.clamp 5), true, .finite (.clamp 10), true⟩,
    start_climbWithin 10 5 ⟨none, none⟩, rfl, by decide +kernel, by decide, by decide⟩

end Solver

end OneCounter
