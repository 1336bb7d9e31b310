import OneCounter.Proofs.Rounds

/-!
Termination of the analysis. The ends of intervals are counter values, so a region cannot tell
apart two numbers between the same neighbours: it is known by which of finitely many cells it
holds. Every round that does not finish the analysis adds an entry or a cell to the state, and
there are fewer of them than the rounds that a run may take.
-/

namespace OneCounter

namespace Cell

/-- The cell of a number, an even integer for twice a counter value and an odd one for the gap
between two of them; past the range there is one cell on each side. -/
noncomputable def ofRat (x : ℚ) : Int :=
  max (2 * Count.least.toInt - 1) (min (⌊x⌋ + ⌈x⌉) (2 * Count.greatest.toInt + 1))

noncomputable def all : Finset Int := Finset.Icc (2 * Count.least.toInt - 1) (2 * Count.greatest.toInt + 1)

/-- A number of the cell. -/
def point (cell : Int) : ℚ := cell / 2

theorem ofRat_mem_all (x : ℚ) : ofRat x ∈ all := by
  rw [all, Finset.mem_Icc]
  exact ⟨le_max_left _ _, max_le (by decide) (min_le_right _ _)⟩

theorem card_all : all.card = 2 ^ 65 + 1 := by
  rw [all, Int.card_Icc]
  decide

theorem lt_point_iff (c : Count) (x : ℚ) :
    (c.toInt : ℚ) < point (ofRat x) ↔ (c.toInt : ℚ) < x := by
  have doubled : (c.toInt : ℚ) < point (ofRat x) ↔ c.toInt * 2 < ofRat x := by
    rw [point, lt_div_iff₀ two_pos]
    norm_cast
  have least : Count.least.toInt ≤ c.toInt := c.least_le
  have greatest : c.toInt ≤ Count.greatest.toInt := c.le_greatest
  -- The sum of floor and ceiling exceeds twice an integer just if the ceiling exceeds it.
  have narrow := Int.ceil_le_floor_add_one x
  have ordered := Int.floor_le_ceil x
  rw [doubled, ← Int.lt_ceil, ofRat]
  omega

theorem point_lt_iff (c : Count) (x : ℚ) :
    point (ofRat x) < (c.toInt : ℚ) ↔ x < (c.toInt : ℚ) := by
  have doubled : point (ofRat x) < (c.toInt : ℚ) ↔ ofRat x < c.toInt * 2 := by
    rw [point, div_lt_iff₀ two_pos]
    norm_cast
  have least : Count.least.toInt ≤ c.toInt := c.least_le
  have greatest : c.toInt ≤ Count.greatest.toInt := c.le_greatest
  have narrow := Int.ceil_le_floor_add_one x
  have ordered := Int.floor_le_ceil x
  rw [doubled, ← Int.floor_lt, ofRat]
  omega

end Cell

theorem Bound.lt_point_iff (b : Bound) (x : ℚ) :
    b.val < (Cell.point (Cell.ofRat x) : ExtRat) ↔ b.val < (x : ExtRat) := by
  cases b with
  | negInf => exact iff_of_true (ExtRat.bot_lt_coe _) (ExtRat.bot_lt_coe _)
  | finite c => simpa using Cell.lt_point_iff c x
  | posInf => exact iff_of_false not_top_lt not_top_lt

theorem Bound.point_lt_iff (b : Bound) (x : ℚ) :
    (Cell.point (Cell.ofRat x) : ExtRat) < b.val ↔ (x : ExtRat) < b.val := by
  cases b with
  | negInf => exact iff_of_false not_lt_bot not_lt_bot
  | finite c => simpa using Cell.point_lt_iff c x
  | posInf => exact iff_of_true (ExtRat.coe_lt_top _) (ExtRat.coe_lt_top _)

theorem Bound.eq_point_iff (b : Bound) (x : ℚ) :
    b.val = (Cell.point (Cell.ofRat x) : ExtRat) ↔ b.val = (x : ExtRat) := by
  rw [le_antisymm_iff, le_antisymm_iff, ← not_lt, ← not_lt, ← not_lt, ← not_lt,
    Bound.lt_point_iff, Bound.point_lt_iff]

/-- An interval holds all of a cell or nothing of it. -/
theorem Interval.point_mem_iff (i : Interval) (x : ℚ) :
    (Cell.point (Cell.ofRat x) : ExtRat) ∈ i ↔ (x : ExtRat) ∈ i := by
  have low : i.AboveLow (Cell.point (Cell.ofRat x)) ↔ i.AboveLow x := by
    rw [AboveLow, AboveLow, Bound.lt_point_iff, Bound.eq_point_iff]
  have high : i.BelowHigh (Cell.point (Cell.ofRat x)) ↔ i.BelowHigh x := by
    rw [BelowHigh, BelowHigh, Bound.point_lt_iff, eq_comm, Bound.eq_point_iff, eq_comm]
  rw [mem_iff, mem_iff, low, high]

namespace Region

theorem point_mem_iff (r : Region) (x : ℚ) :
    (Cell.point (Cell.ofRat x) : ExtRat) ∈ r ↔ (x : ExtRat) ∈ r := by
  simp only [mem_iff, Interval.point_mem_iff]

/-- Regions of finite values in normal form are determined by their rational values. -/
theorem Normal.eq_of_coe_mem_iff {r s : Region} (left : r.Normal) (right : s.Normal)
    (leftFinite : r.Finite) (rightFinite : s.Finite)
    (same : ∀ x : ℚ, (x : ExtRat) ∈ r ↔ (x : ExtRat) ∈ s) : r = s := by
  apply left.eq_of_mem_iff right
  intro v
  constructor
  · intro member
    obtain ⟨x, rfl⟩ := leftFinite v member
    exact (same x).mp member
  · intro member
    obtain ⟨x, rfl⟩ := rightFinite v member
    exact (same x).mpr member

/-- Regions of finite values in normal form that hold the same cells are equal. -/
theorem Normal.eq_of_cells {r s : Region} (left : r.Normal) (right : s.Normal)
    (leftFinite : r.Finite) (rightFinite : s.Finite)
    (same : ∀ cell ∈ Cell.all, (Cell.point cell : ExtRat) ∈ r ↔ (Cell.point cell : ExtRat) ∈ s) :
    r = s := by
  apply left.eq_of_coe_mem_iff right leftFinite rightFinite
  intro x
  rw [← point_mem_iff r, ← point_mem_iff s]
  exact same _ (Cell.ofRat_mem_all x)

end Region

/-! ### What a state shows -/

namespace Reach

variable {before after : Reach} {a : Automaton} {initial : String}

/-- An entry shows that it is there, and each cell that it holds. -/
def Shows (reach : Reach) (node origin : String) : Option Int → Prop
  | none => (reach.values? node origin).isSome = true
  | some cell => reach.Holds node origin (Cell.point cell)

theorem Within.shows (grows : before.Within after) {node origin : String} {mark : Option Int}
    (shows : before.Shows node origin mark) : after.Shows node origin mark := by
  cases mark with
  | none =>
      obtain ⟨values, found⟩ := Option.isSome_iff_exists.mp shows
      obtain ⟨grown, present, _⟩ := grows node origin values found
      exact Option.isSome_iff_exists.mpr ⟨grown, present⟩
  | some cell => exact grows.holds shows

theorem eq_of_values? (keys : before.keys = after.keys)
    (same : ∀ node origin, before.values? node origin = after.values? node origin) :
    before = after := by
  apply Table.eq_of_get?_eq
  intro node
  have both : (before.get? node).isSome = true ↔ (after.get? node).isSome = true := by
    rw [← Table.mem_keys_iff, ← Table.mem_keys_iff, keys]
  cases old : before.get? node with
  | none =>
      cases new : after.get? node with
      | none => rfl
      | some arrivals => simp [old, new] at both
  | some left =>
      cases new : after.get? node with
      | none => simp [old, new] at both
      | some right =>
          congr 1
          apply Table.eq_of_get?_eq
          intro origin
          simpa [values?, old, new] using same node origin

/-- A state is known by what it shows. -/
theorem Valid.eq_of_shows (left : before.Valid a initial) (right : after.Valid a initial)
    (same : ∀ node ∈ a.visible, ∀ origin ∈ a.visible, ∀ mark ∈ Cell.all.insertNone,
      before.Shows node origin mark ↔ after.Shows node origin mark) : before = after := by
  apply eq_of_values? (left.keys.trans right.keys.symm)
  intro node origin
  by_cases shown : node ∈ a.visible ∧ origin ∈ a.visible
  · have marks := same node shown.1 origin shown.2
    have both := marks none Finset.none_mem_insertNone
    cases old : before.values? node origin with
    | none =>
        cases new : after.values? node origin with
        | none => rfl
        | some values => simp [Shows, old, new] at both
    | some values =>
        cases new : after.values? node origin with
        | none => simp [Shows, old, new] at both
        | some grown =>
            congr 1
            refine (left.normal _ _ _ old).eq_of_cells (right.normal _ _ _ new) (left.finite old)
              (right.finite new) ?_
            intro cell member
            simpa [Shows, Holds, old, new] using marks (some cell) (Finset.some_mem_insertNone.mpr member)
  · -- Entries elsewhere are in neither state.
    have absent : ∀ {reach : Reach}, reach.Valid a initial → reach.values? node origin = none := by
      intro reach valid
      by_contra found
      obtain ⟨values, found⟩ := Option.ne_none_iff_exists'.mp found
      exact shown ⟨valid.node_visible found, (valid.origin _ _ _ found).1⟩
    rw [absent left, absent right]

open Classical in
/-- All that a state shows of the visible nodes. -/
noncomputable def marks (a : Automaton) (reach : Reach) :
    Finset ((String × String) × Option Int) :=
  ((a.visible.toFinset ×ˢ a.visible.toFinset) ×ˢ Cell.all.insertNone).filter
    fun mark => reach.Shows mark.1.1 mark.1.2 mark.2

theorem mem_marks_iff (a : Automaton) (reach : Reach) (node origin : String)
    (mark : Option Int) :
    ((node, origin), mark) ∈ reach.marks a ↔ ((node ∈ a.visible ∧ origin ∈ a.visible) ∧
      mark ∈ Cell.all.insertNone) ∧ reach.Shows node origin mark := by
  simp only [marks, Finset.mem_filter, Finset.mem_product, List.mem_toFinset]

theorem card_marks_le (a : Automaton) (reach : Reach) :
    (reach.marks a).card ≤ a.visible.length * a.visible.length * (2 ^ 65 + 2) := by
  classical
  have nodes := List.toFinset_card_le a.visible
  calc (reach.marks a).card
      ≤ ((a.visible.toFinset ×ˢ a.visible.toFinset) ×ˢ Cell.all.insertNone).card :=
        Finset.card_le_card (Finset.filter_subset _ _)
    _ = a.visible.toFinset.card * a.visible.toFinset.card * (2 ^ 65 + 2) := by
        rw [Finset.card_product, Finset.card_product, Finset.card_insertNone, Cell.card_all]
    _ ≤ a.visible.length * a.visible.length * (2 ^ 65 + 2) := by gcongr

theorem card_marks_lt (left : before.Valid a initial) (right : after.Valid a initial)
    (grows : before.Within after) (different : before ≠ after) :
    (before.marks a).card < (after.marks a).card := by
  apply Finset.card_lt_card
  have included : before.marks a ⊆ after.marks a := by
    rintro ⟨⟨node, origin⟩, mark⟩ member
    rw [mem_marks_iff] at member ⊢
    exact ⟨member.1, grows.shows member.2⟩
  -- States that show the same marks are equal, so a new state shows a new one.
  refine Finset.ssubset_iff_subset_ne.mpr ⟨included, ?_⟩
  intro equal
  apply different
  apply left.eq_of_shows right
  intro node nodeVisible origin originVisible mark present
  have listed := Finset.ext_iff.mp equal ((node, origin), mark)
  rw [mem_marks_iff, mem_marks_iff] at listed
  exact (and_congr_right_iff.mp listed) ⟨⟨nodeVisible, originVisible⟩, present⟩

end Reach

namespace Solver

variable {s : Solver} {initial : String}

/-- A round finishes the analysis or adds to what it shows. -/
theorem round_finished_or_grows (steady : s.Steady initial) :
    s.round.finished = true ∨
      (s.live.marks s.automaton).card < (s.round.live.marks s.automaton).card := by
  cases finished : s.finished with
  | true => exact Or.inl ((round_of_finished finished).symm ▸ finished)
  | false =>
      rcases round_cases finished with ⟨_, equal⟩ | ⟨different, equal⟩
      · exact Or.inl (by rw [equal])
      · rw [live_round steady]
        rw [steady.snapshot] at different
        exact Or.inr (Reach.card_marks_lt steady.valid steady.next_valid.1
          steady.live_within_next different.symm)

theorem iterate_finished_or_le (steady : s.Steady initial) (n : Nat) :
    (round^[n] s).finished = true ∨
      n ≤ ((round^[n] s).live.marks s.automaton).card := by
  induction n with
  | zero => exact Or.inr (Nat.zero_le _)
  | succ n ih =>
      rw [Function.iterate_succ_apply']
      rcases ih with finished | grown
      · exact Or.inl ((round_of_finished finished).symm ▸ finished)
      · have step := round_finished_or_grows (iterate_steady steady n)
        rw [(frame_iterate s n).1] at step
        rcases step with finished | more
        · exact Or.inl finished
        · exact Or.inr (Nat.succ_le_of_lt (grown.trans_lt more))

theorem iterate_finished (steady : s.Steady initial) :
    (round^[s.horizon] s).finished = true := by
  rcases iterate_finished_or_le steady s.horizon with finished | grown
  · exact finished
  · -- As many rounds as the horizon would have left more marks than there are.
    have size : s.live.size = s.automaton.visible.length := by
      rw [← steady.valid.keys, Table.keys, List.length_map, Table.size]
    have few := grown.trans (Reach.card_marks_le _ _)
    rw [horizon, size] at few
    norm_num at few
    omega

theorem runFor_of_unlimited (unlimited : s.settings.maxRounds? = none) (fuel : Nat) :
    runFor fuel s = round^[fuel] s := by
  induction fuel generalizing s with
  | zero => rfl
  | succ fuel ih =>
      have stops : s.stopped = s.finished := by simp [stopped, exhausted, unlimited]
      rw [runFor, stops]
      cases finished : s.finished with
      | true =>
          rw [if_pos rfl, Function.iterate_fixed (round_of_finished finished)]
      | false =>
          rw [if_neg Bool.false_ne_true, Function.iterate_succ_apply]
          exact ih ((frame_round s).2.1 ▸ unlimited)

theorem not_overflows_of_fits (fits : s.automaton.Fits) : s.overflows = false := by
  rw [overflows, List.any_eq_false]
  intro edge member
  simp [fits edge member]

/-- Every analysis of an automaton whose edges are in range can be started, is finished after
finitely many rounds, and a run that is not told to give up returns what they lead to. -/
theorem exists_advanceBy_finished {a : Automaton} {initial : String}
    (resolved : a.initial? = some initial) (current : a.LoopsCurrent) (fits : a.Fits)
    (settings : Settings) :
    ∃ s k s', start a settings = .ok s ∧ s.advanceBy k = .ok s' ∧ s'.finished = true ∧
      (settings.maxRounds? = none → s.run = .ok s') := by
  have started := start_of_fits resolved fits settings
  have steady := ofAutomaton_steady current resolved settings
  have inRange := not_overflows_of_fits (s := ofAutomaton (a.withLoops initial) initial settings) fits
  refine ⟨_, _, _, started, advanceBy_of_not_overflows inRange _, iterate_finished steady, ?_⟩
  intro unlimited
  rw [run, inRange, Bool.and_false, if_neg Bool.false_ne_true, runFor_of_unlimited unlimited]

theorem climb_finished :
    ∃ s k s', start .climb ⟨some 0, none⟩ = .ok s ∧ s.advanceBy k = .ok s' ∧
      s'.finished = true ∧ s.run = .ok s' := by
  obtain ⟨s, k, s', started, advanced, finished, ran⟩ :=
    exists_advanceBy_finished rfl Automaton.climb_loopsCurrent Automaton.climb_fits ⟨some 0, none⟩
  exact ⟨s, k, s', started, advanced, finished, ran rfl⟩

end Solver

end OneCounter
