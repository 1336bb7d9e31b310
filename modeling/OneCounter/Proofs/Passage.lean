import OneCounter.Proofs.Sum
import OneCounter.Solver.Round

/-!
Passage along an edge. The counter is continuous: an edge with a change adds any part of it, but
not nothing. Main statements: carrying a region along an edge misses no value strictly within the
counter range, is exact if no end saturates, and what arrives at the end of an edge is what its
start holds from any origin, carried along.
-/

namespace OneCounter

/-- What one passage along an edge with the given change can add to the counter: a positive part
of an increase, a negative part of a decrease, and nothing if there is no change. -/
def Count.Adds (delta : Count) (t : ℚ) : Prop :=
  (0 < delta ∧ 0 < t ∧ t ≤ delta.toInt) ∨ (delta < 0 ∧ (delta.toInt : ℚ) ≤ t ∧ t < 0) ∨
    (delta = 0 ∧ t = 0)

namespace Count

theorem adds_iff_of_pos {delta : Count} (up : 0 < delta.toInt) (t : ℚ) :
    delta.Adds t ↔ 0 < t ∧ t ≤ delta.toInt := by
  constructor
  · rintro (⟨_, above, below⟩ | ⟨down, _⟩ | ⟨none, _⟩)
    · exact ⟨above, below⟩
    · exact absurd up (not_lt.mpr (le_of_lt down))
    · exact absurd (none ▸ up) (lt_irrefl _)
  · rintro ⟨above, below⟩
    exact Or.inl ⟨up, above, below⟩

theorem adds_iff_of_neg {delta : Count} (down : delta.toInt < 0) (t : ℚ) :
    delta.Adds t ↔ (delta.toInt : ℚ) ≤ t ∧ t < 0 := by
  constructor
  · rintro (⟨up, _⟩ | ⟨_, above, below⟩ | ⟨none, _⟩)
    · exact absurd down (not_lt.mpr (le_of_lt up))
    · exact ⟨above, below⟩
    · exact absurd (none ▸ down) (lt_irrefl _)
  · rintro ⟨above, below⟩
    exact Or.inr (Or.inl ⟨down, above, below⟩)

theorem adds_zero_iff (t : ℚ) : (0 : Count).Adds t ↔ t = 0 := by
  simp [Adds, lt_iff]

end Count

namespace Region

theorem mem_rising_iff (delta : Count) (t : ℚ) :
    (t : ExtRat) ∈ ofInterval ⟨0, false, .finite delta, true⟩ ↔ 0 < t ∧ t ≤ delta.toInt := by
  rw [mem_ofInterval_iff, Interval.mem_iff, Interval.aboveLow_finite_iff rfl,
    Interval.belowHigh_finite_iff rfl]
  simp [Count.toInt_zero, le_iff_lt_or_eq]

theorem mem_falling_iff (delta : Count) (t : ℚ) :
    (t : ExtRat) ∈ ofInterval ⟨.finite delta, true, 0, false⟩ ↔ (delta.toInt : ℚ) ≤ t ∧ t < 0 := by
  rw [mem_ofInterval_iff, Interval.mem_iff, Interval.aboveLow_finite_iff rfl,
    Interval.belowHigh_finite_iff rfl]
  simp [Count.toInt_zero, le_iff_lt_or_eq]

theorem finite_of_ends {i : Interval} {a b : Count} (low : i.low = .finite a)
    (high : i.high = .finite b) : (ofInterval i).Finite := by
  intro v member
  rw [mem_ofInterval_iff] at member
  have above := Interval.low_le_of_mem member
  have below := Interval.le_high_of_mem member
  rw [low, Bound.val_finite] at above
  rw [high, Bound.val_finite] at below
  exact ExtRat.eq_coe_of_lt_of_lt ((ExtRat.bot_lt_coe _).trans_le above)
    (below.trans_lt (ExtRat.coe_lt_top _))

/-- The region holds just what a passage with the given change can add. -/
structure IsStep (delta : Count) (step : Region) : Prop where
  normal : step.Normal
  finite : step.Finite
  mem_iff : ∀ t : ℚ, (t : ExtRat) ∈ step ↔ delta.Adds t

theorem isStep_of_ofDelta? {delta : Count} {step : Region} (steps : ofDelta? delta = some step) :
    IsStep delta step := by
  unfold ofDelta? at steps
  split at steps
  · simp at steps
  · next changes =>
      have moves : ∀ t : ℚ, (t : ExtRat) ∈ step ↔ delta.Adds t := by
        intro t
        split at steps
        · next up =>
            injection steps with steps
            rw [← steps, mem_rising_iff, Count.adds_iff_of_pos up]
        · next notUp =>
            injection steps with steps
            have down : delta.toInt < 0 :=
              lt_of_le_of_ne (not_lt.mp notUp) fun same => changes (Count.ext same)
            rw [← steps, mem_falling_iff, Count.adds_iff_of_neg down]
      have whole : delta.Adds delta.toInt := by
        rcases lt_trichotomy delta.toInt 0 with down | same | up
        · rw [Count.adds_iff_of_neg down]
          exact ⟨le_refl _, by exact_mod_cast down⟩
        · exact absurd (Count.ext same) changes
        · rw [Count.adds_iff_of_pos up]
          exact ⟨by exact_mod_cast up, le_refl _⟩
      -- Adding all of the change shows that the interval is not empty.
      have member := (moves _).mpr whole
      split at steps
      · injection steps with steps
        subst steps
        rw [mem_ofInterval_iff] at member
        exact ⟨normal_ofInterval (Interval.isEmpty_eq_false_of_mem member),
          finite_of_ends rfl rfl, moves⟩
      · injection steps with steps
        subst steps
        rw [mem_ofInterval_iff] at member
        exact ⟨normal_ofInterval (Interval.isEmpty_eq_false_of_mem member),
          finite_of_ends rfl rfl, moves⟩

theorem ofDelta?_eq_none_iff (delta : Count) : ofDelta? delta = none ↔ delta = 0 := by
  unfold ofDelta?
  split
  · next same => simp [same]
  · next changes =>
      split
      · simp [changes]
      · simp [changes]

end Region

namespace Edge

variable {edge : Edge} {values : Region}

theorem carry_of_unchanged (unchanged : edge.delta = 0) : edge.carry values = values := by
  rw [carry, (Region.ofDelta?_eq_none_iff _).mpr unchanged]

theorem carry_of_pos (up : 0 < edge.delta) :
    edge.carry values = values + .ofInterval ⟨0, false, .finite edge.delta, true⟩ := by
  have changes : edge.delta ≠ 0 := fun same => by simp [same, Count.lt_iff] at up
  rw [carry, Region.ofDelta?, if_neg changes, if_pos up]

theorem carry_of_neg (down : edge.delta < 0) :
    edge.carry values = values + .ofInterval ⟨.finite edge.delta, true, 0, false⟩ := by
  have changes : edge.delta ≠ 0 := fun same => by simp [same, Count.lt_iff] at down
  have notUp : ¬ 0 < edge.delta := by
    rw [Count.lt_iff] at *
    omega
  rw [carry, Region.ofDelta?, if_neg changes, if_neg notUp]

theorem normal_carry (edge : Edge) (normal : values.Normal) : (edge.carry values).Normal := by
  unfold carry
  split
  · exact Region.normal_add _ _
  · exact normal

theorem finite_carry (edge : Edge) (normal : values.Normal) (finite : values.Finite) :
    (edge.carry values).Finite := by
  unfold carry
  split
  · next step steps =>
      have isStep := Region.isStep_of_ofDelta? steps
      exact Region.finite_add normal.inhabited isStep.normal.inhabited finite isStep.finite
  · exact finite

/-- No value is missed if the sum lies strictly within the counter range. -/
theorem mem_carry_of_adds {y t : ℚ} (member : (y : ExtRat) ∈ values) (adds : edge.delta.Adds t)
    (inside : Count.Inside (y + t)) : ((y + t : ℚ) : ExtRat) ∈ edge.carry values := by
  unfold carry
  split
  · next step steps =>
      exact Region.mem_add_of_inside member
        (((Region.isStep_of_ofDelta? steps).mem_iff t).mpr adds) inside
  · next unchanged =>
      have none := (Region.ofDelta?_eq_none_iff _).mp unchanged
      rw [(Count.adds_zero_iff t).mp (none ▸ adds), add_zero]
      exact member

/-- The ends of the values stay in the counter range when all of the change is added. -/
def Roomy (edge : Edge) (values : Region) : Prop :=
  ∀ step, Region.ofDelta? edge.delta = some step → values.Unsaturated step

theorem mem_carry_iff (normal : values.Normal) (finite : values.Finite)
    (roomy : edge.Roomy values) (x : ℚ) :
    (x : ExtRat) ∈ edge.carry values ↔
      ∃ y t : ℚ, (y : ExtRat) ∈ values ∧ edge.delta.Adds t ∧ x = y + t := by
  unfold carry
  split
  · next step steps =>
      have isStep := Region.isStep_of_ofDelta? steps
      rw [Region.mem_add_iff normal.inhabited isStep.normal.inhabited finite isStep.finite
        (roomy step steps)]
      simp only [isStep.mem_iff]
  · next unchanged =>
      have none := (Region.ofDelta?_eq_none_iff _).mp unchanged
      constructor
      · intro member
        exact ⟨x, 0, member, none ▸ (Count.adds_zero_iff 0).mpr rfl, (add_zero x).symm⟩
      · rintro ⟨y, t, member, adds, equal⟩
        rw [equal, (Count.adds_zero_iff t).mp (none ▸ adds), add_zero]
        exact member

end Edge

end OneCounter
