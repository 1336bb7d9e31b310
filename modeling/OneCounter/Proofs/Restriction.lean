import OneCounter.Arrivals
import OneCounter.Proofs.NormalForm

/-!
Restriction of a region to a range and a guard. Main statements: it keeps exactly the values that
the range and the guard admit, provided that the range is not inverted, and it keeps normal forms.
-/

namespace OneCounter

/-- Whether a guard lets a value pass. Deltas let every value pass. -/
def Instr.Accepts (guard : Instr) (v : ExtRat) : Prop :=
  match guard.op with
  | .atLeast => (Bound.finite guard.constant).val ≤ v
  | .atMost => v ≤ (Bound.finite guard.constant).val
  | .equal => v = (Bound.finite guard.constant).val
  | .add | .sub => True

/-- On counter values a guard accepts what its own test holds of. -/
theorem Instr.accepts_finite_iff (guard : Instr) (value : Count) :
    guard.Accepts (Bound.finite value).val ↔ guard.holds value = true := by
  obtain ⟨op, constant⟩ := guard
  cases op with
  | atLeast => simp [Accepts, holds, Count.le_iff]
  | atMost => simp [Accepts, holds, Count.le_iff]
  | equal => simp only [Accepts, holds, ← Bound.eq_iff_val, Bound.finite.injEq, decide_eq_true_eq]
  | add => exact iff_of_true trivial rfl
  | sub => exact iff_of_true trivial rfl

/-- The values within the closed range from `lower` to `upper` that pass the guard, if any. -/
structure Admitted (lower upper : Bound) (guard? : Option Instr) (v : ExtRat) : Prop where
  lower_le : lower.val ≤ v
  le_upper : v ≤ upper.val
  accepts : ∀ guard, guard? = some guard → guard.Accepts v

namespace Interval

theorem mem_lowerHigh_iff (i : Interval) (limit : Bound) (v : ExtRat) :
    v ∈ i.lowerHigh limit ↔ v ∈ i ∧ v ≤ limit.val := by
  unfold lowerHigh
  split
  · next less =>
      rw [Bound.lt_iff_val] at less
      simp only [mem_iff, AboveLow, BelowHigh, setHigh]
      grind
  · next notLess =>
      rw [Bound.lt_iff_val, not_lt] at notLess
      constructor
      · intro member
        exact ⟨member, (le_high_of_mem member).trans notLess⟩
      · exact And.left

theorem mem_raiseLow_iff (i : Interval) (limit : Bound) (v : ExtRat) :
    v ∈ i.raiseLow limit ↔ v ∈ i ∧ limit.val ≤ v := by
  unfold raiseLow
  split
  · next less =>
      rw [Bound.lt_iff_val] at less
      simp only [mem_iff, AboveLow, BelowHigh, setLow]
      grind
  · next notLess =>
      rw [Bound.lt_iff_val, not_lt] at notLess
      constructor
      · intro member
        exact ⟨member, notLess.trans (low_le_of_mem member)⟩
      · exact And.left

theorem covers_lowerHigh (i : Interval) (limit : Bound) :
    i.covers (i.lowerHigh limit) = true := by
  unfold lowerHigh
  split
  · next less =>
      rw [Bound.lt_iff_val] at less
      rw [covers_iff]
      simp only [setHigh]
      grind
  · exact covers_self i

theorem covers_raiseLow (i : Interval) (limit : Bound) : i.covers (i.raiseLow limit) = true := by
  unfold raiseLow
  split
  · next less =>
      rw [Bound.lt_iff_val] at less
      rw [covers_iff]
      simp only [setLow]
      grind
  · exact covers_self i

/-- An interval that meets the range is only cut: neither end has to be moved outward. -/
theorem clamp_eq_cut {i : Interval} {lower upper : Bound} (ordered : lower ≤ upper)
    (startsInside : ¬ upper < i.low) (endsInside : ¬ i.high < lower) :
    i.clamp lower upper = (i.lowerHigh upper).raiseLow lower := by
  rw [Bound.le_iff_val] at ordered
  rw [Bound.lt_iff_val, not_lt] at startsInside endsInside
  -- The two outward moves of a clamp have no effect once the interval meets the range.
  have highStays : (i.lowerHigh upper).raiseHigh lower = i.lowerHigh upper := by
    rw [raiseHigh, if_neg]
    rw [Bound.lt_iff_val, not_lt, lowerHigh]
    split
    · exact ordered
    · exact endsInside
  have lowStays : ¬ upper < ((i.lowerHigh upper).raiseLow lower).low := by
    rw [Bound.lt_iff_val, not_lt, raiseLow]
    split
    · exact ordered
    · rw [lowerHigh]
      split
      · exact startsInside
      · exact startsInside
  rw [clamp, highStays, lowerLow, if_neg lowStays]

end Interval

namespace Region

/-! ### The range -/

theorem mem_rescale_iff (r : Region) {lower upper : Bound} (ordered : lower ≤ upper) (v : ExtRat) :
    v ∈ r.rescale lower upper ↔ v ∈ r ∧ lower.val ≤ v ∧ v ≤ upper.val := by
  simp only [mem_iff, rescale, List.mem_map, List.mem_filter]
  constructor
  · rintro ⟨_, ⟨i, ⟨piece, meets⟩, rfl⟩, member⟩
    simp only [Bool.not_eq_true', Bool.or_eq_false_iff, decide_eq_false_iff_not] at meets
    rw [Interval.clamp_eq_cut ordered meets.1 meets.2, Interval.mem_raiseLow_iff,
      Interval.mem_lowerHigh_iff] at member
    exact ⟨⟨i, piece, member.1.1⟩, member.2, member.1.2⟩
  · rintro ⟨⟨i, piece, member⟩, above, below⟩
    have startsInside : ¬ upper < i.low := by
      rw [Bound.lt_iff_val, not_lt]
      exact (Interval.low_le_of_mem member).trans below
    have endsInside : ¬ i.high < lower := by
      rw [Bound.lt_iff_val, not_lt]
      exact above.trans (Interval.le_high_of_mem member)
    refine ⟨_, ⟨i, ⟨piece, by simp [startsInside, endsInside]⟩, rfl⟩, ?_⟩
    rw [Interval.clamp_eq_cut ordered startsInside endsInside, Interval.mem_raiseLow_iff,
      Interval.mem_lowerHigh_iff]
    exact ⟨⟨member, below⟩, above⟩

theorem apart_rescale {r : Region} (apart : r.pieces.Pairwise Interval.Apart) {lower upper : Bound}
    (ordered : lower ≤ upper) : (r.rescale lower upper).pieces.Pairwise Interval.Apart := by
  apply apart_shrink apart
  intro i _ meets
  simp only [Bool.not_eq_true', Bool.or_eq_false_iff, decide_eq_false_iff_not] at meets
  rw [Interval.clamp_eq_cut ordered meets.1 meets.2]
  exact Interval.covers_trans (Interval.covers_lowerHigh i upper)
    (Interval.covers_raiseLow _ lower)

/-! ### The guard -/

theorem mem_clipAbove_iff (r : Region) (limit : Count) (v : ExtRat) :
    v ∈ r.clipAbove limit ↔ v ∈ r ∧ v ≤ (Bound.finite limit).val := by
  simp only [mem_iff, clipAbove, List.mem_map, List.mem_filter]
  constructor
  · rintro ⟨_, ⟨i, ⟨piece, _⟩, rfl⟩, member⟩
    rw [Interval.mem_lowerHigh_iff] at member
    exact ⟨⟨i, piece, member.1⟩, member.2⟩
  · rintro ⟨⟨i, piece, member⟩, below⟩
    refine ⟨_, ⟨i, ⟨piece, ?_⟩, rfl⟩, (Interval.mem_lowerHigh_iff i _ v).mpr ⟨member, below⟩⟩
    simp only [Bool.or_eq_true, Bool.and_eq_true, decide_eq_true_eq, Bound.lt_iff_val,
      Bound.eq_iff_val]
    rcases member.1 with less | ⟨same, closed⟩
    · exact Or.inl (less.trans_le below)
    · rcases (same.le.trans below).lt_or_eq with less | meets
      · exact Or.inl less
      · exact Or.inr ⟨meets, closed⟩

theorem mem_clipBelow_iff (r : Region) (limit : Count) (v : ExtRat) :
    v ∈ r.clipBelow limit ↔ v ∈ r ∧ (Bound.finite limit).val ≤ v := by
  simp only [mem_iff, clipBelow, List.mem_map, List.mem_filter]
  constructor
  · rintro ⟨_, ⟨i, ⟨piece, _⟩, rfl⟩, member⟩
    rw [Interval.mem_raiseLow_iff] at member
    exact ⟨⟨i, piece, member.1⟩, member.2⟩
  · rintro ⟨⟨i, piece, member⟩, above⟩
    refine ⟨_, ⟨i, ⟨piece, ?_⟩, rfl⟩, (Interval.mem_raiseLow_iff i _ v).mpr ⟨member, above⟩⟩
    simp only [Bool.or_eq_true, Bool.and_eq_true, decide_eq_true_eq, Bound.lt_iff_val,
      Bound.eq_iff_val]
    rcases member.2 with less | ⟨same, closed⟩
    · exact Or.inl (above.trans_lt less)
    · rcases (above.trans same.le).lt_or_eq with less | meets
      · exact Or.inl less
      · exact Or.inr ⟨meets.symm, closed⟩

theorem mem_onlyPoint_iff (r : Region) (value : Count) (v : ExtRat) :
    v ∈ r.onlyPoint value ↔ v ∈ r ∧ v = (Bound.finite value).val := by
  unfold onlyPoint
  split
  · next present =>
      rw [contains_iff] at present
      rw [mem_point_iff]
      constructor
      · intro same
        exact ⟨same ▸ present, same⟩
      · exact And.right
  · next absent =>
      rw [contains_iff] at absent
      constructor
      · intro member
        exact absurd member (not_mem_empty v)
      · rintro ⟨member, same⟩
        exact absurd (same ▸ member) absent

theorem mem_obey_iff (r : Region) (guard : Instr) (v : ExtRat) :
    v ∈ r.obey guard ↔ v ∈ r ∧ guard.Accepts v := by
  obtain ⟨op, constant⟩ := guard
  cases op with
  | atLeast => exact mem_clipBelow_iff r constant v
  | atMost => exact mem_clipAbove_iff r constant v
  | equal => exact mem_onlyPoint_iff r constant v
  | add => exact (and_iff_left trivial).symm
  | sub => exact (and_iff_left trivial).symm

theorem apart_obey {r : Region} (apart : r.pieces.Pairwise Interval.Apart) (guard : Instr) :
    (r.obey guard).pieces.Pairwise Interval.Apart := by
  obtain ⟨op, constant⟩ := guard
  cases op with
  | atLeast => exact apart_shrink apart _ _ fun i _ _ => Interval.covers_raiseLow i _
  | atMost => exact apart_shrink apart _ _ fun i _ _ => Interval.covers_lowerHigh i _
  | equal =>
      change (r.onlyPoint constant).pieces.Pairwise _
      unfold onlyPoint
      split
      · exact (normal_point _).apart
      · exact normal_empty.apart
  | add => exact apart
  | sub => exact apart

/-! ### Both -/

theorem mem_restrict_iff (r : Region) {lower upper : Bound} (ordered : lower ≤ upper)
    (guard? : Option Instr) (v : ExtRat) :
    v ∈ r.restrict lower upper guard? ↔ v ∈ r ∧ Admitted lower upper guard? v := by
  cases guard? with
  | none =>
      simp only [restrict, mem_clean_iff, mem_rescale_iff r ordered]
      constructor
      · rintro ⟨member, above, below⟩
        exact ⟨member, above, below, by simp⟩
      · rintro ⟨member, admitted⟩
        exact ⟨member, admitted.lower_le, admitted.le_upper⟩
  | some guard =>
      simp only [restrict, mem_clean_iff, mem_obey_iff, mem_rescale_iff r ordered]
      constructor
      · rintro ⟨⟨member, above, below⟩, accepts⟩
        refine ⟨member, above, below, ?_⟩
        intro other same
        injection same with same
        exact same ▸ accepts
      · rintro ⟨member, admitted⟩
        exact ⟨⟨member, admitted.lower_le, admitted.le_upper⟩, admitted.accepts guard rfl⟩

theorem Normal.restrict {r : Region} (normal : r.Normal) {lower upper : Bound}
    (ordered : lower ≤ upper) (guard? : Option Instr) :
    (r.restrict lower upper guard?).Normal := by
  have inside := apart_rescale normal.apart ordered
  cases guard? with
  | none => exact normal_clean inside
  | some guard => exact normal_clean (apart_obey inside guard)

/-- Of a region in normal form exactly the values of the range that pass the guard are kept, in
normal form again. On counter values this is what the tests of the region, of the bounds and of the
guard say. -/
theorem restrict_normal_and_exact {r : Region} (normal : r.Normal) {lower upper : Bound}
    (ordered : lower ≤ upper) (guard? : Option Instr) :
    (r.restrict lower upper guard?).Normal ∧
      (∀ v : ExtRat, v ∈ r.restrict lower upper guard? ↔
        v ∈ r ∧ lower.val ≤ v ∧ v ≤ upper.val ∧ ∀ guard, guard? = some guard → guard.Accepts v) ∧
      ∀ value : Count, (r.restrict lower upper guard?).contains (.finite value) = true ↔
        r.contains (.finite value) = true ∧ lower ≤ .finite value ∧ .finite value ≤ upper ∧
          ∀ guard, guard? = some guard → guard.holds value = true := by
  have values (v : ExtRat) : v ∈ r.restrict lower upper guard? ↔ v ∈ r ∧ lower.val ≤ v ∧
      v ≤ upper.val ∧ ∀ guard, guard? = some guard → guard.Accepts v := by
    rw [mem_restrict_iff r ordered]
    constructor
    · rintro ⟨member, admitted⟩
      exact ⟨member, admitted.lower_le, admitted.le_upper, admitted.accepts⟩
    · rintro ⟨member, above, below, accepts⟩
      exact ⟨member, above, below, accepts⟩
  refine ⟨normal.restrict ordered guard?, values, ?_⟩
  intro value
  simp only [contains_iff, values, Bound.le_iff_val, Instr.accepts_finite_iff]

/-- Two pieces that share an open end, and a ray. -/
def gapped : Region :=
  ⟨[⟨.finite (.clamp (-5)), false, 0, false⟩, ⟨0, false, .finite (.clamp 5), false⟩,
    ⟨.finite (.clamp 7), true, .posInf, false⟩]⟩

/-- The range starts where the first two pieces meet and ends where the third one starts. -/
theorem gapped_restrict :
    gapped.restrict 0 (.finite (.clamp 7)) (some ⟨.atLeast, .clamp 2⟩) =
        ⟨[⟨.finite (.clamp 2), true, .finite (.clamp 5), false⟩, .point (.finite (.clamp 7))]⟩ ∧
      (gapped.restrict 0 (.finite (.clamp 7)) (some ⟨.atLeast, .clamp 2⟩)).Normal ∧
      (gapped.restrict 0 (.finite (.clamp 7)) none).contains 0 = false := by
  have normal : gapped.Normal := by decide
  have ordered : (0 : Bound) ≤ .finite (.clamp 7) := by decide
  obtain ⟨kept, _, _⟩ := restrict_normal_and_exact normal ordered (some ⟨.atLeast, .clamp 2⟩)
  obtain ⟨_, _, holds⟩ := restrict_normal_and_exact normal ordered none
  refine ⟨by decide, kept, ?_⟩
  rw [← Bool.not_eq_true]
  intro kept
  exact absurd ((holds 0).mp kept).1 (by decide)

end Region

end OneCounter
