import OneCounter.Proofs.Union

/-!
Sums of regions. Main statements: a sum holds `y + z` for all its values `y` and `z` whose sum lies
strictly within the counter range, and if no sum of ends saturates it holds just these.
-/

namespace OneCounter

/-- Strictly between the two ends of the counter range. -/
def Count.Inside (x : ℚ) : Prop := (Count.least.toInt : ℚ) < x ∧ x < (Count.greatest.toInt : ℚ)

/-- The sum of the two bounds, if both are finite, is a counter value. -/
def Bound.Unsaturated (a b : Bound) : Prop :=
  ∀ x y : Count, a = .finite x → b = .finite y →
    Count.least.toInt ≤ x.toInt + y.toInt ∧ x.toInt + y.toInt ≤ Count.greatest.toInt

instance (a b : Bound) : Decidable (a.Unsaturated b) :=
  match a, b with
  | .finite x, .finite y =>
      decidable_of_iff (Count.least.toInt ≤ x.toInt + y.toInt ∧
          x.toInt + y.toInt ≤ Count.greatest.toInt)
        ⟨fun fits _ _ left right => Bound.finite.inj left ▸ Bound.finite.inj right ▸ fits,
          fun fits => fits x y rfl rfl⟩
  | .negInf, _ => isTrue fun _ _ left => nomatch left
  | .posInf, _ => isTrue fun _ _ left => nomatch left
  | .finite _, .negInf => isTrue fun _ _ _ right => nomatch right
  | .finite _, .posInf => isTrue fun _ _ _ right => nomatch right

theorem Bound.finite_add_finite (x y : Count) :
    Bound.finite x + Bound.finite y = Bound.finite (x + y) := rfl

theorem Count.toInt_add_of_unsaturated {x y : Count} (low : least.toInt ≤ x.toInt + y.toInt)
    (high : x.toInt + y.toInt ≤ greatest.toInt) : (x + y).toInt = x.toInt + y.toInt := by
  change -9223372036854775808 ≤ x.toInt + y.toInt at low
  change x.toInt + y.toInt ≤ 9223372036854775807 at high
  rw [toInt_add, toInt_clamp]
  omega

/-- A sum is exceeded only if it saturates at the least counter value. -/
theorem Count.toInt_add_le {x y : Count} (low : least.toInt ≤ x.toInt + y.toInt) :
    (x + y).toInt ≤ x.toInt + y.toInt := by
  change -9223372036854775808 ≤ x.toInt + y.toInt at low
  rw [toInt_add, toInt_clamp]
  omega

theorem Count.toInt_add_eq_least {x y : Count} (low : x.toInt + y.toInt < least.toInt) :
    (x + y).toInt = least.toInt := by
  change x.toInt + y.toInt < -9223372036854775808 at low
  change _ = (-9223372036854775808 : Int)
  rw [toInt_add, toInt_clamp]
  omega

theorem Count.le_toInt_add {x y : Count} (high : x.toInt + y.toInt ≤ greatest.toInt) :
    x.toInt + y.toInt ≤ (x + y).toInt := by
  change x.toInt + y.toInt ≤ 9223372036854775807 at high
  rw [toInt_add, toInt_clamp]
  omega

theorem Count.toInt_add_eq_greatest {x y : Count} (high : greatest.toInt < x.toInt + y.toInt) :
    (x + y).toInt = greatest.toInt := by
  change 9223372036854775807 < x.toInt + y.toInt at high
  change _ = (9223372036854775807 : Int)
  rw [toInt_add, toInt_clamp]
  omega

namespace Interval

theorem add_low (i j : Interval) : (i + j).low = i.low + j.low := rfl

theorem add_lowClosed (i j : Interval) : (i + j).lowClosed = (i.lowClosed && j.lowClosed) := rfl

theorem add_high (i j : Interval) : (i + j).high = i.high + j.high := rfl

theorem add_highClosed (i j : Interval) : (i + j).highClosed = (i.highClosed && j.highClosed) := rfl

theorem aboveLow_finite_iff {i : Interval} {a : Count} (low : i.low = .finite a) (x : ℚ) :
    i.AboveLow x ↔ (a.toInt : ℚ) < x ∨ ((a.toInt : ℚ) = x ∧ i.lowClosed = true) := by
  rw [AboveLow, low, Bound.val_finite, WithBotTop.coe_lt_coe, WithBotTop.coe_injective.eq_iff]

theorem belowHigh_finite_iff {i : Interval} {a : Count} (high : i.high = .finite a) (x : ℚ) :
    i.BelowHigh x ↔ x < (a.toInt : ℚ) ∨ (x = (a.toInt : ℚ) ∧ i.highClosed = true) := by
  rw [BelowHigh, high, Bound.val_finite, WithBotTop.coe_lt_coe, WithBotTop.coe_injective.eq_iff]

theorem aboveLow_negInf {i : Interval} (low : i.low = .negInf) (x : ℚ) : i.AboveLow x := by
  refine Or.inl ?_
  rw [low]
  exact ExtRat.bot_lt_coe x

theorem belowHigh_posInf {i : Interval} (high : i.high = .posInf) (x : ℚ) : i.BelowHigh x := by
  refine Or.inl ?_
  rw [high]
  exact ExtRat.coe_lt_top x

theorem low_ne_posInf {i : Interval} {x : ℚ} (above : i.AboveLow x) : i.low ≠ .posInf := by
  intro low
  rcases above with less | ⟨same, _⟩
  · exact absurd (low ▸ less) not_top_lt
  · rw [low] at same
    exact absurd same.symm (WithBotTop.coe_ne_top x)

theorem high_ne_negInf {i : Interval} {x : ℚ} (below : i.BelowHigh x) : i.high ≠ .negInf := by
  intro high
  rcases below with less | ⟨same, _⟩
  · exact absurd (high ▸ less) not_lt_bot
  · rw [high] at same
    exact absurd same (WithBotTop.coe_ne_bot x)

/-! ### What a sum holds -/

theorem aboveLow_add_finite {i j : Interval} {a b : Count} {y z : ℚ} (left : i.low = .finite a)
    (right : j.low = .finite b) (first : i.AboveLow y) (second : j.AboveLow z)
    (fits : Count.least.toInt ≤ a.toInt + b.toInt ∨ (Count.least.toInt : ℚ) < y + z) :
    (i + j).AboveLow ((y + z : ℚ) : ExtRat) := by
  have low : (i + j).low = .finite (a + b) := by
    rw [add_low, left, right, Bound.finite_add_finite]
  rw [aboveLow_finite_iff left] at first
  rw [aboveLow_finite_iff right] at second
  rw [aboveLow_finite_iff low, add_lowClosed, Bool.and_eq_true]
  by_cases inRange : Count.least.toInt ≤ a.toInt + b.toInt
  · have bound : ((a + b).toInt : ℚ) ≤ a.toInt + b.toInt := by
      exact_mod_cast Count.toInt_add_le inRange
    rcases first with less | ⟨same, leftClosed⟩
    · left
      rcases second with less' | ⟨same', _⟩ <;> linarith
    · rcases second with less' | ⟨same', rightClosed⟩
      · left
        linarith
      · -- Both values are ends, so the sum is the end of the sum, unless that has saturated.
        rw [same, same'] at bound
        rcases bound.lt_or_eq with less | equal
        · exact Or.inl less
        · exact Or.inr ⟨equal, leftClosed, rightClosed⟩
  · -- A saturated lower end is the least counter value, and the sum lies above that.
    left
    rw [Count.toInt_add_eq_least (not_le.mp inRange)]
    exact fits.resolve_left inRange

theorem aboveLow_add {i j : Interval} {y z : ℚ} (first : i.AboveLow y) (second : j.AboveLow z)
    (fits : ∀ a b : Count, i.low = .finite a → j.low = .finite b →
      Count.least.toInt ≤ a.toInt + b.toInt ∨ (Count.least.toInt : ℚ) < y + z) :
    (i + j).AboveLow ((y + z : ℚ) : ExtRat) := by
  cases left : i.low with
  | posInf => exact absurd left (low_ne_posInf first)
  | negInf =>
      cases right : j.low with
      | posInf => exact absurd right (low_ne_posInf second)
      | negInf => exact aboveLow_negInf (by rw [add_low, left, right]; rfl) _
      | finite b => exact aboveLow_negInf (by rw [add_low, left, right]; rfl) _
  | finite a =>
      cases right : j.low with
      | posInf => exact absurd right (low_ne_posInf second)
      | negInf => exact aboveLow_negInf (by rw [add_low, left, right]; rfl) _
      | finite b => exact aboveLow_add_finite left right first second (fits a b left right)

theorem belowHigh_add_finite {i j : Interval} {a b : Count} {y z : ℚ} (left : i.high = .finite a)
    (right : j.high = .finite b) (first : i.BelowHigh y) (second : j.BelowHigh z)
    (fits : a.toInt + b.toInt ≤ Count.greatest.toInt ∨ y + z < (Count.greatest.toInt : ℚ)) :
    (i + j).BelowHigh ((y + z : ℚ) : ExtRat) := by
  have high : (i + j).high = .finite (a + b) := by
    rw [add_high, left, right, Bound.finite_add_finite]
  rw [belowHigh_finite_iff left] at first
  rw [belowHigh_finite_iff right] at second
  rw [belowHigh_finite_iff high, add_highClosed, Bool.and_eq_true]
  by_cases inRange : a.toInt + b.toInt ≤ Count.greatest.toInt
  · have bound : (a.toInt + b.toInt : ℚ) ≤ (a + b).toInt := by
      exact_mod_cast Count.le_toInt_add inRange
    rcases first with less | ⟨same, leftClosed⟩
    · left
      rcases second with less' | ⟨same', _⟩ <;> linarith
    · rcases second with less' | ⟨same', rightClosed⟩
      · left
        linarith
      · rw [← same, ← same'] at bound
        rcases bound.lt_or_eq with less | equal
        · exact Or.inl less
        · exact Or.inr ⟨equal, leftClosed, rightClosed⟩
  · left
    rw [Count.toInt_add_eq_greatest (not_le.mp inRange)]
    exact fits.resolve_left inRange

theorem belowHigh_add {i j : Interval} {y z : ℚ} (first : i.BelowHigh y) (second : j.BelowHigh z)
    (fits : ∀ a b : Count, i.high = .finite a → j.high = .finite b →
      a.toInt + b.toInt ≤ Count.greatest.toInt ∨ y + z < (Count.greatest.toInt : ℚ)) :
    (i + j).BelowHigh ((y + z : ℚ) : ExtRat) := by
  cases left : i.high with
  | negInf => exact absurd left (high_ne_negInf first)
  | posInf =>
      cases right : j.high with
      | negInf => exact absurd right (high_ne_negInf second)
      | posInf => exact belowHigh_posInf (by rw [add_high, left, right]; rfl) _
      | finite b => exact belowHigh_posInf (by rw [add_high, left, right]; rfl) _
  | finite a =>
      cases right : j.high with
      | negInf => exact absurd right (high_ne_negInf second)
      | posInf => exact belowHigh_posInf (by rw [add_high, left, right]; rfl) _
      | finite b => exact belowHigh_add_finite left right first second (fits a b left right)

theorem mem_add_of_inside {i j : Interval} {y z : ℚ} (first : (y : ExtRat) ∈ i)
    (second : (z : ExtRat) ∈ j) (inside : Count.Inside (y + z)) :
    ((y + z : ℚ) : ExtRat) ∈ i + j :=
  ⟨aboveLow_add first.1 second.1 fun _ _ _ _ => Or.inr inside.1,
    belowHigh_add first.2 second.2 fun _ _ _ _ => Or.inr inside.2⟩

theorem mem_add_of_unsaturated {i j : Interval} {y z : ℚ} (first : (y : ExtRat) ∈ i)
    (second : (z : ExtRat) ∈ j) (low : i.low.Unsaturated j.low)
    (high : i.high.Unsaturated j.high) : ((y + z : ℚ) : ExtRat) ∈ i + j :=
  ⟨aboveLow_add first.1 second.1 fun a b left right => Or.inl (low a b left right).1,
    belowHigh_add first.2 second.2 fun a b left right => Or.inl (high a b left right).2⟩

/-! ### Nothing else -/

theorem exists_mem_ge {i : Interval} {y w : ℚ} (member : (y : ExtRat) ∈ i)
    (below : (w : ExtRat) < i.high.val) : ∃ y' : ℚ, (y' : ExtRat) ∈ i ∧ w ≤ y' := by
  rcases le_total w y with before | after
  · exact ⟨y, member, before⟩
  · have above : i.AboveLow w := by
      rcases member.1 with less | ⟨same, closed⟩
      · exact Or.inl (less.trans_le (WithBotTop.coe_le_coe.mpr after))
      · rcases after.lt_or_eq with less | equal
        · exact Or.inl (same.trans_lt (WithBotTop.coe_lt_coe.mpr less))
        · exact Or.inr ⟨equal ▸ same, closed⟩
    exact ⟨w, ⟨above, Or.inl below⟩, le_refl w⟩

theorem exists_mem_le {i : Interval} {y w : ℚ} (member : (y : ExtRat) ∈ i)
    (above : i.low.val < (w : ExtRat)) : ∃ y' : ℚ, (y' : ExtRat) ∈ i ∧ y' ≤ w := by
  rcases le_total y w with before | after
  · exact ⟨y, member, before⟩
  · have below : i.BelowHigh w := by
      rcases member.2 with less | ⟨same, closed⟩
      · exact Or.inl ((WithBotTop.coe_le_coe.mpr after).trans_lt less)
      · rcases after.lt_or_eq with less | equal
        · exact Or.inl ((WithBotTop.coe_lt_coe.mpr less).trans_eq same)
        · exact Or.inr ⟨equal ▸ same, closed⟩
    exact ⟨w, ⟨Or.inl above, below⟩, le_refl w⟩

theorem exists_add_ge_finite {i j : Interval} {a b : Count} {x y z : ℚ}
    (left : i.high = .finite a) (right : j.high = .finite b) (first : (y : ExtRat) ∈ i)
    (second : (z : ExtRat) ∈ j) (fits : i.high.Unsaturated j.high)
    (below : (i + j).BelowHigh x) :
    ∃ y' z' : ℚ, (y' : ExtRat) ∈ i ∧ (z' : ExtRat) ∈ j ∧ x ≤ y' + z' := by
  have inRange := fits a b left right
  have total : ((a + b).toInt : ℚ) = a.toInt + b.toInt := by
    exact_mod_cast Count.toInt_add_of_unsaturated inRange.1 inRange.2
  have high : (i + j).high = .finite (a + b) := by
    rw [add_high, left, right, Bound.finite_add_finite]
  rw [belowHigh_finite_iff high, total, add_highClosed, Bool.and_eq_true] at below
  rcases below with less | ⟨same, leftClosed, rightClosed⟩
  · -- Each of the two ends gives way by half of what is left over.
    have leftRoom : ((a.toInt - (a.toInt + b.toInt - x) / 2 : ℚ) : ExtRat) < i.high.val := by
      rw [left, Bound.val_finite, WithBotTop.coe_lt_coe]
      linarith
    have rightRoom :
        ((b.toInt - (a.toInt + b.toInt - x) / 2 : ℚ) : ExtRat) < j.high.val := by
      rw [right, Bound.val_finite, WithBotTop.coe_lt_coe]
      linarith
    obtain ⟨y', inLeft, farLeft⟩ := exists_mem_ge first leftRoom
    obtain ⟨z', inRight, farRight⟩ := exists_mem_ge second rightRoom
    exact ⟨y', z', inLeft, inRight, by linarith⟩
  · have inLeft := high_mem (isEmpty_eq_false_of_mem first) leftClosed
    have inRight := high_mem (isEmpty_eq_false_of_mem second) rightClosed
    rw [left, Bound.val_finite] at inLeft
    rw [right, Bound.val_finite] at inRight
    exact ⟨a.toInt, b.toInt, inLeft, inRight, same.le⟩

/-- There are values whose sum reaches a given value below the upper end. -/
theorem exists_add_ge {i j : Interval} {x y z : ℚ} (first : (y : ExtRat) ∈ i)
    (second : (z : ExtRat) ∈ j) (fits : i.high.Unsaturated j.high)
    (below : (i + j).BelowHigh x) :
    ∃ y' z' : ℚ, (y' : ExtRat) ∈ i ∧ (z' : ExtRat) ∈ j ∧ x ≤ y' + z' := by
  cases left : i.high with
  | negInf => exact absurd left (high_ne_negInf first.2)
  | posInf =>
      have room : ((x - z : ℚ) : ExtRat) < i.high.val := by
        rw [left]
        exact ExtRat.coe_lt_top _
      obtain ⟨y', member, far⟩ := exists_mem_ge first room
      exact ⟨y', z, member, second, by linarith⟩
  | finite a =>
      cases right : j.high with
      | negInf => exact absurd right (high_ne_negInf second.2)
      | posInf =>
          have room : ((x - y : ℚ) : ExtRat) < j.high.val := by
            rw [right]
            exact ExtRat.coe_lt_top _
          obtain ⟨z', member, far⟩ := exists_mem_ge second room
          exact ⟨y, z', first, member, by linarith⟩
      | finite b => exact exists_add_ge_finite left right first second fits below

theorem exists_add_le_finite {i j : Interval} {a b : Count} {x y z : ℚ}
    (left : i.low = .finite a) (right : j.low = .finite b) (first : (y : ExtRat) ∈ i)
    (second : (z : ExtRat) ∈ j) (fits : i.low.Unsaturated j.low)
    (above : (i + j).AboveLow x) :
    ∃ y' z' : ℚ, (y' : ExtRat) ∈ i ∧ (z' : ExtRat) ∈ j ∧ y' + z' ≤ x := by
  have inRange := fits a b left right
  have total : ((a + b).toInt : ℚ) = a.toInt + b.toInt := by
    exact_mod_cast Count.toInt_add_of_unsaturated inRange.1 inRange.2
  have low : (i + j).low = .finite (a + b) := by
    rw [add_low, left, right, Bound.finite_add_finite]
  rw [aboveLow_finite_iff low, total, add_lowClosed, Bool.and_eq_true] at above
  rcases above with less | ⟨same, leftClosed, rightClosed⟩
  · have leftRoom : i.low.val < ((a.toInt + (x - (a.toInt + b.toInt)) / 2 : ℚ) : ExtRat) := by
      rw [left, Bound.val_finite, WithBotTop.coe_lt_coe]
      linarith
    have rightRoom :
        j.low.val < ((b.toInt + (x - (a.toInt + b.toInt)) / 2 : ℚ) : ExtRat) := by
      rw [right, Bound.val_finite, WithBotTop.coe_lt_coe]
      linarith
    obtain ⟨y', inLeft, farLeft⟩ := exists_mem_le first leftRoom
    obtain ⟨z', inRight, farRight⟩ := exists_mem_le second rightRoom
    exact ⟨y', z', inLeft, inRight, by linarith⟩
  · have inLeft := low_mem (isEmpty_eq_false_of_mem first) leftClosed
    have inRight := low_mem (isEmpty_eq_false_of_mem second) rightClosed
    rw [left, Bound.val_finite] at inLeft
    rw [right, Bound.val_finite] at inRight
    exact ⟨a.toInt, b.toInt, inLeft, inRight, same.le⟩

/-- There are values whose sum gets down to a given value above the lower end. -/
theorem exists_add_le {i j : Interval} {x y z : ℚ} (first : (y : ExtRat) ∈ i)
    (second : (z : ExtRat) ∈ j) (fits : i.low.Unsaturated j.low)
    (above : (i + j).AboveLow x) :
    ∃ y' z' : ℚ, (y' : ExtRat) ∈ i ∧ (z' : ExtRat) ∈ j ∧ y' + z' ≤ x := by
  cases left : i.low with
  | posInf => exact absurd left (low_ne_posInf first.1)
  | negInf =>
      have room : i.low.val < ((x - z : ℚ) : ExtRat) := by
        rw [left]
        exact ExtRat.bot_lt_coe _
      obtain ⟨y', member, far⟩ := exists_mem_le first room
      exact ⟨y', z, member, second, by linarith⟩
  | finite a =>
      cases right : j.low with
      | posInf => exact absurd right (low_ne_posInf second.1)
      | negInf =>
          have room : j.low.val < ((x - y : ℚ) : ExtRat) := by
            rw [right]
            exact ExtRat.bot_lt_coe _
          obtain ⟨z', member, far⟩ := exists_mem_le second room
          exact ⟨y, z', first, member, by linarith⟩
      | finite b => exact exists_add_le_finite left right first second fits above

/-- Between two sums every value is a sum: first one summand moves, then the other. -/
theorem exists_add_eq {i j : Interval} {x y y' z z' : ℚ} (leftLow : (y : ExtRat) ∈ i)
    (leftHigh : (y' : ExtRat) ∈ i) (rightLow : (z : ExtRat) ∈ j) (rightHigh : (z' : ExtRat) ∈ j)
    (above : y + z ≤ x) (below : x ≤ y' + z') :
    ∃ s t : ℚ, (s : ExtRat) ∈ i ∧ (t : ExtRat) ∈ j ∧ x = s + t := by
  rcases le_total x (y' + z) with before | after
  · refine ⟨x - z, z, mem_of_le_of_le leftLow leftHigh ?_ ?_, rightLow, by ring⟩
    · exact WithBotTop.coe_le_coe.mpr (by linarith)
    · exact WithBotTop.coe_le_coe.mpr (by linarith)
  · refine ⟨y', x - y', leftHigh, mem_of_le_of_le rightLow rightHigh ?_ ?_, by ring⟩
    · exact WithBotTop.coe_le_coe.mpr (by linarith)
    · exact WithBotTop.coe_le_coe.mpr (by linarith)

/-- Only rational values, neither of the infinities. -/
def Finite (i : Interval) : Prop := ∀ v ∈ i, ∃ x : ℚ, v = x

/-- No end that is an infinity is closed. -/
def OpenAtInfinity (i : Interval) : Prop :=
  (i.low.isFinite = false → i.lowClosed = false) ∧ (i.high.isFinite = false → i.highClosed = false)

instance (i : Interval) : Decidable i.OpenAtInfinity := inferInstanceAs (Decidable (_ ∧ _))

theorem OpenAtInfinity.finite {i : Interval} (opens : i.OpenAtInfinity) : i.Finite := by
  intro v member
  induction v using WithBotTop.rec with
  | coe x => exact ⟨x, rfl⟩
  | bot =>
      rcases member.1 with less | ⟨same, closed⟩
      · exact absurd less not_lt_bot
      · have low : i.low = .negInf := Bound.val_injective same
        exact absurd closed (by simp [opens.1 (by rw [low]; rfl)])
  | top =>
      rcases member.2 with less | ⟨same, closed⟩
      · exact absurd less not_top_lt
      · have high : i.high = .posInf := Bound.val_injective same.symm
        exact absurd closed (by simp [opens.2 (by rw [high]; rfl)])

theorem Finite.exists_mem {i : Interval} (finite : i.Finite) (inhabited : i.isEmpty = false) :
    ∃ x : ℚ, (x : ExtRat) ∈ i := by
  obtain ⟨v, member⟩ := Interval.exists_mem inhabited
  obtain ⟨x, rfl⟩ := finite v member
  exact ⟨x, member⟩

theorem mem_add_iff {i j : Interval} (leftInhabited : i.isEmpty = false)
    (rightInhabited : j.isEmpty = false) (leftFinite : i.Finite) (rightFinite : j.Finite)
    (low : i.low.Unsaturated j.low) (high : i.high.Unsaturated j.high) (x : ℚ) :
    (x : ExtRat) ∈ i + j ↔
      ∃ y z : ℚ, (y : ExtRat) ∈ i ∧ (z : ExtRat) ∈ j ∧ x = y + z := by
  constructor
  · intro member
    obtain ⟨y, first⟩ := leftFinite.exists_mem leftInhabited
    obtain ⟨z, second⟩ := rightFinite.exists_mem rightInhabited
    obtain ⟨y₁, z₁, leftLow, rightLow, above⟩ := exists_add_le first second low member.1
    obtain ⟨y₂, z₂, leftHigh, rightHigh, below⟩ := exists_add_ge first second high member.2
    exact exists_add_eq leftLow leftHigh rightLow rightHigh above below
  · rintro ⟨y, z, first, second, rfl⟩
    exact mem_add_of_unsaturated first second low high

theorem Finite.not_aboveLow_bot {i : Interval} (finite : i.Finite)
    (inhabited : i.isEmpty = false) : ¬ i.AboveLow ⊥ := by
  rintro (less | ⟨same, closed⟩)
  · exact absurd less not_lt_bot
  · obtain ⟨x, equal⟩ := finite _ (low_mem inhabited closed)
    exact WithBotTop.coe_ne_bot x (equal.symm.trans same)

theorem Finite.not_belowHigh_top {i : Interval} (finite : i.Finite)
    (inhabited : i.isEmpty = false) : ¬ i.BelowHigh ⊤ := by
  rintro (less | ⟨same, closed⟩)
  · exact absurd less not_top_lt
  · obtain ⟨x, equal⟩ := finite _ (high_mem inhabited closed)
    exact WithBotTop.coe_ne_top x (equal.symm.trans same.symm)

/-- An end of a sum is infinite only if one of the two summands is without end there. -/
theorem not_aboveLow_bot_add {i j : Interval} (left : ¬ i.AboveLow ⊥) (right : ¬ j.AboveLow ⊥) :
    ¬ (i + j).AboveLow ⊥ := by
  rintro (less | ⟨same, closed⟩)
  · exact absurd less not_lt_bot
  · rw [add_lowClosed, Bool.and_eq_true] at closed
    have low : i.low + j.low = .negInf := Bound.val_injective same
    cases first : i.low with
    | negInf => exact left (Or.inr ⟨by rw [first]; rfl, closed.1⟩)
    | posInf => rw [first] at low; cases second : j.low <;> rw [second] at low <;> cases low
    | finite a =>
        cases second : j.low with
        | negInf => exact right (Or.inr ⟨by rw [second]; rfl, closed.2⟩)
        | posInf => rw [first, second] at low; cases low
        | finite b => rw [first, second] at low; cases low

theorem not_belowHigh_top_add {i j : Interval} (left : ¬ i.BelowHigh ⊤)
    (right : ¬ j.BelowHigh ⊤) : ¬ (i + j).BelowHigh ⊤ := by
  rintro (less | ⟨same, closed⟩)
  · exact absurd less not_top_lt
  · rw [add_highClosed, Bool.and_eq_true] at closed
    have high : i.high + j.high = .posInf := Bound.val_injective same.symm
    cases first : i.high with
    | posInf => exact left (Or.inr ⟨by rw [first]; rfl, closed.1⟩)
    | negInf =>
        cases second : j.high with
        | posInf => exact right (Or.inr ⟨by rw [second]; rfl, closed.2⟩)
        | negInf => rw [first, second] at high; cases high
        | finite b => rw [first, second] at high; cases high
    | finite a =>
        cases second : j.high with
        | posInf => exact right (Or.inr ⟨by rw [second]; rfl, closed.2⟩)
        | negInf => rw [first, second] at high; cases high
        | finite b => rw [first, second] at high; cases high

end Interval

namespace Region

/-- Only rational values, neither of the infinities. -/
def Finite (r : Region) : Prop := ∀ v ∈ r, ∃ x : ℚ, v = x

theorem Finite.piece {r : Region} (finite : r.Finite) {i : Interval} (piece : i ∈ r.pieces) :
    i.Finite :=
  fun v member => finite v ⟨i, piece, member⟩

theorem mem_shift_iff (r : Region) (step : Interval) (v : ExtRat) :
    v ∈ r.shift step ↔ ∃ i ∈ r.pieces, v ∈ i + step := by
  simp [mem_iff, shift]

section Steps

variable (r : Region) (steps : List Interval)

/-- The union of a region with what the steps make of another one. -/
def shiftAll (acc : Region) : Region := steps.foldl (fun sum step => sum.union (r.shift step)) acc

theorem add_eq_shiftAll (s : Region) : r + s = shiftAll r s.pieces empty := rfl

theorem normal_shiftAll {acc : Region} (normal : acc.Normal) : (shiftAll r steps acc).Normal := by
  induction steps generalizing acc with
  | nil => exact normal
  | cons step rest ih => exact ih (normal_union acc (r.shift step))

theorem mem_shiftAll_of_mem {acc : Region} {v : ExtRat}
    (member : v ∈ acc ∨ ∃ step ∈ steps, v ∈ r.shift step) : v ∈ shiftAll r steps acc := by
  induction steps generalizing acc with
  | nil =>
      rcases member with known | ⟨step, present, _⟩
      · exact known
      · simp at present
  | cons first rest ih =>
      apply ih
      rcases member with known | ⟨step, present, shifted⟩
      · exact Or.inl (mem_union_of_mem (Or.inl known))
      · rcases List.mem_cons.mp present with same | later
        · exact Or.inl (mem_union_of_mem (Or.inr (same ▸ shifted)))
        · exact Or.inr ⟨step, later, shifted⟩

theorem mem_of_mem_shiftAll {acc : Region} (normal : acc.Normal)
    (inhabited : ∀ step ∈ steps, ∀ i ∈ r.pieces, (i + step).isEmpty = false) {v : ExtRat}
    (member : v ∈ shiftAll r steps acc) : v ∈ acc ∨ ∃ step ∈ steps, v ∈ r.shift step := by
  induction steps generalizing acc with
  | nil => exact Or.inl member
  | cons first rest ih =>
      have later : ∀ step ∈ rest, ∀ i ∈ r.pieces, (i + step).isEmpty = false := fun step present =>
        inhabited step (List.mem_cons_of_mem first present)
      rcases ih (normal_union acc (r.shift first)) later member with merged | ⟨step, present, shifted⟩
      · have shiftInhabited : ∀ i ∈ (r.shift first).pieces, i.isEmpty = false := by
          intro i piece
          obtain ⟨k, present, rfl⟩ := List.mem_map.mp piece
          exact inhabited first List.mem_cons_self k present
        rcases (mem_union_iff normal.inhabited shiftInhabited v).mp merged with known | shifted
        · exact Or.inl known
        · exact Or.inr ⟨first, List.mem_cons_self, shifted⟩
      · exact Or.inr ⟨step, List.mem_cons_of_mem first present, shifted⟩

theorem finite_shiftAll {acc : Region} (normal : acc.Normal) (finite : acc.Finite)
    (low : ∀ step ∈ steps, ∀ i ∈ r.pieces, ¬ (i + step).AboveLow ⊥)
    (high : ∀ step ∈ steps, ∀ i ∈ r.pieces, ¬ (i + step).BelowHigh ⊤) :
    (shiftAll r steps acc).Finite := by
  induction steps generalizing acc with
  | nil => exact finite
  | cons first rest ih =>
      refine ih (normal_union acc (r.shift first)) ?_
        (fun step present => low step (List.mem_cons_of_mem first present))
        (fun step present => high step (List.mem_cons_of_mem first present))
      intro v member
      -- A sum of two pieces may be empty, so the union is known by the ends of its parts only.
      obtain ⟨⟨i, lowPiece, above⟩, ⟨j, highPiece, below⟩⟩ := exists_ends_of_mem_union member
      induction v using WithBotTop.rec with
      | coe x => exact ⟨x, rfl⟩
      | bot =>
          exfalso
          rcases List.mem_append.mp lowPiece with known | shifted
          · exact (finite.piece known).not_aboveLow_bot (normal.inhabited i known) above
          · obtain ⟨k, present, rfl⟩ := List.mem_map.mp shifted
            exact low first List.mem_cons_self k present above
      | top =>
          exfalso
          rcases List.mem_append.mp highPiece with known | shifted
          · exact (finite.piece known).not_belowHigh_top (normal.inhabited j known) below
          · obtain ⟨k, present, rfl⟩ := List.mem_map.mp shifted
            exact high first List.mem_cons_self k present below

end Steps

variable {r s : Region}

theorem normal_add (r s : Region) : (r + s).Normal := by
  rw [add_eq_shiftAll]
  exact normal_shiftAll r s.pieces normal_empty

theorem mem_add_of_inside {y z : ℚ} (first : (y : ExtRat) ∈ r) (second : (z : ExtRat) ∈ s)
    (inside : Count.Inside (y + z)) : ((y + z : ℚ) : ExtRat) ∈ r + s := by
  obtain ⟨i, left, inLeft⟩ := first
  obtain ⟨j, right, inRight⟩ := second
  rw [add_eq_shiftAll]
  apply mem_shiftAll_of_mem
  exact Or.inr ⟨j, right, (mem_shift_iff r j _).mpr
    ⟨i, left, Interval.mem_add_of_inside inLeft inRight inside⟩⟩

theorem finite_add (left : ∀ i ∈ r.pieces, i.isEmpty = false)
    (right : ∀ j ∈ s.pieces, j.isEmpty = false) (leftFinite : r.Finite)
    (rightFinite : s.Finite) : (r + s).Finite := by
  rw [add_eq_shiftAll]
  refine finite_shiftAll r s.pieces normal_empty (fun v member => absurd member (not_mem_empty v))
    ?_ ?_
  · intro j second i first
    exact Interval.not_aboveLow_bot_add
      ((leftFinite.piece first).not_aboveLow_bot (left i first))
      ((rightFinite.piece second).not_aboveLow_bot (right j second))
  · intro j second i first
    exact Interval.not_belowHigh_top_add
      ((leftFinite.piece first).not_belowHigh_top (left i first))
      ((rightFinite.piece second).not_belowHigh_top (right j second))

/-- No sum of two lower ends or of two upper ends saturates. -/
def Unsaturated (r s : Region) : Prop :=
  ∀ i ∈ r.pieces, ∀ j ∈ s.pieces, i.low.Unsaturated j.low ∧ i.high.Unsaturated j.high

instance (r s : Region) : Decidable (r.Unsaturated s) :=
  inferInstanceAs (Decidable (∀ i ∈ r.pieces, ∀ j ∈ s.pieces, _))

theorem mem_add_iff (left : ∀ i ∈ r.pieces, i.isEmpty = false)
    (right : ∀ j ∈ s.pieces, j.isEmpty = false) (leftFinite : r.Finite)
    (rightFinite : s.Finite) (fits : r.Unsaturated s) (x : ℚ) :
    (x : ExtRat) ∈ r + s ↔ ∃ y z : ℚ, (y : ExtRat) ∈ r ∧ (z : ExtRat) ∈ s ∧ x = y + z := by
  have pieces : ∀ i ∈ r.pieces, ∀ j ∈ s.pieces, ∀ x : ℚ, (x : ExtRat) ∈ i + j ↔
      ∃ y z : ℚ, (y : ExtRat) ∈ i ∧ (z : ExtRat) ∈ j ∧ x = y + z := by
    intro i first j second x
    exact Interval.mem_add_iff (left i first) (right j second)
      (leftFinite.piece first) (rightFinite.piece second) (fits i first j second).1
      (fits i first j second).2 x
  constructor
  · intro member
    have inhabited : ∀ j ∈ s.pieces, ∀ i ∈ r.pieces, (i + j).isEmpty = false := by
      intro j second i first
      obtain ⟨y, inLeft⟩ := (leftFinite.piece first).exists_mem (left i first)
      obtain ⟨z, inRight⟩ := (rightFinite.piece second).exists_mem (right j second)
      exact Interval.isEmpty_eq_false_of_mem
        ((pieces i first j second (y + z)).mpr ⟨y, z, inLeft, inRight, rfl⟩)
    rcases mem_of_mem_shiftAll r s.pieces normal_empty inhabited member with
      nothing | ⟨j, second, shifted⟩
    · exact absurd nothing (not_mem_empty _)
    · obtain ⟨i, first, sum⟩ := (mem_shift_iff r j _).mp shifted
      obtain ⟨y, z, inLeft, inRight, equal⟩ := (pieces i first j second x).mp sum
      exact ⟨y, z, ⟨i, first, inLeft⟩, ⟨j, second, inRight⟩, equal⟩
  · rintro ⟨y, z, ⟨i, first, inLeft⟩, ⟨j, second, inRight⟩, equal⟩
    rw [add_eq_shiftAll]
    apply mem_shiftAll_of_mem
    exact Or.inr ⟨j, second, (mem_shift_iff r j _).mpr
      ⟨i, first, (pieces i first j second x).mpr ⟨y, z, inLeft, inRight, equal⟩⟩⟩

/-- Every sum with a single step lies between the ends of shifted pieces, also if these saturate. -/
theorem exists_ends_of_mem_add {r : Region} {step : Interval} {v : ExtRat}
    (member : v ∈ r + ofInterval step) :
    (∃ i ∈ r.pieces, (i + step).AboveLow v) ∧ ∃ i ∈ r.pieces, (i + step).BelowHigh v := by
  have single : r + ofInterval step = empty.union (r.shift step) := rfl
  rw [single] at member
  obtain ⟨⟨low, lowPiece, above⟩, high, highPiece, below⟩ := exists_ends_of_mem_union member
  obtain ⟨i, first, rfl⟩ := List.mem_map.mp lowPiece
  obtain ⟨j, second, rfl⟩ := List.mem_map.mp highPiece
  exact ⟨⟨i, first, above⟩, j, second, below⟩

/-! ### What a sum is -/

theorem finite_of_openAtInfinity (opens : ∀ i ∈ r.pieces, i.OpenAtInfinity) : r.Finite := by
  rintro v ⟨i, piece, member⟩
  exact (opens i piece).finite v member

theorem add_normal_and_exact (inhabited : ∀ i ∈ r.pieces ++ s.pieces, i.isEmpty = false)
    (opens : ∀ i ∈ r.pieces ++ s.pieces, i.OpenAtInfinity) (fits : r.Unsaturated s) :
    (r + s).Normal ∧ (r + s).Finite ∧ ∀ x : ℚ, (x : ExtRat) ∈ r + s ↔
      ∃ y z : ℚ, (y : ExtRat) ∈ r ∧ (z : ExtRat) ∈ s ∧ x = y + z := by
  obtain ⟨left, right⟩ := List.forall_mem_append.mp inhabited
  obtain ⟨leftOpens, rightOpens⟩ := List.forall_mem_append.mp opens
  have leftFinite := finite_of_openAtInfinity leftOpens
  have rightFinite := finite_of_openAtInfinity rightOpens
  exact ⟨normal_add r s, finite_add left right leftFinite rightFinite,
    mem_add_iff left right leftFinite rightFinite fits⟩

/-- A half-open piece and a ray. -/
def ray : Region :=
  ⟨[⟨0, true, .finite (.clamp 1), false⟩, ⟨.finite (.clamp 3), true, .posInf, false⟩]⟩

/-- An open piece and, out of order, a point. -/
def jolts : Region :=
  ⟨[⟨.finite (.clamp 1), false, .finite (.clamp 2), false⟩, .point 0]⟩

theorem ray_add_jolts :
    ray + jolts = ⟨[⟨0, true, .finite (.clamp 1), false⟩,
        ⟨.finite (.clamp 1), false, .posInf, false⟩]⟩ ∧
      (ray + jolts).Normal ∧ ((3 / 2 : ℚ) : ExtRat) ∈ ray + jolts := by
  have fits : ray.Unsaturated jolts := by decide
  obtain ⟨normal, _, sums⟩ := add_normal_and_exact (by decide) (by decide) fits
  refine ⟨by decide, normal, (sums _).mpr ⟨1 / 4, 5 / 4, ?_, ?_, by norm_num⟩⟩
  · refine ⟨_, List.mem_cons_self, (Interval.aboveLow_finite_iff rfl _).mpr ?_,
      (Interval.belowHigh_finite_iff rfl _).mpr ?_⟩
    · norm_num [Count.toInt_zero]
    · norm_num [Count.toInt_clamp]
  · refine ⟨_, List.mem_cons_self, (Interval.aboveLow_finite_iff rfl _).mpr ?_,
      (Interval.belowHigh_finite_iff rfl _).mpr ?_⟩
    · norm_num [Count.toInt_clamp]
    · norm_num [Count.toInt_clamp]

end Region

end OneCounter
