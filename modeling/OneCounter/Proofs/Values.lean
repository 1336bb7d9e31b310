import Mathlib
import OneCounter.Region

/-!
What bounds, intervals and regions mean. The counter is read over the rational numbers with an
infinity on either side of them. Comparing bounds is comparing what they stand for, an interval
holds the values between its ends, and a region those of its pieces.
-/

namespace OneCounter

/-- Rational counter values and the two infinities. -/
abbrev ExtRat := WithBotTop ℚ

namespace ExtRat

theorem bot_lt_coe (x : ℚ) : (⊥ : ExtRat) < x := bot_lt_iff_ne_bot.mpr (WithBotTop.coe_ne_bot x)

theorem coe_lt_top (x : ℚ) : (x : ExtRat) < ⊤ := lt_top_iff_ne_top.mpr (WithBotTop.coe_ne_top x)

theorem eq_coe_of_lt_of_lt {a b v : ExtRat} (above : a < v) (below : v < b) :
    ∃ x : ℚ, v = x := by
  induction v using WithBotTop.rec with
  | bot => exact absurd above not_lt_bot
  | coe x => exact ⟨x, rfl⟩
  | top => exact absurd below not_top_lt

end ExtRat

namespace Bound

def val : Bound → ExtRat
  | negInf => ⊥
  | finite a => ((a.toInt : ℚ) : ExtRat)
  | posInf => ⊤

@[simp]
theorem val_negInf : negInf.val = ⊥ := rfl

@[simp]
theorem val_finite (a : Count) : (finite a).val = ((a.toInt : ℚ) : ExtRat) := rfl

@[simp]
theorem val_posInf : posInf.val = ⊤ := rfl

theorem lt_iff_val (a b : Bound) : a < b ↔ a.val < b.val := by
  cases a with
  | negInf =>
      cases b with
      | negInf => exact ⟨False.elim, fun less => absurd less (lt_irrefl _)⟩
      | finite b => exact ⟨fun _ => ExtRat.bot_lt_coe _, fun _ => trivial⟩
      | posInf => exact ⟨fun _ => bot_lt_top, fun _ => trivial⟩
  | finite a =>
      cases b with
      | negInf => exact ⟨False.elim, fun less => absurd less not_lt_bot⟩
      | finite b =>
          change a.toInt < b.toInt ↔ _
          simp
      | posInf => exact ⟨fun _ => ExtRat.coe_lt_top _, fun _ => trivial⟩
  | posInf =>
      cases b with
      | negInf => exact ⟨False.elim, fun less => absurd less not_lt_bot⟩
      | finite b => exact ⟨False.elim, fun less => absurd less not_top_lt⟩
      | posInf => exact ⟨False.elim, fun less => absurd less (lt_irrefl _)⟩

theorem le_iff_val (a b : Bound) : a ≤ b ↔ a.val ≤ b.val := by
  change ¬ b < a ↔ _
  rw [lt_iff_val, not_lt]

theorem val_injective : Function.Injective val := by
  intro a b same
  cases a with
  | negInf =>
      cases b with
      | negInf => rfl
      | finite b => exact absurd same.symm (WithBotTop.coe_ne_bot _)
      | posInf => exact absurd same bot_ne_top
  | finite a =>
      cases b with
      | negInf => exact absurd same (WithBotTop.coe_ne_bot _)
      | finite b =>
          have equal : a.toInt = b.toInt := by exact_mod_cast WithBotTop.coe_injective same
          rw [Count.ext equal]
      | posInf => exact absurd same (WithBotTop.coe_ne_top _)
  | posInf =>
      cases b with
      | negInf => exact absurd same top_ne_bot
      | finite b => exact absurd same.symm (WithBotTop.coe_ne_top _)
      | posInf => rfl

theorem eq_iff_val (a b : Bound) : a = b ↔ a.val = b.val :=
  val_injective.eq_iff.symm

end Bound

namespace Interval

/-- The value lies on the inner side of the lower end. -/
def AboveLow (i : Interval) (v : ExtRat) : Prop :=
  i.low.val < v ∨ (i.low.val = v ∧ i.lowClosed = true)

/-- The value lies on the inner side of the upper end. -/
def BelowHigh (i : Interval) (v : ExtRat) : Prop :=
  v < i.high.val ∨ (v = i.high.val ∧ i.highClosed = true)

instance : Membership ExtRat Interval := ⟨fun i v => i.AboveLow v ∧ i.BelowHigh v⟩

theorem mem_iff (i : Interval) (v : ExtRat) : v ∈ i ↔ i.AboveLow v ∧ i.BelowHigh v := Iff.rfl

theorem contains_iff (i : Interval) (value : Bound) :
    i.contains value = true ↔ value.val ∈ i := by
  simp [contains, mem_iff, AboveLow, BelowHigh, Bound.lt_iff_val, Bound.eq_iff_val]

theorem low_le_of_mem {i : Interval} {v : ExtRat} (member : v ∈ i) : i.low.val ≤ v := by
  rcases member.1 with less | ⟨same, _⟩
  · exact less.le
  · exact same.le

theorem le_high_of_mem {i : Interval} {v : ExtRat} (member : v ∈ i) : v ≤ i.high.val := by
  rcases member.2 with less | ⟨same, _⟩
  · exact less.le
  · exact same.le

theorem mem_of_lt_of_lt {i : Interval} {v : ExtRat} (above : i.low.val < v)
    (below : v < i.high.val) : v ∈ i :=
  ⟨Or.inl above, Or.inl below⟩

/-- Intervals have no gaps. -/
theorem mem_of_le_of_le {i : Interval} {u v w : ExtRat} (first : u ∈ i) (last : w ∈ i)
    (above : u ≤ v) (below : v ≤ w) : v ∈ i := by
  obtain ⟨aboveLow, _⟩ := first
  obtain ⟨_, belowHigh⟩ := last
  simp only [mem_iff, AboveLow, BelowHigh] at *
  grind

theorem isEmpty_eq_false_iff (i : Interval) :
    i.isEmpty = false ↔ i.low.val < i.high.val ∨
      (i.low.val = i.high.val ∧ i.lowClosed = true ∧ i.highClosed = true) := by
  simp only [isEmpty, Bool.or_eq_false_iff, Bool.and_eq_false_iff, decide_eq_false_iff_not,
    Bool.not_eq_false', Bool.and_eq_true, Bound.lt_iff_val, Bound.eq_iff_val]
  grind

theorem low_mem {i : Interval} (inhabited : i.isEmpty = false) (closed : i.lowClosed = true) :
    i.low.val ∈ i := by
  refine ⟨Or.inr ⟨rfl, closed⟩, ?_⟩
  rcases (isEmpty_eq_false_iff i).mp inhabited with less | ⟨same, _, highClosed⟩
  · exact Or.inl less
  · exact Or.inr ⟨same, highClosed⟩

theorem high_mem {i : Interval} (inhabited : i.isEmpty = false) (closed : i.highClosed = true) :
    i.high.val ∈ i := by
  refine ⟨?_, Or.inr ⟨rfl, closed⟩⟩
  rcases (isEmpty_eq_false_iff i).mp inhabited with less | ⟨same, lowClosed, _⟩
  · exact Or.inl less
  · exact Or.inr ⟨same, lowClosed⟩

/-- The lower end is approached from within. -/
theorem exists_mem_lt {i : Interval} (inhabited : i.isEmpty = false) {w : ExtRat}
    (above : i.low.val < w) : ∃ v ∈ i, v < w := by
  by_cases closed : i.lowClosed = true
  · exact ⟨i.low.val, low_mem inhabited closed, above⟩
  · have less : i.low.val < i.high.val := by
      rcases (isEmpty_eq_false_iff i).mp inhabited with less | ⟨_, lowClosed, _⟩
      · exact less
      · exact absurd lowClosed closed
    obtain ⟨v, afterLow, beforeBoth⟩ := exists_between (lt_min above less)
    exact ⟨v, mem_of_lt_of_lt afterLow (beforeBoth.trans_le (min_le_right _ _)),
      beforeBoth.trans_le (min_le_left _ _)⟩

/-- The upper end is approached from within. -/
theorem exists_mem_gt {i : Interval} (inhabited : i.isEmpty = false) {w : ExtRat}
    (below : w < i.high.val) : ∃ v ∈ i, w < v := by
  by_cases closed : i.highClosed = true
  · exact ⟨i.high.val, high_mem inhabited closed, below⟩
  · have less : i.low.val < i.high.val := by
      rcases (isEmpty_eq_false_iff i).mp inhabited with less | ⟨_, _, highClosed⟩
      · exact less
      · exact absurd highClosed closed
    obtain ⟨v, afterBoth, beforeHigh⟩ := exists_between (max_lt below less)
    exact ⟨v, mem_of_lt_of_lt ((le_max_right _ _).trans_lt afterBoth) beforeHigh,
      (le_max_left _ _).trans_lt afterBoth⟩

theorem isEmpty_eq_true_iff (i : Interval) : i.isEmpty = true ↔ ∀ v : ExtRat, v ∉ i := by
  constructor
  · intro empty v member
    have inhabited : i.isEmpty = false := by
      rw [isEmpty_eq_false_iff]
      obtain ⟨aboveLow, belowHigh⟩ := member
      simp only [AboveLow, BelowHigh] at aboveLow belowHigh
      grind
    rw [inhabited] at empty
    exact Bool.false_ne_true empty
  · intro none
    by_contra inhabited
    rw [Bool.not_eq_true] at inhabited
    rcases (isEmpty_eq_false_iff i).mp inhabited with less | ⟨_, lowClosed, _⟩
    · obtain ⟨v, above, below⟩ := exists_between less
      exact none v (mem_of_lt_of_lt above below)
    · exact none _ (low_mem inhabited lowClosed)

theorem exists_mem {i : Interval} (inhabited : i.isEmpty = false) : ∃ v : ExtRat, v ∈ i := by
  by_contra none
  have empty := (isEmpty_eq_true_iff i).mpr fun v member => none ⟨v, member⟩
  rw [inhabited] at empty
  exact Bool.false_ne_true empty

theorem isEmpty_eq_false_of_mem {i : Interval} {v : ExtRat} (member : v ∈ i) :
    i.isEmpty = false := by
  by_contra empty
  rw [Bool.not_eq_false] at empty
  exact (isEmpty_eq_true_iff i).mp empty v member

theorem le_low_of_forall_le {i : Interval} (inhabited : i.isEmpty = false) {w : ExtRat}
    (below : ∀ v ∈ i, w ≤ v) : w ≤ i.low.val := by
  by_contra above
  obtain ⟨v, member, less⟩ := exists_mem_lt inhabited (not_le.mp above)
  exact absurd (below v member) (not_le.mpr less)

theorem high_le_of_forall_le {i : Interval} (inhabited : i.isEmpty = false) {w : ExtRat}
    (above : ∀ v ∈ i, v ≤ w) : i.high.val ≤ w := by
  by_contra below
  obtain ⟨v, member, greater⟩ := exists_mem_gt inhabited (not_le.mp below)
  exact absurd (above v member) (not_le.mpr greater)

theorem covers_iff (i inner : Interval) :
    i.covers inner = true ↔
      (i.low.val < inner.low.val ∨
        (i.low.val = inner.low.val ∧ (i.lowClosed = true ∨ inner.lowClosed = false))) ∧
      (inner.high.val < i.high.val ∨
        (inner.high.val = i.high.val ∧ (i.highClosed = true ∨ inner.highClosed = false))) := by
  simp [covers, Bound.lt_iff_val, Bound.eq_iff_val]

end Interval

namespace Region

instance : Membership ExtRat Region := ⟨fun r v => ∃ i ∈ r.pieces, v ∈ i⟩

theorem mem_iff (r : Region) (v : ExtRat) : v ∈ r ↔ ∃ i ∈ r.pieces, v ∈ i := Iff.rfl

theorem contains_iff (r : Region) (value : Bound) :
    r.contains value = true ↔ value.val ∈ r := by
  simp [contains, mem_iff, Interval.contains_iff]

theorem isEmpty_eq_true_iff (r : Region) : r.isEmpty = true ↔ ∀ v : ExtRat, v ∉ r := by
  simp only [isEmpty, List.all_eq_true, Interval.isEmpty_eq_true_iff, mem_iff]
  constructor
  · rintro empty v ⟨i, piece, member⟩
    exact empty i piece v member
  · intro none i piece v member
    exact none v ⟨i, piece, member⟩

theorem exists_mem {r : Region} (inhabited : r.isEmpty = false) : ∃ v : ExtRat, v ∈ r := by
  by_contra none
  have empty := (isEmpty_eq_true_iff r).mpr fun v member => none ⟨v, member⟩
  rw [inhabited] at empty
  exact Bool.false_ne_true empty

theorem isEmpty_eq_false_of_mem {r : Region} {v : ExtRat} (member : v ∈ r) :
    r.isEmpty = false := by
  by_contra empty
  rw [Bool.not_eq_false] at empty
  exact (isEmpty_eq_true_iff r).mp empty v member

@[simp]
theorem not_mem_empty (v : ExtRat) : v ∉ empty := by
  simp [mem_iff, empty]

theorem mem_ofInterval_iff (i : Interval) (v : ExtRat) : v ∈ ofInterval i ↔ v ∈ i := by
  simp [mem_iff, ofInterval]

theorem mem_point_iff (value : Bound) (v : ExtRat) : v ∈ point value ↔ v = value.val := by
  simp only [point, ofInterval, mem_iff, List.mem_singleton, exists_eq_left, Interval.mem_iff,
    Interval.point, Interval.AboveLow, Interval.BelowHigh]
  grind

theorem mem_clean_iff (r : Region) (v : ExtRat) : v ∈ r.clean ↔ v ∈ r := by
  simp only [mem_iff, clean, List.mem_filter]
  constructor
  · rintro ⟨i, ⟨piece, _⟩, member⟩
    exact ⟨i, piece, member⟩
  · rintro ⟨i, piece, member⟩
    exact ⟨i, ⟨piece, by simp [Interval.isEmpty_eq_false_of_mem member]⟩, member⟩

end Region

end OneCounter
