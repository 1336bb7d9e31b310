import OneCounter.Proofs.Jumps

/-!
Reflection of regions at zero: values change their sign, and the ends of an interval their places.
The least counter value alone has no negative. Main statements: apart from it, reflection keeps
normal forms, and commutes with all that a round measures of a region.
-/

namespace OneCounter

/-! ### Values and bounds -/

namespace ExtRat

/-- The value on the other side of zero. -/
def reflect : ExtRat → ExtRat
  | ⊥ => ⊤
  | (x : ℚ) => ((-x : ℚ) : ExtRat)
  | ⊤ => ⊥

@[simp]
theorem reflect_coe (x : ℚ) : reflect (x : ExtRat) = ((-x : ℚ) : ExtRat) := rfl

@[simp]
theorem reflect_bot : reflect ⊥ = ⊤ := rfl

@[simp]
theorem reflect_top : reflect ⊤ = ⊥ := rfl

@[simp]
theorem reflect_reflect (v : ExtRat) : v.reflect.reflect = v := by
  induction v using WithBotTop.rec with
  | bot => rfl
  | coe x => rw [reflect_coe, reflect_coe, neg_neg]
  | top => rfl

theorem reflect_lt_reflect_iff (u v : ExtRat) : u.reflect < v.reflect ↔ v < u := by
  induction u using WithBotTop.rec with
  | bot => exact iff_of_false not_top_lt not_lt_bot
  | coe x =>
      induction v using WithBotTop.rec with
      | bot => exact iff_of_true (coe_lt_top _) (bot_lt_coe _)
      | coe y => simp
      | top => exact iff_of_false not_lt_bot not_top_lt
  | top =>
      induction v using WithBotTop.rec with
      | bot => exact iff_of_true bot_lt_top bot_lt_top
      | coe y => exact iff_of_true (bot_lt_coe _) (coe_lt_top _)
      | top => exact iff_of_false (lt_irrefl _) (lt_irrefl _)

theorem reflect_injective : Function.Injective reflect :=
  Function.LeftInverse.injective reflect_reflect

theorem reflect_lt_iff (u v : ExtRat) : u.reflect < v ↔ v.reflect < u := by
  rw [← reflect_lt_reflect_iff u v.reflect, reflect_reflect]

theorem lt_reflect_iff (u v : ExtRat) : u < v.reflect ↔ v < u.reflect := by
  rw [← reflect_lt_reflect_iff u.reflect v, reflect_reflect]

theorem reflect_le_iff (u v : ExtRat) : u.reflect ≤ v ↔ v.reflect ≤ u := by
  rw [← not_lt, ← not_lt, lt_reflect_iff]

theorem le_reflect_iff (u v : ExtRat) : u ≤ v.reflect ↔ v ≤ u.reflect := by
  rw [← not_lt, ← not_lt, reflect_lt_iff]

theorem reflect_eq_iff (u v : ExtRat) : u.reflect = v ↔ u = v.reflect := by
  rw [← reflect_injective.eq_iff, reflect_reflect]

end ExtRat

namespace Direction

def opposite : Direction → Direction
  | up => down
  | down => up

theorem opposite_opposite (direction : Direction) : direction.opposite.opposite = direction := by
  cases direction <;> rfl

theorem before_reflect_iff (direction : Direction) (u v : ExtRat) :
    direction.Before u.reflect v ↔ direction.opposite.Before u v.reflect := by
  cases direction with
  | up => exact ExtRat.reflect_le_iff u v
  | down => exact ExtRat.le_reflect_iff v u

end Direction

namespace Count

theorem toInt_neg_of_ne {c : Count} (h : c ≠ least) : (-c).toInt = -c.toInt := by
  have least_lt : c.toInt ≠ -9223372036854775808 := fun same => h (ext same)
  have := c.least_le
  have := c.le_greatest
  rw [toInt_neg, toInt_clamp]
  omega

theorem neg_ne_least (c : Count) : -c ≠ least := by
  intro same
  have equal : (-c).toInt = -9223372036854775808 := congrArg toInt same
  have := c.le_greatest
  rw [toInt_neg, toInt_clamp] at equal
  omega

theorem neg_neg_of_ne {c : Count} (h : c ≠ least) : - -c = c := by
  apply ext
  rw [toInt_neg_of_ne (neg_ne_least c), toInt_neg_of_ne h, neg_neg]

theorem ne_least_of_natAbs_le {c : Count} {n : Nat} (small : c.toInt.natAbs ≤ n)
    (bound : (n : Int) ≤ greatest.toInt) : c ≠ least := by
  rintro rfl
  change n ≤ (9223372036854775807 : Int) at bound
  change (-9223372036854775808 : Int).natAbs ≤ n at small
  omega

end Count

namespace Bound

/-- The negative of the bound is its reflection. -/
def Negatable (b : Bound) : Prop := b ≠ .finite .least

theorem neg_finite (c : Count) : -(finite c) = finite (-c) := rfl

theorem negatable_neg (b : Bound) : (-b).Negatable := by
  cases b with
  | negInf => exact Bound.noConfusion
  | finite c => exact fun same => c.neg_ne_least (Bound.finite.inj same)
  | posInf => exact Bound.noConfusion

theorem negatable_finite_iff (c : Count) : (finite c).Negatable ↔ c ≠ .least := by
  simp [Negatable]

theorem val_neg {b : Bound} (h : b.Negatable) : (-b).val = b.val.reflect := by
  cases b with
  | negInf => rfl
  | posInf => rfl
  | finite c =>
      rw [negatable_finite_iff] at h
      rw [neg_finite, val_finite, val_finite, Count.toInt_neg_of_ne h, Int.cast_neg,
        ExtRat.reflect_coe]

theorem neg_neg_of_negatable {b : Bound} (h : b.Negatable) : - -b = b := by
  rw [eq_iff_val, val_neg (negatable_neg b), val_neg h, ExtRat.reflect_reflect]

theorem neg_lt_neg_iff {a b : Bound} (ha : a.Negatable) (hb : b.Negatable) : -a < -b ↔ b < a := by
  rw [lt_iff_val, val_neg ha, val_neg hb, ExtRat.reflect_lt_reflect_iff, lt_iff_val]

theorem neg_eq_neg_iff {a b : Bound} (ha : a.Negatable) (hb : b.Negatable) : -a = -b ↔ a = b := by
  rw [eq_iff_val, val_neg ha, val_neg hb, ExtRat.reflect_injective.eq_iff, eq_iff_val]

theorem neg_sub_neg {a b : Bound} (ha : a.Negatable) (hb : b.Negatable) : -a - -b = b - a := by
  cases a with
  | negInf => cases b <;> rfl
  | posInf => cases b <;> rfl
  | finite x =>
      cases b with
      | negInf => rfl
      | posInf => rfl
      | finite y =>
          rw [negatable_finite_iff] at ha hb
          change finite (-x - -y) = finite (y - x)
          congr 1
          apply Count.ext
          rw [Count.toInt_sub, Count.toInt_sub, Count.toInt_neg_of_ne ha, Count.toInt_neg_of_ne hb]
          congr 2
          omega

/-- Differences of bounds in order are no negative numbers, even if they saturate. -/
theorem sub_nonneg {a b : Bound} (ordered : a ≤ b) : 0 ≤ b - a := by
  cases a with
  | negInf =>
      cases b with
      | negInf => decide
      | finite y => exact not_false
      | posInf => exact not_false
  | posInf =>
      cases b with
      | negInf => exact absurd trivial ordered
      | finite y => exact absurd trivial ordered
      | posInf => decide
  | finite x =>
      cases b with
      | negInf => exact absurd trivial ordered
      | posInf => exact not_false
      | finite y =>
          have less : ¬ y.toInt < x.toInt := ordered
          change ¬ (y - x).toInt < 0
          rw [Count.toInt_sub, Count.toInt_clamp]
          omega

/-- Nothing is lost by the order of additions as long as they saturate on one side only. -/
theorem add_right_comm_of_nonneg {b c : Bound} (hb : 0 ≤ b) (hc : 0 ≤ c) (total : Bound) :
    total + b + c = total + c + b := by
  cases b with
  | negInf => exact absurd trivial hb
  | posInf => cases total <;> cases c <;> rfl
  | finite x =>
      cases c with
      | negInf => exact absurd trivial hc
      | posInf => cases total <;> rfl
      | finite y =>
          cases total with
          | negInf => rfl
          | posInf => rfl
          | finite t =>
              have left : ¬ x.toInt < 0 := hb
              have right : ¬ y.toInt < 0 := hc
              have := t.least_le
              change finite (t + x + y) = finite (t + y + x)
              congr 1
              apply Count.ext
              simp only [Count.toInt_add, Count.toInt_clamp]
              omega

end Bound

/-! ### Intervals and regions -/

namespace Interval

def reflect (i : Interval) : Interval := ⟨-i.high, i.highClosed, -i.low, i.lowClosed⟩

def Negatable (i : Interval) : Prop := i.low.Negatable ∧ i.high.Negatable

variable {i j : Interval}

theorem aboveLow_reflect_iff (h : i.Negatable) (v : ExtRat) :
    i.reflect.AboveLow v ↔ i.BelowHigh v.reflect := by
  rw [AboveLow, BelowHigh, reflect, Bound.val_neg h.2, ExtRat.reflect_lt_iff,
    ExtRat.reflect_eq_iff, eq_comm]

theorem belowHigh_reflect_iff (h : i.Negatable) (v : ExtRat) :
    i.reflect.BelowHigh v ↔ i.AboveLow v.reflect := by
  rw [AboveLow, BelowHigh, reflect, Bound.val_neg h.1, ExtRat.lt_reflect_iff,
    ← ExtRat.reflect_eq_iff, eq_comm]

theorem mem_reflect_iff (h : i.Negatable) (v : ExtRat) : v ∈ i.reflect ↔ v.reflect ∈ i := by
  rw [mem_iff, mem_iff, aboveLow_reflect_iff h, belowHigh_reflect_iff h, and_comm]

theorem negatable_reflect (i : Interval) : i.reflect.Negatable :=
  ⟨Bound.negatable_neg i.high, Bound.negatable_neg i.low⟩

theorem reflect_reflect (h : i.Negatable) : i.reflect.reflect = i := by
  simp only [reflect, Bound.neg_neg_of_negatable h.1, Bound.neg_neg_of_negatable h.2]

theorem isEmpty_reflect (h : i.Negatable) : i.reflect.isEmpty = i.isEmpty := by
  simp only [isEmpty, reflect, Bound.neg_lt_neg_iff h.1 h.2, Bound.neg_eq_neg_iff h.2 h.1,
    eq_comm (a := i.high), Bool.and_comm (x := i.highClosed)]

theorem covers_reflect (hi : i.Negatable) (hj : j.Negatable) :
    i.reflect.covers j.reflect = i.covers j := by
  simp only [covers, reflect, Bound.neg_lt_neg_iff hi.2 hj.2, Bound.neg_lt_neg_iff hj.1 hi.1,
    Bound.neg_eq_neg_iff hi.2 hj.2, Bound.neg_eq_neg_iff hj.1 hi.1, eq_comm (a := i.high),
    eq_comm (a := j.low)]
  exact Bool.and_comm _ _

theorem width_reflect (h : i.Negatable) : i.reflect.width = i.width :=
  Bound.neg_sub_neg h.1 h.2

theorem openEnds_reflect (i : Interval) : i.reflect.openEnds = i.openEnds :=
  Nat.add_comm _ _

theorem Apart.reflect (apart : i.Apart j) (hi : i.Negatable) (hj : j.Negatable) :
    j.reflect.Apart i.reflect := by
  rcases apart with less | ⟨same, highOpen, lowOpen⟩
  · exact Or.inl ((Bound.neg_lt_neg_iff hj.1 hi.2).mpr less)
  · exact Or.inr ⟨(Bound.neg_eq_neg_iff hj.1 hi.2).mpr same.symm, lowOpen, highOpen⟩

/-- The width of an interval that is not empty is no negative number, so that sums of widths
saturate on one side only. -/
theorem width_nonneg (inhabited : i.isEmpty = false) : 0 ≤ i.width := by
  have ordered : i.low ≤ i.high := by
    rw [Bound.le_iff_val]
    rcases (isEmpty_eq_false_iff i).mp inhabited with less | ⟨same, _⟩
    · exact less.le
    · exact same.le
  rw [width]
  exact Bound.sub_nonneg ordered

end Interval

namespace Region

/-- The pieces change their order as well. -/
def reflect (r : Region) : Region := ⟨(r.pieces.map Interval.reflect).reverse⟩

/-- A region in normal form, none of whose ends is the least counter value. -/
structure Reflectable (r : Region) : Prop where
  normal : r.Normal
  negatable : ∀ i ∈ r.pieces, i.Negatable

variable {r before : Region}

theorem mem_pieces_reflect_iff (r : Region) (i : Interval) :
    i ∈ r.reflect.pieces ↔ ∃ j ∈ r.pieces, j.reflect = i := by
  simp [reflect]

theorem mem_reflect_iff (h : r.Reflectable) (v : ExtRat) : v ∈ r.reflect ↔ v.reflect ∈ r := by
  simp only [mem_iff, mem_pieces_reflect_iff]
  constructor
  · rintro ⟨_, ⟨j, piece, rfl⟩, member⟩
    exact ⟨j, piece, (Interval.mem_reflect_iff (h.negatable j piece) v).mp member⟩
  · rintro ⟨j, piece, member⟩
    exact ⟨_, ⟨j, piece, rfl⟩, (Interval.mem_reflect_iff (h.negatable j piece) v).mpr member⟩

theorem Reflectable.reflect (h : r.Reflectable) : r.reflect.Reflectable := by
  refine ⟨⟨?_, ?_⟩, ?_⟩
  · intro i piece
    obtain ⟨j, there, rfl⟩ := (mem_pieces_reflect_iff r i).mp piece
    rw [Interval.isEmpty_reflect (h.negatable j there)]
    exact h.normal.inhabited j there
  · rw [Region.reflect, List.pairwise_reverse, List.pairwise_map]
    exact h.normal.apart.imp_of_mem fun first second apart =>
      apart.reflect (h.negatable _ first) (h.negatable _ second)
  · intro i piece
    obtain ⟨j, _, rfl⟩ := (mem_pieces_reflect_iff r i).mp piece
    exact j.negatable_reflect

theorem reflect_reflect (h : r.Reflectable) : r.reflect.reflect = r := by
  obtain ⟨pieces⟩ := r
  have each : ∀ i ∈ pieces, (Interval.reflect ∘ Interval.reflect) i = id i := fun i piece =>
    Interval.reflect_reflect (h.negatable i piece)
  simp only [reflect, List.map_reverse, List.reverse_reverse, List.map_map]
  rw [List.map_congr_left each, List.map_id]

theorem isEmpty_reflect (h : r.Reflectable) : r.reflect.isEmpty = r.isEmpty := by
  rw [Bool.eq_iff_iff, isEmpty_eq_true_iff, isEmpty_eq_true_iff]
  constructor
  · intro none v member
    exact none v.reflect ((mem_reflect_iff h _).mpr (by rwa [ExtRat.reflect_reflect]))
  · intro none v member
    exact none v.reflect ((mem_reflect_iff h v).mp member)

theorem foldl_reflect {α : Type} (f : α → Interval → α) (start : α)
    (same : ∀ i ∈ r.pieces, ∀ total, f total i.reflect = f total i)
    (swap : ∀ i ∈ r.pieces, ∀ j ∈ r.pieces, ∀ total, f (f total i) j = f (f total j) i) :
    r.reflect.pieces.foldl f start = r.pieces.foldl f start := by
  have reversed : (r.pieces.reverse).foldl f start = r.pieces.foldl f start := by
    refine (List.reverse_perm r.pieces).foldl_eq' ?_ start
    intro i first j second total
    exact swap i (List.mem_reverse.mp first) j (List.mem_reverse.mp second) total
  rw [reflect, ← List.map_reverse, List.foldl_map, ← reversed]
  apply List.foldl_ext
  intro total i piece
  exact same i (List.mem_reverse.mp piece) total

theorem width_reflect (h : r.Reflectable) : r.reflect.width = r.width := by
  apply foldl_reflect
  · intro i piece total
    rw [Interval.width_reflect (h.negatable i piece)]
  · intro i first j second total
    exact Bound.add_right_comm_of_nonneg (Interval.width_nonneg (h.normal.inhabited i first))
      (Interval.width_nonneg (h.normal.inhabited j second)) total

theorem openEnds_reflect (r : Region) : r.reflect.openEnds = r.openEnds := by
  apply foldl_reflect
  · intro i _ total
    rw [Interval.openEnds_reflect]
  · intro i _ j _ total
    exact Nat.add_right_comm total _ _

theorem expands_reflect (h : r.Reflectable) (hb : before.Reflectable) :
    r.reflect.expands before.reflect = r.expands before := by
  have smaller : r.reflect.isSmallerThan before.reflect = r.isSmallerThan before := by
    simp only [isSmallerThan, width_reflect h, width_reflect hb, openEnds_reflect]
  have covered : (before.reflect.pieces.all fun old => r.reflect.pieces.any (·.covers old)) =
      before.pieces.all fun old => r.pieces.any (·.covers old) := by
    rw [Bool.eq_iff_iff]
    simp only [List.all_eq_true, List.any_eq_true, mem_pieces_reflect_iff]
    constructor
    · intro all old piece
      obtain ⟨_, ⟨new, there, rfl⟩, covers⟩ := all old.reflect ⟨old, piece, rfl⟩
      rw [Interval.covers_reflect (h.negatable new there) (hb.negatable old piece)] at covers
      exact ⟨new, there, covers⟩
    · rintro all _ ⟨old, piece, rfl⟩
      obtain ⟨new, there, covers⟩ := all old piece
      refine ⟨new.reflect, ⟨new, there, rfl⟩, ?_⟩
      rw [Interval.covers_reflect (h.negatable new there) (hb.negatable old piece)]
      exact covers
  rw [expands, smaller, covered, expands]

theorem extendsAbove_reflect (h : r.Reflectable) (hb : before.Reflectable) :
    r.reflect.extendsAbove before.reflect = r.extendsBelow before := by
  simp only [extendsAbove, extendsBelow, reflect, List.getLast?_reverse, List.head?_map]
  cases new : r.pieces.head? with
  | none => rfl
  | some i =>
      cases old : before.pieces.head? with
      | none => rfl
      | some j =>
          have hi := h.negatable i (List.mem_of_head? new)
          have hj := hb.negatable j (List.mem_of_head? old)
          simp [Interval.reflect, Bound.neg_lt_neg_iff hj.1 hi.1, Bound.neg_eq_neg_iff hi.1 hj.1]

theorem extendsBelow_reflect (h : r.Reflectable) (hb : before.Reflectable) :
    r.reflect.extendsBelow before.reflect = r.extendsAbove before := by
  rw [← extendsAbove_reflect h.reflect hb.reflect, reflect_reflect h, reflect_reflect hb]

end Region

end OneCounter
