import OneCounter.Proofs.Exactness
import OneCounter.Proofs.Jumps

/-!
How far out the ends of regions lie. Beyond some radius a region holds all numbers of a side or
none of them, and then its ends lie within the radius. Main statement: a round widens the radius
by no more than the largest change along an edge, also if loops are accelerated in it.
-/

namespace OneCounter

/-- Both numbers are beyond the radius, on the same side of zero. -/
def SameSide (radius : Nat) (x y : ℚ) : Prop :=
  ((radius : ℚ) < x ∧ (radius : ℚ) < y) ∨ (x < -(radius : ℚ) ∧ y < -(radius : ℚ))

/-- Beyond the radius, what holds of one number holds of all on its side. -/
def Settled (radius : Nat) (holds : ℚ → Prop) : Prop :=
  ∀ x y, SameSide radius x y → holds x → holds y

namespace SameSide

variable {radius : Nat} {x y : ℚ}

theorem mono {larger : Nat} (le : radius ≤ larger) (side : SameSide larger x y) :
    SameSide radius x y := by
  have wider : (radius : ℚ) ≤ larger := by exact_mod_cast le
  rcases side with ⟨left, right⟩ | ⟨left, right⟩
  · exact Or.inl ⟨wider.trans_lt left, wider.trans_lt right⟩
  · exact Or.inr ⟨by linarith, by linarith⟩

theorem symm (side : SameSide radius x y) : SameSide radius y x :=
  side.imp And.symm And.symm

/-- There is room on the side both below and above a number. -/
theorem exists_around (side : SameSide radius x y) :
    ∃ a b, a < y ∧ y < b ∧ SameSide radius x a ∧ SameSide radius x b := by
  rcases side with ⟨left, right⟩ | ⟨left, right⟩
  · refine ⟨(radius + y) / 2, y + 1, ?_, ?_, Or.inl ⟨left, ?_⟩, Or.inl ⟨left, ?_⟩⟩ <;> linarith
  · refine ⟨y - 1, (y - radius) / 2, ?_, ?_, Or.inr ⟨left, ?_⟩, Or.inr ⟨left, ?_⟩⟩ <;> linarith

/-- A number between two on the same side is on that side too. -/
theorem of_between (side : SameSide radius x y) {z : ℚ} (between : (x ≤ z ∧ z ≤ y) ∨ (y ≤ z ∧ z ≤ x)) :
    SameSide radius z y := by
  rcases side with ⟨left, right⟩ | ⟨left, right⟩
  · refine Or.inl ⟨?_, right⟩
    rcases between with ⟨low, _⟩ | ⟨low, _⟩ <;> linarith
  · refine Or.inr ⟨?_, right⟩
    rcases between with ⟨_, high⟩ | ⟨_, high⟩ <;> linarith

/-- Taking a step that is not too large away from both numbers leaves them on their side. -/
theorem sub {step : Nat} (side : SameSide (radius + step) x y) {t : ℚ} (small : |t| ≤ step) :
    SameSide radius (x - t) (y - t) := by
  rw [SameSide, Nat.cast_add] at side
  obtain ⟨low, high⟩ := abs_le.mp small
  rcases side with ⟨left, right⟩ | ⟨left, right⟩
  · exact Or.inl ⟨by linarith, by linarith⟩
  · exact Or.inr ⟨by linarith, by linarith⟩

theorem ne_of_natAbs_le (side : SameSide radius x y) {c : Int} (small : c.natAbs ≤ radius) :
    x ≠ c := by
  have near : |(c : ℚ)| ≤ radius := by
    rw [← Int.cast_abs, Int.abs_eq_natAbs]
    exact_mod_cast small
  obtain ⟨low, high⟩ := abs_le.mp near
  rintro rfl
  rcases side with ⟨left, _⟩ | ⟨left, _⟩ <;> linarith

end SameSide

/-! ### The ends of a settled region -/

namespace Region

variable {r : Region} {i : Interval} {radius : Nat}

/-- A piece with a value beyond the radius holds all numbers on that side. -/
theorem Normal.mem_of_sameSide (normal : r.Normal)
    (settled : Settled radius fun x => (x : ExtRat) ∈ r) (piece : i ∈ r.pieces) {x y : ℚ}
    (side : SameSide radius x y) (start : (x : ExtRat) ∈ i) : (y : ExtRat) ∈ i := by
  apply normal.mem_of_held piece start
  intro v between
  obtain ⟨z, rfl⟩ : ∃ z : ℚ, v = z := by
    rcases between with ⟨low, high⟩ | ⟨low, high⟩
    · exact ExtRat.eq_coe_of_lt_of_lt ((ExtRat.bot_lt_coe x).trans_le low)
        (high.trans_lt (ExtRat.coe_lt_top y))
    · exact ExtRat.eq_coe_of_lt_of_lt ((ExtRat.bot_lt_coe y).trans_le low)
        (high.trans_lt (ExtRat.coe_lt_top x))
  simp only [WithBotTop.coe_le_coe] at between
  exact settled x z (side.symm.of_between between.symm).symm ⟨i, piece, start⟩

/-- A number beyond the radius that a piece reaches is no end of it, since the numbers around it are
on the same side. -/
theorem Normal.interior_of_far (normal : r.Normal) (finite : r.Finite)
    (settled : Settled radius fun x => (x : ExtRat) ∈ r) (piece : i ∈ r.pieces) {c : ℚ}
    (low : i.low.val ≤ c) (high : (c : ExtRat) ≤ i.high.val) (far : SameSide radius c c) :
    i.low.val < c ∧ (c : ExtRat) < i.high.val := by
  have inhabited := normal.inhabited i piece
  obtain ⟨x, start, side⟩ : ∃ x : ℚ, (x : ExtRat) ∈ i ∧ SameSide radius x c := by
    rcases far with ⟨up, _⟩ | ⟨down, _⟩
    · obtain ⟨v, member, beyond⟩ := Interval.exists_mem_gt inhabited
        ((WithBotTop.coe_lt_coe.mpr up).trans_le high)
      obtain ⟨x, rfl⟩ := finite.piece piece v member
      exact ⟨x, member, Or.inl ⟨WithBotTop.coe_lt_coe.mp beyond, up⟩⟩
    · obtain ⟨v, member, beyond⟩ := Interval.exists_mem_lt inhabited
        (low.trans_lt (WithBotTop.coe_lt_coe.mpr down))
      obtain ⟨x, rfl⟩ := finite.piece piece v member
      exact ⟨x, member, Or.inr ⟨WithBotTop.coe_lt_coe.mp beyond, down⟩⟩
  obtain ⟨a, b, below, above, left, right⟩ := side.exists_around
  have lowest := Interval.low_le_of_mem (normal.mem_of_sameSide settled piece left start)
  have highest := Interval.le_high_of_mem (normal.mem_of_sameSide settled piece right start)
  exact ⟨lowest.trans_lt (WithBotTop.coe_lt_coe.mpr below),
    (WithBotTop.coe_lt_coe.mpr above).trans_le highest⟩

/-- The finite ends of the pieces lie within the radius. -/
theorem Normal.ends_near (normal : r.Normal) (finite : r.Finite)
    (settled : Settled radius fun x => (x : ExtRat) ∈ r) (piece : i ∈ r.pieces) {c : Count}
    (ends : i.low = .finite c ∨ i.high = .finite c) : c.toInt.natAbs ≤ radius := by
  have ordered : i.low.val ≤ i.high.val := by
    obtain ⟨v, member⟩ := Interval.exists_mem (normal.inhabited i piece)
    exact (Interval.low_le_of_mem member).trans (Interval.le_high_of_mem member)
  by_contra near
  have far : SameSide radius (c.toInt : ℚ) c.toInt := by
    rcases (by omega : (radius : Int) < c.toInt ∨ c.toInt < -(radius : Int)) with up | down
    · have right : (radius : ℚ) < c.toInt := by exact_mod_cast up
      exact Or.inl ⟨right, right⟩
    · have left : (c.toInt : ℚ) < -(radius : ℚ) := by exact_mod_cast down
      exact Or.inr ⟨left, left⟩
  rcases ends with low | high
  · have value : i.low.val = ((c.toInt : ℚ) : ExtRat) := by rw [low, Bound.val_finite]
    have inner := normal.interior_of_far finite settled piece value.le (value ▸ ordered) far
    exact absurd value inner.1.ne
  · have value : i.high.val = ((c.toInt : ℚ) : ExtRat) := by rw [high, Bound.val_finite]
    have inner := normal.interior_of_far finite settled piece (value ▸ ordered) value.ge far
    exact absurd value.symm inner.2.ne

end Region

/-- There is room for one more change if the ends have stayed within a radius. -/
theorem Edge.roomy_of_settled {edge : Edge} {values : Region} {radius : Nat}
    (normal : values.Normal) (finite : values.Finite)
    (settled : Settled radius fun x => (x : ExtRat) ∈ values)
    (room : ((radius + edge.delta.toInt.natAbs : Nat) : Int) ≤ Count.greatest.toInt) :
    edge.Roomy values := by
  intro step steps i first j second
  have fits : ∀ b c : Count, b.toInt.natAbs ≤ radius → c.toInt.natAbs ≤ edge.delta.toInt.natAbs →
      Count.least.toInt ≤ b.toInt + c.toInt ∧ b.toInt + c.toInt ≤ Count.greatest.toInt := by
    intro b c close small
    change _ ≤ (9223372036854775807 : Int) at room
    change (-9223372036854775808 : Int) ≤ _ ∧ _ ≤ (9223372036854775807 : Int)
    omega
  constructor
  · intro b c low change
    exact fits b c (normal.ends_near finite settled first (Or.inl low))
      (Region.ends_of_ofDelta? steps second (Or.inl change))
  · intro b c high change
    exact fits b c (normal.ends_near finite settled first (Or.inr high))
      (Region.ends_of_ofDelta? steps second (Or.inr change))

/-! ### Automata of a given size -/

/-- The absolute value, if the bound is finite. -/
def Bound.size : Bound → Nat
  | finite c => c.toInt.natAbs
  | _ => 0

/-- The absolute value of the constant of a guard. -/
def Instr.guardSize (instr : Instr) : Nat :=
  if instr.isGuard then instr.constant.toInt.natAbs else 0

/-- The absolute value of the change that a delta makes, whether it is in range or not. -/
def Instr.deltaSize (instr : Instr) : Nat :=
  if instr.isGuard then 0 else instr.constant.toInt.natAbs

namespace Automaton

/-- The constants of an automaton lie within a radius, and the changes along its edges are no
larger than a step. -/
structure Sized (a : Automaton) (radius step : Nat) : Prop where
  start : a.start.toInt.natAbs ≤ radius
  lower : a.lower.size ≤ radius
  upper : a.upper.size ≤ radius
  guards : ∀ node guard, a.condition? node = some guard → guard.guardSize ≤ radius
  deltas : ∀ start stop data, a.edgeData? start stop = some data →
    ∀ operation, data.operation? = some operation → operation.deltaSize ≤ step

/-- The largest absolute value among the starting value, the finite ends of the range and the
constants of the guards. -/
def largestConstant (a : Automaton) : Nat :=
  (a.start.toInt.natAbs :: a.lower.size :: a.upper.size :: a.nodes.values.map fun data =>
    (data.condition?.map Instr.guardSize).getD 0).foldr max 0

/-- The largest absolute value of a change along an edge, whether it is in range or not. -/
def largestStep (a : Automaton) : Nat :=
  (a.edges.map fun edge => (edge.operation?.map Instr.deltaSize).getD 0).foldr max 0

theorem sized_largest (a : Automaton) : a.Sized a.largestConstant a.largestStep := by
  have small : ∀ {n : Nat} {l : List Nat}, n ∈ l → n ≤ l.foldr max 0 := fun member =>
    List.le_max_of_le' 0 member le_rfl
  refine ⟨small (by simp), small (by simp), small (by simp), ?_, ?_⟩
  · intro node guard condition
    apply small
    obtain ⟨data, found, guarded⟩ := Option.bind_eq_some_iff.mp condition
    have listed : data ∈ a.nodes.values := (Table.mem_values_iff a.nodes data).mpr ⟨node, found⟩
    simp only [List.mem_cons, List.mem_map]
    exact Or.inr (Or.inr (Or.inr ⟨data, listed, by simp [guarded]⟩))
  · intro start stop data stored operation found
    apply small
    have listed : (⟨data, start, stop⟩ : Edge) ∈ a.edges := (mem_edges_iff a _).mpr stored
    exact List.mem_map.mpr ⟨_, listed, by simp [found]⟩

variable {a : Automaton} {radius step : Nat}

theorem Sized.natAbs_delta_le (sized : a.Sized radius step) {start stop : String} {data : EdgeData}
    (stored : a.edgeData? start stop = some data) : data.delta.toInt.natAbs ≤ step := by
  cases operation : data.operation? with
  | none =>
      simp only [EdgeData.delta, operation]
      exact Nat.zero_le step
  | some instr =>
      have small := sized.deltas start stop data stored instr operation
      simp only [EdgeData.delta, operation, Option.bind_some]
      obtain ⟨op, constant⟩ := instr
      cases op with
      | add => exact small
      | sub =>
          change (-constant).toInt.natAbs ≤ step
          change constant.toInt.natAbs ≤ step at small
          rw [Count.toInt_neg, Count.toInt_clamp]
          omega
      | atLeast => exact Nat.zero_le step
      | atMost => exact Nat.zero_le step
      | equal => exact Nat.zero_le step

end Automaton

/-! ### What is settled -/

section

variable {radius : Nat} {b : Bound}

theorem Settled.above (small : b.size ≤ radius) : Settled radius fun x => b.val ≤ (x : ExtRat) := by
  intro x y side low
  cases b with
  | negInf => exact bot_le
  | posInf => exact absurd (top_le_iff.mp low) (WithBotTop.coe_ne_top x)
  | finite c =>
      have near : |(c.toInt : ℚ)| ≤ radius := by
        rw [← Int.cast_abs, Int.abs_eq_natAbs]
        exact_mod_cast small
      obtain ⟨left, right⟩ := abs_le.mp near
      rw [Bound.val_finite, WithBotTop.coe_le_coe] at *
      rcases side with ⟨_, beyond⟩ | ⟨beyond, _⟩ <;> linarith

theorem Settled.below (small : b.size ≤ radius) : Settled radius fun x => (x : ExtRat) ≤ b.val := by
  intro x y side high
  cases b with
  | posInf => exact le_top
  | negInf => exact absurd (le_bot_iff.mp high) (WithBotTop.coe_ne_bot x)
  | finite c =>
      have near : |(c.toInt : ℚ)| ≤ radius := by
        rw [← Int.cast_abs, Int.abs_eq_natAbs]
        exact_mod_cast small
      obtain ⟨left, right⟩ := abs_le.mp near
      rw [Bound.val_finite, WithBotTop.coe_le_coe] at *
      rcases side with ⟨beyond, _⟩ | ⟨_, beyond⟩ <;> linarith

theorem Settled.accepts {guard : Instr} (small : guard.guardSize ≤ radius) :
    Settled radius fun x => guard.Accepts (x : ExtRat) := by
  obtain ⟨op, constant⟩ := guard
  cases op with
  | atLeast => exact Settled.above (b := .finite constant) small
  | atMost => exact Settled.below (b := .finite constant) small
  | equal =>
      intro x y side same
      exact absurd (WithBotTop.coe_injective same) (side.ne_of_natAbs_le small)
  | add => exact fun _ _ _ _ => trivial
  | sub => exact fun _ _ _ _ => trivial

end

theorem Automaton.Sized.settled_admits {a : Automaton} {radius step : Nat}
    (sized : a.Sized radius step) (node : String) :
    Settled radius fun x => a.Admits node (x : ExtRat) := by
  intro x y side admits
  refine ⟨Settled.above sized.lower x y side admits.lower_le,
    Settled.below sized.upper x y side admits.le_upper, ?_⟩
  intro guard condition
  exact Settled.accepts (sized.guards node guard condition) x y side
    (admits.accepts guard condition)

namespace Reach

variable {reach : Reach} {a : Automaton} {initial node origin : String} {radius step : Nat}

/-- Every entry is settled beyond the radius. -/
def Settled (radius : Nat) (reach : Reach) : Prop :=
  ∀ node origin, OneCounter.Settled radius fun x => reach.Holds node origin x

theorem Settled.values (settled : reach.Settled radius) {values : Region}
    (found : reach.values? node origin = some values) :
    OneCounter.Settled radius fun x => (x : ExtRat) ∈ values := by
  intro x y side member
  exact (holds_iff_mem found y).mp (settled node origin x y side ⟨values, found, member⟩)

/-- What an edge brings while there is room: values held at its start, changed by a passage. -/
theorem Settled.brings_iff (settled : reach.Settled radius) (valid : reach.Valid a initial)
    {edge : Edge} (small : edge.delta.toInt.natAbs ≤ step)
    (room : ((radius + step : Nat) : Int) ≤ Count.greatest.toInt) (x : ℚ) :
    edge.Brings reach x ↔
      ∃ origin, ∃ y t : ℚ, reach.Holds edge.start origin y ∧ edge.delta.Adds t ∧ x = y + t := by
  have exact : ∀ origin values, reach.values? edge.start origin = some values →
      ((x : ExtRat) ∈ edge.carry values ↔
        ∃ y t : ℚ, (y : ExtRat) ∈ values ∧ edge.delta.Adds t ∧ x = y + t) := by
    intro origin values found
    have normal := valid.normal _ _ _ found
    have finite := valid.finite found
    exact Edge.mem_carry_iff normal finite
      (edge.roomy_of_settled normal finite (settled.values found) (by omega)) x
  constructor
  · rintro ⟨origin, values, found, _, carried⟩
    obtain ⟨y, t, member, adds, equal⟩ := (exact origin values found).mp carried
    exact ⟨origin, y, t, ⟨values, found, member⟩, adds, equal⟩
  · rintro ⟨origin, y, t, ⟨values, found, member⟩, adds, equal⟩
    exact ⟨origin, values, found, Region.isEmpty_eq_false_of_mem member,
      (exact origin values found).mpr ⟨y, t, member, adds, equal⟩⟩

/-- What an edge brings is settled a step further out. -/
theorem Settled.brings (settled : reach.Settled radius) (valid : reach.Valid a initial)
    {edge : Edge} (small : edge.delta.toInt.natAbs ≤ step)
    (room : ((radius + step : Nat) : Int) ≤ Count.greatest.toInt) :
    OneCounter.Settled (radius + step) fun x => edge.Brings reach x := by
  intro x y side brought
  rw [settled.brings_iff valid small room] at *
  obtain ⟨origin, z, t, held, adds, rfl⟩ := brought
  have near : |t| ≤ step := adds.abs_le.trans (by exact_mod_cast small)
  -- The same change leads to the other number from one on the same side as `z`.
  have before := side.sub near
  rw [add_sub_cancel_right] at before
  exact ⟨origin, y - t, t, settled _ origin z (y - t) before held, adds,
    (sub_add_cancel y t).symm⟩

theorem Settled.beyond (settled : reach.Settled radius) (valid : reach.Valid a initial)
    {direction : Direction} {x y : ℚ} (side : SameSide radius x y)
    (beyond : reach.Beyond direction node origin x) :
    reach.Holds node origin y ∨ reach.Beyond direction node origin y := by
  by_cases all : ∀ u, reach.Holds node origin u → direction.Before u y
  · exact Or.inr ⟨beyond.1, all⟩
  · -- A value that `y` is not beyond lies between `x` and `y`, so `y` is held as well.
    push Not at all
    obtain ⟨u, held, ahead⟩ := all
    have before := beyond.2 u held
    obtain ⟨values, found, member⟩ := held
    obtain ⟨z, rfl⟩ := valid.finite found u member
    refine Or.inl (settled node origin z y (side.of_between ?_) ⟨values, found, member⟩)
    cases direction with
    | up =>
        exact Or.inr ⟨(WithBotTop.coe_lt_coe.mp (not_le.mp ahead)).le, WithBotTop.coe_le_coe.mp before⟩
    | down =>
        exact Or.inl ⟨WithBotTop.coe_le_coe.mp before, (WithBotTop.coe_lt_coe.mp (not_le.mp ahead)).le⟩

end Reach

namespace Solver

variable {s : Solver} {initial : String} {radius step constant : Nat}

theorem settled_propagate (steady : s.Steady initial) (sized : s.automaton.Sized constant step)
    (large : constant ≤ radius) (settled : s.live.Settled radius)
    (room : ((radius + step : Nat) : Int) ≤ Count.greatest.toInt) :
    s.propagate.Settled (radius + step) := by
  have added := holds_propagate_iff steady.valid (steady.snapshot ▸ steady.valid)
  intro node origin x y side held
  rw [added] at *
  rcases held with old | ⟨visible, data, stored, brought, admits⟩
  · exact Or.inl (settled node origin x y (side.mono (Nat.le_add_right _ _)) old)
  · rw [steady.snapshot] at *
    exact Or.inr ⟨visible, data, stored,
      settled.brings steady.valid (sized.natAbs_delta_le stored) room x y side brought,
      sized.settled_admits node x y (side.mono (large.trans (Nat.le_add_right _ _))) admits⟩

theorem settled_accelerate {reach : Reach} (loops : s.LoopsRead)
    (valid : reach.Valid s.automaton initial) (sized : s.automaton.Sized constant step)
    (large : constant ≤ radius) (settled : reach.Settled radius) :
    (s.accelerate reach).Settled radius := by
  intro node origin x y side held
  rw [holds_accelerate_iff loops valid] at *
  rcases held with old | ⟨turn, due, aims, admits, beyond⟩
  · exact Or.inl (settled node origin x y side old)
  · rcases settled.beyond valid side beyond with now | still
    · exact Or.inl now
    · exact Or.inr ⟨turn, due, aims,
        sized.settled_admits node x y (side.mono large) admits, still⟩

theorem settled_next (steady : s.Steady initial) (sized : s.automaton.Sized constant step)
    (large : constant ≤ radius) (settled : s.live.Settled radius)
    (room : ((radius + step : Nat) : Int) ≤ Count.greatest.toInt) :
    s.next.Settled (radius + step) :=
  settled_accelerate steady.loops
    (propagate_valid steady.valid (steady.snapshot ▸ steady.valid)) sized
    (large.trans (Nat.le_add_right _ _)) (settled_propagate steady sized large settled room)

theorem settled_firstArrivals {a : Automaton} (sized : a.Sized radius step) :
    (a.firstArrivals initial).Settled radius := by
  intro node origin x y side held
  obtain ⟨_, _, _, starts, _⟩ := (a.holds_firstArrivals_iff initial node origin x).mp held
  exact absurd (WithBotTop.coe_injective starts) (side.ne_of_natAbs_le sized.start)

end Solver

end OneCounter
