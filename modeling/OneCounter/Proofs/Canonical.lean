import OneCounter.Proofs.Union

/-!
Unions as canonical forms. A region in normal form is a list of pieces that the sweep of a union
would leave as they are, and it is the only such list with its values. Main statement: the order and
the grouping in which intervals are put together do not matter, and on regions in normal form unions
are commutative, associative and idempotent, with the empty region as identity.
-/

namespace OneCounter

namespace Interval

theorem apart_iff_not_absorbs {i next : Interval} (inhabited : next.isEmpty = false) :
    i.Apart next ↔ i.absorbs next = false := by
  refine ⟨?_, apart_of_not_absorbs⟩
  intro apart
  rw [← Bool.not_eq_true, absorbs_iff]
  rw [apart_iff_val] at apart
  rw [isEmpty_eq_false_iff] at inhabited
  grind

theorem Apart.trans {i j k : Interval} (first : i.Apart j) (second : j.Apart k)
    (inhabited : j.isEmpty = false) : i.Apart k := by
  have later := second.low_lt inhabited
  rw [Bound.lt_iff_val] at later
  exact first.of_startsBy (Or.inl later)

end Interval

namespace Region

/-! ### Pieces that cannot be merged -/

theorem Normal.chain {r : Region} (normal : r.Normal) :
    r.pieces.IsChain fun i j => i.low ≤ j.low ∧ i.absorbs j = false := by
  apply List.Pairwise.isChain
  apply List.Pairwise.imp_of_mem _ normal.apart
  intro i j first second apart
  have before := apart.low_lt (normal.inhabited i first)
  rw [Bound.lt_iff_val] at before
  exact ⟨(Bound.le_iff_val i.low j.low).mpr before.le,
    (Interval.apart_iff_not_absorbs (normal.inhabited j second)).mp apart⟩

/-- Neighbours that cannot be merged keep all pieces apart, since each piece holds a value. -/
theorem apart_of_chain {pieces : List Interval} (inhabited : ∀ i ∈ pieces, i.isEmpty = false)
    (chain : pieces.IsChain fun i j => i.low ≤ j.low ∧ i.absorbs j = false) :
    pieces.Pairwise Interval.Apart := by
  induction pieces with
  | nil => exact List.Pairwise.nil
  | cons i rest ih =>
      obtain ⟨_, later⟩ := List.forall_mem_cons.mp inhabited
      have tail := ih later chain.tail
      refine List.pairwise_cons.mpr ⟨?_, tail⟩
      cases rest with
      | nil => simp
      | cons next others =>
          obtain ⟨⟨_, gap⟩, _⟩ := List.isChain_cons_cons.mp chain
          have apart := Interval.apart_of_not_absorbs gap
          intro k piece
          rcases List.mem_cons.mp piece with same | beyond
          · exact same ▸ apart
          · exact apart.trans ((List.pairwise_cons.mp tail).1 k beyond)
              (later next List.mem_cons_self)

theorem normal_iff_chain (r : Region) :
    r.Normal ↔ (∀ i ∈ r.pieces, i.isEmpty = false) ∧
      r.pieces.IsChain fun i j => i.low ≤ j.low ∧ i.absorbs j = false :=
  ⟨fun normal => ⟨normal.inhabited, normal.chain⟩,
    fun parts => ⟨parts.1, apart_of_chain parts.1 parts.2⟩⟩

/-! ### Laws of unions -/

section Laws

variable {r s t : Region}

theorem Normal.union_comm (left : r.Normal) (right : s.Normal) : r.union s = s.union r := by
  apply (normal_union r s).eq_of_mem_iff (normal_union s r)
  intro v
  rw [left.mem_union_iff right, right.mem_union_iff left]
  exact or_comm

theorem Normal.union_assoc (first : r.Normal) (second : s.Normal) (third : t.Normal) :
    (r.union s).union t = r.union (s.union t) := by
  apply (normal_union _ t).eq_of_mem_iff (normal_union r _)
  intro v
  rw [(normal_union r s).mem_union_iff third, first.mem_union_iff second,
    first.mem_union_iff (normal_union s t), second.mem_union_iff third]
  exact or_assoc

theorem Normal.union_self (normal : r.Normal) : r.union r = r := by
  apply (normal_union r r).eq_of_mem_iff normal
  intro v
  rw [normal.mem_union_iff normal]
  exact or_self_iff

theorem Normal.union_empty (normal : r.Normal) : r.union empty = r := by
  apply (normal_union r empty).eq_of_mem_iff normal
  intro v
  rw [normal.mem_union_iff normal_empty]
  simp

theorem Normal.empty_union (normal : r.Normal) : empty.union r = r := by
  rw [normal_empty.union_comm normal, normal.union_empty]

end Laws

/-- The intervals one after the other, each as a region of its own. -/
def gather (intervals : List Interval) : Region := (intervals.map ofInterval).foldl union empty

end Region

/-- Intervals put together by unions, in some order and grouping. -/
inductive Gathering where
  | nothing
  | single (i : Interval)
  | both (left right : Gathering)

namespace Gathering

def intervals : Gathering → List Interval
  | nothing => []
  | single i => [i]
  | both left right => left.intervals ++ right.intervals

def region : Gathering → Region
  | nothing => Region.empty
  | single i => Region.ofInterval i
  | both left right => left.region.union right.region

theorem normal_region {g : Gathering} (inhabited : ∀ i ∈ g.intervals, i.isEmpty = false) :
    g.region.Normal := by
  cases g with
  | nothing => exact Region.normal_empty
  | single i => exact Region.normal_ofInterval (inhabited i List.mem_cons_self)
  | both left right => exact Region.normal_union left.region right.region

theorem mem_region_iff {g : Gathering} (inhabited : ∀ i ∈ g.intervals, i.isEmpty = false)
    (v : ExtRat) : v ∈ g.region ↔ ∃ i ∈ g.intervals, v ∈ i := by
  induction g with
  | nothing => simp [region, intervals]
  | single i => simp [region, intervals, Region.mem_ofInterval_iff]
  | both left right leftIh rightIh =>
      obtain ⟨inLeft, inRight⟩ := List.forall_mem_append.mp inhabited
      rw [region, (normal_region inLeft).mem_union_iff (normal_region inRight), leftIh inLeft,
        rightIh inRight]
      simp only [intervals, List.mem_append, or_and_right, exists_or]

/-- Only which intervals there are counts, not how they were put together. -/
theorem region_congr {g h : Gathering} (inhabited : ∀ i ∈ h.intervals, i.isEmpty = false)
    (same : ∀ i, i ∈ g.intervals ↔ i ∈ h.intervals) : g.region = h.region := by
  have inhabitedToo : ∀ i ∈ g.intervals, i.isEmpty = false := fun i listed =>
    inhabited i ((same i).mp listed)
  apply (normal_region inhabitedToo).eq_of_mem_iff (normal_region inhabited)
  intro v
  rw [mem_region_iff inhabitedToo, mem_region_iff inhabited]
  simp only [same]

/-- One after the other is a way to put intervals together. -/
theorem exists_region_eq_gather (list : List Interval) :
    ∃ g : Gathering, g.intervals = list ∧ g.region = Region.gather list := by
  induction list using List.reverseRecOn with
  | nil => exact ⟨nothing, rfl, rfl⟩
  | append_singleton rest i ih =>
      obtain ⟨g, listed, gathered⟩ := ih
      refine ⟨both g (single i), ?_, ?_⟩
      · rw [intervals, listed, intervals]
      · rw [region, gathered, region, Region.gather, Region.gather, List.map_append,
          List.foldl_append, List.map_singleton, List.foldl_cons, List.foldl_nil]

end Gathering

namespace Region

/-- In the two statements about lists, the intervals may come in any order, grouping and number. -/
theorem union_canonical :
    (∀ r : Region, r.Normal ↔ (∀ i ∈ r.pieces, i.isEmpty = false) ∧
      r.pieces.IsChain fun i j => i.low ≤ j.low ∧ i.absorbs j = false) ∧
    (∀ r s : Region, r.Normal → s.Normal → (∀ v : ExtRat, v ∈ r ↔ v ∈ s) →
      r.pieces = s.pieces) ∧
    (∀ intervals : List Interval, (∀ i ∈ intervals, i.isEmpty = false) →
      (∀ list : List Interval, (∀ i, i ∈ list ↔ i ∈ intervals) →
        gather list = gather intervals) ∧
      ∀ g : Gathering, (∀ i, i ∈ g.intervals ↔ i ∈ intervals) →
        g.region = gather intervals) ∧
    (∀ r s : Region, r.Normal → s.Normal → r.union s = s.union r) ∧
    (∀ r s t : Region, r.Normal → s.Normal → t.Normal →
      (r.union s).union t = r.union (s.union t)) ∧
    ∀ r : Region, r.Normal → r.union r = r ∧ r.union empty = r ∧ empty.union r = r := by
  refine ⟨normal_iff_chain, ?_, ?_, fun _ _ => Normal.union_comm, fun _ _ _ => Normal.union_assoc,
    fun _ normal => ⟨normal.union_self, normal.union_empty, normal.empty_union⟩⟩
  · intro r s left right same
    exact left.pieces_eq right same
  · intro intervals inhabited
    obtain ⟨whole, rfl, gathered⟩ := Gathering.exists_region_eq_gather intervals
    constructor
    · intro list same
      obtain ⟨g, rfl, result⟩ := Gathering.exists_region_eq_gather list
      rw [← result, ← gathered]
      exact Gathering.region_congr inhabited same
    · intro g same
      rw [← gathered]
      exact Gathering.region_congr inhabited same

/-- Three intervals that become one: the second closes the end of the first, the third is open where
the second ends. -/
def stairs : List Interval :=
  [⟨0, true, .finite (.clamp 1), false⟩, ⟨.finite (.clamp 1), true, .finite (.clamp 2), true⟩,
    ⟨.finite (.clamp 2), false, .posInf, false⟩]

theorem stairs_any_grouping :
    (Gathering.both (.both .nothing (.single ⟨.finite (.clamp 2), false, .posInf, false⟩))
      (.both (.single ⟨0, true, .finite (.clamp 1), false⟩)
        (.single ⟨.finite (.clamp 1), true, .finite (.clamp 2), true⟩))).region = gather stairs ∧
      gather stairs.reverse = gather stairs ∧
      gather stairs = ofInterval ⟨0, true, .posInf, false⟩ := by
  have inhabited : ∀ i ∈ stairs, i.isEmpty = false := by decide
  obtain ⟨_, _, anyOrder, _⟩ := union_canonical
  refine ⟨(anyOrder stairs inhabited).2 _ ?_, (anyOrder stairs inhabited).1 _ ?_, by decide⟩
  · intro i
    simp only [Gathering.intervals, stairs, List.nil_append, List.cons_append, List.mem_cons,
      List.not_mem_nil, or_false]
    exact or_rotate
  · intro i
    exact List.mem_reverse

end Region

end OneCounter
