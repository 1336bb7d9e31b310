import OneCounter.Proofs.Values

/-!
Regions in normal form: every piece holds a value, and between two pieces there is a value that
neither holds. Main statement: a region in normal form is determined by its values.
-/

namespace OneCounter

namespace Interval

/-- `i` ends before `j` starts. They share an end only if it is open in both. -/
def Apart (i j : Interval) : Prop :=
  i.high < j.low ∨ (i.high = j.low ∧ i.highClosed = false ∧ j.lowClosed = false)

instance (i j : Interval) : Decidable (i.Apart j) :=
  inferInstanceAs (Decidable (_ ∨ _))

theorem apart_iff_val (i j : Interval) :
    i.Apart j ↔ i.high.val < j.low.val ∨
      (i.high.val = j.low.val ∧ i.highClosed = false ∧ j.lowClosed = false) := by
  rw [Apart, Bound.lt_iff_val, Bound.eq_iff_val]

theorem Apart.exists_gap {i j : Interval} (apart : i.Apart j) :
    ∃ g : ExtRat, (∀ v ∈ i, v < g) ∧ ∀ w ∈ j, g < w := by
  rcases (apart_iff_val i j).mp apart with less | ⟨same, highOpen, lowOpen⟩
  · obtain ⟨g, above, below⟩ := exists_between less
    refine ⟨g, ?_, ?_⟩
    · intro v member
      exact (le_high_of_mem member).trans_lt above
    · intro w member
      exact below.trans_le (low_le_of_mem member)
  · -- An end that both share and neither holds is itself the gap.
    refine ⟨i.high.val, ?_, ?_⟩
    · intro v member
      rcases member.2 with less | ⟨_, closed⟩
      · exact less
      · exact absurd closed (by simp [highOpen])
    · intro w member
      rcases member.1 with less | ⟨_, closed⟩
      · exact same ▸ less
      · exact absurd closed (by simp [lowOpen])

theorem Apart.lt {i j : Interval} (apart : i.Apart j) {v w : ExtRat} (first : v ∈ i)
    (second : w ∈ j) : v < w := by
  obtain ⟨g, above, below⟩ := apart.exists_gap
  exact (above v first).trans (below w second)

theorem Apart.low_lt {i j : Interval} (apart : i.Apart j) (inhabited : i.isEmpty = false) :
    i.low < j.low := by
  rw [apart_iff_val] at apart
  rw [isEmpty_eq_false_iff] at inhabited
  rw [Bound.lt_iff_val]
  grind

/-- Intervals that are apart stay so when they shrink. -/
theorem Apart.shrink {i j i' j' : Interval} (apart : i.Apart j) (left : i.covers i' = true)
    (right : j.covers j' = true) : i'.Apart j' := by
  rw [apart_iff_val] at apart ⊢
  obtain ⟨_, high⟩ := (covers_iff i i').mp left
  obtain ⟨low, _⟩ := (covers_iff j j').mp right
  grind

theorem covers_self (i : Interval) : i.covers i = true := by
  rw [covers_iff]
  grind

theorem covers_trans {i j k : Interval} (outer : i.covers j = true) (inner : j.covers k = true) :
    i.covers k = true := by
  rw [covers_iff] at outer inner ⊢
  grind

theorem lowClosed_iff_mem {i : Interval} (inhabited : i.isEmpty = false) :
    i.lowClosed = true ↔ i.low.val ∈ i := by
  constructor
  · exact low_mem inhabited
  · intro member
    rcases member.1 with less | ⟨_, closed⟩
    · exact absurd less (lt_irrefl _)
    · exact closed

theorem highClosed_iff_mem {i : Interval} (inhabited : i.isEmpty = false) :
    i.highClosed = true ↔ i.high.val ∈ i := by
  constructor
  · exact high_mem inhabited
  · intro member
    rcases member.2 with less | ⟨_, closed⟩
    · exact absurd less (lt_irrefl _)
    · exact closed

/-- An interval with a value in it is determined by its values. -/
theorem eq_of_mem_iff {i j : Interval} (left : i.isEmpty = false) (right : j.isEmpty = false)
    (same : ∀ v : ExtRat, v ∈ i ↔ v ∈ j) : i = j := by
  have lowLevel : i.low.val = j.low.val := by
    apply le_antisymm
    · exact le_low_of_forall_le right fun v member => low_le_of_mem ((same v).mpr member)
    · exact le_low_of_forall_le left fun v member => low_le_of_mem ((same v).mp member)
  have highLevel : i.high.val = j.high.val := by
    apply le_antisymm
    · exact high_le_of_forall_le left fun v member => le_high_of_mem ((same v).mp member)
    · exact high_le_of_forall_le right fun v member => le_high_of_mem ((same v).mpr member)
  have lowClosed : i.lowClosed = j.lowClosed := by
    rw [Bool.eq_iff_iff, lowClosed_iff_mem left, lowClosed_iff_mem right, ← lowLevel]
    exact same i.low.val
  have highClosed : i.highClosed = j.highClosed := by
    rw [Bool.eq_iff_iff, highClosed_iff_mem left, highClosed_iff_mem right, ← highLevel]
    exact same i.high.val
  have low := (Bound.eq_iff_val i.low j.low).mpr lowLevel
  have high := (Bound.eq_iff_val i.high j.high).mpr highLevel
  cases i
  cases j
  simp_all

end Interval

namespace Region

/-- Pieces that hold a value, in ascending order and apart from each other. -/
structure Normal (r : Region) : Prop where
  inhabited : ∀ i ∈ r.pieces, i.isEmpty = false
  apart : r.pieces.Pairwise Interval.Apart

theorem normal_iff (r : Region) :
    r.Normal ↔ (∀ i ∈ r.pieces, i.isEmpty = false) ∧ r.pieces.Pairwise Interval.Apart :=
  ⟨fun normal => ⟨normal.inhabited, normal.apart⟩, fun parts => ⟨parts.1, parts.2⟩⟩

instance (r : Region) : Decidable r.Normal := decidable_of_iff' _ r.normal_iff

theorem normal_empty : empty.Normal := ⟨by simp [empty], by simp [empty]⟩

theorem normal_ofInterval {i : Interval} (inhabited : i.isEmpty = false) :
    (ofInterval i).Normal := by
  constructor
  · simpa [ofInterval] using inhabited
  · simp [ofInterval]

theorem normal_point (value : Bound) : (point value).Normal := by
  apply normal_ofInterval
  rw [Interval.isEmpty_eq_false_iff]
  exact Or.inr ⟨rfl, rfl, rfl⟩

theorem normal_clean {r : Region} (apart : r.pieces.Pairwise Interval.Apart) :
    r.clean.Normal := by
  constructor
  · intro i piece
    simpa using (List.mem_filter.mp piece).2
  · exact apart.filter _

/-- Pieces that are apart stay so when some are dropped and the others shrink. -/
theorem apart_shrink {pieces : List Interval} (apart : pieces.Pairwise Interval.Apart)
    (keep : Interval → Bool) (f : Interval → Interval)
    (within : ∀ i ∈ pieces, keep i = true → i.covers (f i) = true) :
    ((pieces.filter keep).map f).Pairwise Interval.Apart := by
  rw [List.pairwise_map]
  apply List.Pairwise.imp_of_mem _ (apart.filter keep)
  intro i j first second between
  have left := List.mem_filter.mp first
  have right := List.mem_filter.mp second
  exact between.shrink (within i left.1 left.2) (within j right.1 right.2)

theorem Normal.sorted {r : Region} (normal : r.Normal) :
    r.pieces.Pairwise fun i j => i.low < j.low := by
  apply List.Pairwise.imp_of_mem _ normal.apart
  intro i j first _ apart
  exact apart.low_lt (normal.inhabited i first)

theorem Normal.disjoint {r : Region} (normal : r.Normal) :
    r.pieces.Pairwise fun i j => ∀ v ∈ i, v ∉ j := by
  apply normal.apart.imp
  intro i j apart v first second
  exact absurd (apart.lt first second) (lt_irrefl v)

theorem Normal.tail {i : Interval} {rest : List Interval} (normal : Normal ⟨i :: rest⟩) :
    Normal ⟨rest⟩ :=
  ⟨fun j piece => normal.inhabited j (List.mem_cons_of_mem i piece),
    (List.pairwise_cons.mp normal.apart).2⟩

/-- Between the first piece and all others there is a value that is in none of them. -/
theorem Normal.exists_gap {i j : Interval} {rest : List Interval}
    (normal : Normal ⟨i :: j :: rest⟩) :
    ∃ g : ExtRat, (∀ v ∈ i, v < g) ∧ ∀ k ∈ j :: rest, ∀ w ∈ k, g < w := by
  have first := List.pairwise_cons.mp normal.apart
  have second := List.pairwise_cons.mp first.2
  obtain ⟨g, above, below⟩ := (first.1 j List.mem_cons_self).exists_gap
  refine ⟨g, above, ?_⟩
  intro k piece w member
  rcases List.mem_cons.mp piece with same | later
  · subst same
    exact below w member
  · obtain ⟨u, inside⟩ := Interval.exists_mem (normal.inhabited j (by simp))
    exact (below u inside).trans ((second.1 k later).lt inside member)

theorem Normal.lt_of_later {i k : Interval} {rest : List Interval} (normal : Normal ⟨i :: rest⟩)
    (later : k ∈ rest) {v w : ExtRat} (first : v ∈ i) (second : w ∈ k) : v < w :=
  ((List.pairwise_cons.mp normal.apart).1 k later).lt first second

/-- Two values with nothing but held values between them are held by the same piece: after a piece
there is a gap. -/
theorem Normal.same_piece {r : Region} (normal : r.Normal) {i k : Interval} (first : i ∈ r.pieces)
    (second : k ∈ r.pieces) {x y : ExtRat} (start : x ∈ i) (stop : y ∈ k) (le : x ≤ y)
    (held : ∀ v, x ≤ v → v ≤ y → v ∈ r) : i = k := by
  obtain ⟨pieces⟩ := r
  induction pieces with
  | nil => cases first
  | cons head rest ih =>
      rcases List.mem_cons.mp first with rfl | firstLater
      · rcases List.mem_cons.mp second with same | later
        · exact same.symm
        · cases rest with
          | nil => cases later
          | cons next others =>
              obtain ⟨g, above, below⟩ := normal.exists_gap
              obtain ⟨m, holder, inside⟩ := held g (above x start).le (below k later y stop).le
              rcases List.mem_cons.mp holder with same | later
              · exact absurd (above g (same ▸ inside)) (lt_irrefl g)
              · exact absurd (below m later g inside) (lt_irrefl g)
      · rcases List.mem_cons.mp second with rfl | secondLater
        · exact absurd (normal.lt_of_later firstLater stop start) (not_lt.mpr le)
        · -- The first piece lies below both, so what is between them is held by the rest.
          refine ih normal.tail firstLater secondLater ?_
          intro v low high
          obtain ⟨m, holder, inside⟩ := held v low high
          rcases List.mem_cons.mp holder with rfl | later
          · exact absurd (normal.lt_of_later firstLater inside start) (not_lt.mpr low)
          · exact ⟨m, later, inside⟩

/-- A piece holds all that can be reached from its values without leaving the region. -/
theorem Normal.mem_of_held {r : Region} (normal : r.Normal) {i : Interval} (piece : i ∈ r.pieces)
    {x y : ExtRat} (start : x ∈ i)
    (held : ∀ v, (x ≤ v ∧ v ≤ y) ∨ (y ≤ v ∧ v ≤ x) → v ∈ r) : y ∈ i := by
  have inside : y ∈ r := by
    rcases le_total x y with le | le
    · exact held y (Or.inl ⟨le, le_refl y⟩)
    · exact held y (Or.inr ⟨le_refl y, le⟩)
  obtain ⟨k, other, stop⟩ := inside
  have same : i = k := by
    rcases le_total x y with le | le
    · exact normal.same_piece piece other start stop le fun v low high =>
        held v (Or.inl ⟨low, high⟩)
    · exact (normal.same_piece other piece stop start le fun v low high =>
        held v (Or.inr ⟨low, high⟩)).symm
  exact same ▸ stop

/-- An interval within a region in normal form that meets a piece lies in it. -/
theorem Normal.mem_of_meets {r : Region} (normal : r.Normal) {i j : Interval}
    (piece : i ∈ r.pieces) (inside : ∀ v ∈ j, v ∈ r) {x y : ExtRat} (start : x ∈ i)
    (shared : x ∈ j) (stop : y ∈ j) : y ∈ i := by
  apply normal.mem_of_held piece start
  rintro v (⟨low, high⟩ | ⟨low, high⟩)
  · exact inside v (Interval.mem_of_le_of_le shared stop low high)
  · exact inside v (Interval.mem_of_le_of_le stop shared low high)

/-- The first pieces of two regions in normal form with the same values share all of them. -/
theorem Normal.head_shared {i j : Interval} {rest others : List Interval}
    (left : Normal ⟨i :: rest⟩) (right : Normal ⟨j :: others⟩)
    (same : ∀ v : ExtRat, v ∈ (⟨i :: rest⟩ : Region) ↔ v ∈ (⟨j :: others⟩ : Region))
    {x y : ExtRat} (first : x ∈ i) (second : y ∈ j) (before : x ≤ y) : x ∈ j ∧ y ∈ i := by
  have shared : x ∈ j := by
    obtain ⟨k, piece, member⟩ := (same x).mp ⟨i, List.mem_cons_self, first⟩
    rcases List.mem_cons.mp piece with same | later
    · exact same ▸ member
    · exact absurd (right.lt_of_later later second member) (not_lt.mpr before)
  refine ⟨shared, left.mem_of_meets List.mem_cons_self ?_ first shared second⟩
  intro v member
  exact (same v).mpr ⟨j, List.mem_cons_self, member⟩

theorem Normal.head_eq {i j : Interval} {rest others : List Interval}
    (left : Normal ⟨i :: rest⟩) (right : Normal ⟨j :: others⟩)
    (same : ∀ v : ExtRat, v ∈ (⟨i :: rest⟩ : Region) ↔ v ∈ (⟨j :: others⟩ : Region)) :
    i = j := by
  have first := left.inhabited i List.mem_cons_self
  have second := right.inhabited j List.mem_cons_self
  -- Whichever of two values comes first, each piece holds both of them.
  have both : ∀ x ∈ i, ∀ y ∈ j, x ∈ j ∧ y ∈ i := by
    intro x inLeft y inRight
    rcases le_total x y with before | after
    · exact left.head_shared right same inLeft inRight before
    · exact (right.head_shared left (fun v => (same v).symm) inRight inLeft after).symm
  obtain ⟨x, inLeft⟩ := Interval.exists_mem first
  obtain ⟨y, inRight⟩ := Interval.exists_mem second
  apply Interval.eq_of_mem_iff first second
  intro v
  exact ⟨fun member => (both v member y inRight).1, fun member => (both x inLeft v member).2⟩

/-- Past a common first piece, a value of the one region is a value of the other. -/
theorem Normal.mem_tail {i : Interval} {rest others : List Interval}
    (normal : Normal ⟨i :: rest⟩) {v : ExtRat} (member : v ∈ (⟨rest⟩ : Region))
    (shared : v ∈ (⟨i :: others⟩ : Region)) : v ∈ (⟨others⟩ : Region) := by
  obtain ⟨k, later, inside⟩ := member
  obtain ⟨m, piece, held⟩ := shared
  rcases List.mem_cons.mp piece with same | present
  · -- The value would be in the first piece and in a later one.
    subst same
    exact absurd (normal.lt_of_later later held inside) (lt_irrefl v)
  · exact ⟨m, present, held⟩

theorem mem_cons_of_mem {i : Interval} {rest : List Interval} {v : ExtRat}
    (member : v ∈ (⟨rest⟩ : Region)) : v ∈ (⟨i :: rest⟩ : Region) := by
  obtain ⟨k, later, inside⟩ := member
  exact ⟨k, List.mem_cons_of_mem i later, inside⟩

theorem Normal.pieces_eq {left right : List Interval} (leftNormal : Normal ⟨left⟩)
    (rightNormal : Normal ⟨right⟩)
    (same : ∀ v : ExtRat, v ∈ (⟨left⟩ : Region) ↔ v ∈ (⟨right⟩ : Region)) : left = right := by
  induction left generalizing right with
  | nil =>
      cases right with
      | nil => rfl
      | cons j others =>
          obtain ⟨v, member⟩ := Interval.exists_mem (rightNormal.inhabited j List.mem_cons_self)
          obtain ⟨k, piece, _⟩ := (same v).mpr ⟨j, List.mem_cons_self, member⟩
          simp at piece
  | cons i rest ih =>
      cases right with
      | nil =>
          obtain ⟨v, member⟩ := Interval.exists_mem (leftNormal.inhabited i List.mem_cons_self)
          obtain ⟨k, piece, _⟩ := (same v).mp ⟨i, List.mem_cons_self, member⟩
          simp at piece
      | cons j others =>
          have heads := leftNormal.head_eq rightNormal same
          subst heads
          have tails : ∀ v : ExtRat, v ∈ (⟨rest⟩ : Region) ↔ v ∈ (⟨others⟩ : Region) := by
            intro v
            constructor
            · intro member
              exact leftNormal.mem_tail member ((same v).mp (mem_cons_of_mem member))
            · intro member
              exact rightNormal.mem_tail member ((same v).mpr (mem_cons_of_mem member))
          rw [ih leftNormal.tail rightNormal.tail tails]

/-- Regions in normal form that hold the same values are equal. -/
theorem Normal.eq_of_mem_iff {r s : Region} (left : r.Normal) (right : s.Normal)
    (same : ∀ v : ExtRat, v ∈ r ↔ v ∈ s) : r = s := by
  cases r
  cases s
  rw [left.pieces_eq right same]

end Region

end OneCounter
