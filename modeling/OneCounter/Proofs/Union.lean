import OneCounter.Proofs.NormalForm

/-!
Unions of regions. Pieces are sorted by where they start, and each is joined with those that
follow as long as they touch. Main statements: a union of any two regions is in normal form and
holds all their values, and it holds no others if none of their pieces is empty.
-/

namespace OneCounter

namespace Interval

/-- Where `j` has started, so has `i`. -/
def StartsBy (i j : Interval) : Prop :=
  i.low.val < j.low.val ∨
    (i.low.val = j.low.val ∧ (i.lowClosed = true ∨ j.lowClosed = false))

theorem StartsBy.refl (i : Interval) : i.StartsBy i := by
  unfold StartsBy
  cases i.lowClosed <;> simp

theorem StartsBy.trans {i j k : Interval} (first : i.StartsBy j) (second : j.StartsBy k) :
    i.StartsBy k := by
  unfold StartsBy at *
  grind

theorem StartsBy.aboveLow {i j : Interval} (starts : i.StartsBy j) {v : ExtRat}
    (above : j.AboveLow v) : i.AboveLow v := by
  unfold StartsBy at starts
  unfold AboveLow at *
  grind

theorem Apart.of_startsBy {i j k : Interval} (apart : i.Apart j) (starts : j.StartsBy k) :
    i.Apart k := by
  rw [apart_iff_val] at *
  unfold StartsBy at starts
  grind

theorem startsBefore_eq_false_iff (i j : Interval) :
    Region.startsBefore j i = false ↔ i.StartsBy j := by
  simp only [Region.startsBefore, Bool.or_eq_false_iff, Bool.and_eq_false_iff,
    decide_eq_false_iff_not, Bound.lt_iff_val, Bound.eq_iff_val, Bool.not_eq_false']
  unfold StartsBy
  grind

instance : DecidableRel StartsBy :=
  fun i j => decidable_of_iff _ (startsBefore_eq_false_iff i j)

instance : Std.Total StartsBy where
  total i j := by
    unfold StartsBy
    grind

instance : IsTrans Interval StartsBy where
  trans _ _ _ := StartsBy.trans

theorem mergeLow_eq_self {i next : Interval} (starts : i.StartsBy next) : i.mergeLow next = i := by
  have notBefore : ¬ next.low < i.low := by
    rw [Bound.lt_iff_val]
    unfold StartsBy at starts
    grind
  rw [mergeLow, if_neg notBefore]
  split
  · next same =>
      have closed : (i.lowClosed || next.lowClosed) = i.lowClosed := by
        unfold StartsBy at starts
        grind
      rw [closed, setLow]
  · rfl

theorem belowHigh_mergeHigh_iff (i next : Interval) (v : ExtRat) :
    (i.mergeHigh next).BelowHigh v ↔ i.BelowHigh v ∨ next.BelowHigh v := by
  unfold mergeHigh
  split
  · next less =>
      rw [Bound.lt_iff_val] at less
      simp only [BelowHigh, setHigh]
      grind
  · next notLess =>
      rw [Bound.lt_iff_val] at notLess
      split
      · next same =>
          rw [Bound.eq_iff_val] at same
          simp only [BelowHigh, setHigh, Bool.or_eq_true]
          grind
      · next different =>
          rw [Bound.eq_iff_val] at different
          simp only [BelowHigh]
          grind

theorem aboveLow_mergeHigh_iff (i next : Interval) (v : ExtRat) :
    (i.mergeHigh next).AboveLow v ↔ i.AboveLow v := by
  unfold mergeHigh
  split
  · rfl
  · split <;> rfl

theorem mem_merge_iff {i next : Interval} (starts : i.StartsBy next) (v : ExtRat) :
    v ∈ i.merge next ↔ i.AboveLow v ∧ (i.BelowHigh v ∨ next.BelowHigh v) := by
  rw [merge, mergeLow_eq_self starts, mem_iff, aboveLow_mergeHigh_iff, belowHigh_mergeHigh_iff]

/-- Merging an interval changes nothing about where it starts. -/
theorem startsBy_merge_iff {i next k : Interval} (starts : i.StartsBy next) :
    (i.merge next).StartsBy k ↔ i.StartsBy k := by
  rw [merge, mergeLow_eq_self starts, mergeHigh]
  split
  · rfl
  · split <;> rfl

theorem mem_merge_of_mem {i next : Interval} (starts : i.StartsBy next) {v : ExtRat}
    (member : v ∈ i ∨ v ∈ next) : v ∈ i.merge next := by
  rw [mem_merge_iff starts]
  rcases member with first | second
  · exact ⟨first.1, Or.inl first.2⟩
  · exact ⟨starts.aboveLow second.1, Or.inr second.2⟩

theorem absorbs_iff (i next : Interval) :
    i.absorbs next = true ↔ next.low.val < i.high.val ∨
      (next.low.val = i.high.val ∧
        (i.highClosed = true ∨ next.lowClosed = true ∨ next.high.val = i.high.val)) := by
  simp [absorbs, Bound.lt_iff_val, Bound.eq_iff_val, or_assoc]

/-- Merging with an interval that touches adds nothing between the two. -/
theorem mem_of_mem_merge {i next : Interval} (starts : i.StartsBy next)
    (touches : i.absorbs next = true) (inhabited : next.isEmpty = false) {v : ExtRat}
    (member : v ∈ i.merge next) : v ∈ i ∨ v ∈ next := by
  rw [mem_merge_iff starts] at member
  obtain ⟨aboveLow, belowHigh⟩ := member
  by_cases inside : i.BelowHigh v
  · exact Or.inl ⟨aboveLow, inside⟩
  · -- A value past the end of the first interval is past the start of the one that touches it.
    have below : next.BelowHigh v := belowHigh.resolve_left inside
    refine Or.inr ⟨?_, below⟩
    rw [absorbs_iff] at touches
    rw [isEmpty_eq_false_iff] at inhabited
    unfold AboveLow
    unfold BelowHigh at inside
    grind

theorem apart_of_not_absorbs {i next : Interval} (gap : i.absorbs next = false) :
    i.Apart next := by
  rw [← Bool.not_eq_true, absorbs_iff] at gap
  rw [apart_iff_val]
  grind

end Interval

namespace Region

/-! ### Sorting -/

theorem insertPiece_eq_orderedInsert (i : Interval) (pieces : List Interval) :
    insertPiece i pieces = pieces.orderedInsert Interval.StartsBy i := by
  induction pieces with
  | nil => rfl
  | cons j rest ih =>
      rw [insertPiece, List.orderedInsert_cons, ih]
      simp only [← Interval.startsBefore_eq_false_iff]
      cases startsBefore j i <;> rfl

theorem sortPieces_eq_insertionSort (pieces : List Interval) :
    sortPieces pieces = pieces.insertionSort Interval.StartsBy := by
  have step : insertPiece = List.orderedInsert Interval.StartsBy :=
    funext₂ insertPiece_eq_orderedInsert
  rw [sortPieces, step]
  rfl

theorem mem_sortPieces_iff (k : Interval) (pieces : List Interval) :
    k ∈ sortPieces pieces ↔ k ∈ pieces := by
  rw [sortPieces_eq_insertionSort, List.mem_insertionSort]

theorem sorted_sortPieces (pieces : List Interval) :
    (sortPieces pieces).Pairwise Interval.StartsBy := by
  rw [sortPieces_eq_insertionSort]
  exact List.pairwise_insertionSort _ _

/-! ### Joining pieces that touch -/

/-- Sorted pieces stay so when the first is merged with the second. -/
theorem sorted_merge {current next : Interval} {rest : List Interval}
    (sorted : (current :: next :: rest).Pairwise Interval.StartsBy) :
    (current.merge next :: rest).Pairwise Interval.StartsBy := by
  have first := List.pairwise_cons.mp sorted
  have starts := first.1 next List.mem_cons_self
  refine List.pairwise_cons.mpr ⟨?_, (List.pairwise_cons.mp first.2).2⟩
  intro k piece
  exact (Interval.startsBy_merge_iff starts).mpr (first.1 k (List.mem_cons_of_mem next piece))

theorem startsBy_of_mem_coalesce {current : Interval} {rest : List Interval}
    (sorted : (current :: rest).Pairwise Interval.StartsBy) {k : Interval}
    (piece : k ∈ coalesce current rest) : current.StartsBy k := by
  induction rest generalizing current with
  | nil =>
      have same : k = current := by simpa [coalesce] using piece
      exact same ▸ Interval.StartsBy.refl current
  | cons next rest ih =>
      have parts := List.pairwise_cons.mp sorted
      have starts := parts.1 next List.mem_cons_self
      simp only [coalesce] at piece
      split at piece
      · exact (Interval.startsBy_merge_iff starts).mp (ih (sorted_merge sorted) piece)
      · split at piece
        · exact starts.trans (ih parts.2 piece)
        · rcases List.mem_cons.mp piece with same | later
          · exact same ▸ Interval.StartsBy.refl current
          · exact starts.trans (ih parts.2 later)

theorem apart_coalesce {current : Interval} {rest : List Interval}
    (sorted : (current :: rest).Pairwise Interval.StartsBy) :
    (coalesce current rest).Pairwise Interval.Apart := by
  induction rest generalizing current with
  | nil => simp [coalesce]
  | cons next rest ih =>
      have parts := List.pairwise_cons.mp sorted
      simp only [coalesce]
      split
      · exact ih (sorted_merge sorted)
      · next gap =>
          split
          · exact ih parts.2
          · -- All that is left starts no earlier than the next piece, so the gap is before it.
            refine List.pairwise_cons.mpr ⟨?_, ih parts.2⟩
            intro k piece
            exact (Interval.apart_of_not_absorbs (by simpa using gap)).of_startsBy
              (startsBy_of_mem_coalesce parts.2 piece)

theorem mem_coalesce_of_mem {current : Interval} {rest : List Interval}
    (sorted : (current :: rest).Pairwise Interval.StartsBy) {v : ExtRat}
    (member : v ∈ (⟨current :: rest⟩ : Region)) :
    v ∈ (⟨coalesce current rest⟩ : Region) := by
  induction rest generalizing current with
  | nil => exact member
  | cons next rest ih =>
      have parts := List.pairwise_cons.mp sorted
      have starts := parts.1 next List.mem_cons_self
      obtain ⟨i, piece, inside⟩ := member
      simp only [coalesce]
      split
      · apply ih (sorted_merge sorted)
        rcases List.mem_cons.mp piece with first | others
        · subst first
          exact ⟨_, List.mem_cons_self, Interval.mem_merge_of_mem starts (Or.inl inside)⟩
        · rcases List.mem_cons.mp others with second | later
          · subst second
            exact ⟨_, List.mem_cons_self, Interval.mem_merge_of_mem starts (Or.inr inside)⟩
          · exact ⟨i, List.mem_cons_of_mem _ later, inside⟩
      · split
        · next empty =>
            rcases List.mem_cons.mp piece with first | others
            · subst first
              exact absurd inside ((Interval.isEmpty_eq_true_iff i).mp empty v)
            · exact ih parts.2 ⟨i, others, inside⟩
        · rcases List.mem_cons.mp piece with first | others
          · exact ⟨i, first ▸ List.mem_cons_self, inside⟩
          · obtain ⟨k, later, held⟩ := ih parts.2 ⟨i, others, inside⟩
            exact ⟨k, List.mem_cons_of_mem _ later, held⟩

theorem mem_of_mem_coalesce {current : Interval} {rest : List Interval}
    (sorted : (current :: rest).Pairwise Interval.StartsBy)
    (inhabited : ∀ i ∈ rest, i.isEmpty = false) {v : ExtRat}
    (member : v ∈ (⟨coalesce current rest⟩ : Region)) :
    v ∈ (⟨current :: rest⟩ : Region) := by
  induction rest generalizing current with
  | nil => exact member
  | cons next rest ih =>
      have parts := List.pairwise_cons.mp sorted
      have starts := parts.1 next List.mem_cons_self
      have later : ∀ i ∈ rest, i.isEmpty = false := fun i piece =>
        inhabited i (List.mem_cons_of_mem next piece)
      simp only [coalesce] at member
      split at member
      · next touches =>
          obtain ⟨i, piece, inside⟩ := ih (sorted_merge sorted) later member
          rcases List.mem_cons.mp piece with merged | others
          · subst merged
            rcases Interval.mem_of_mem_merge starts touches
              (inhabited next List.mem_cons_self) inside with first | second
            · exact ⟨current, List.mem_cons_self, first⟩
            · exact ⟨next, by simp, second⟩
          · exact ⟨i, by simp [others], inside⟩
      · split at member
        · obtain ⟨i, piece, inside⟩ := ih parts.2 later member
          exact ⟨i, List.mem_cons_of_mem current piece, inside⟩
        · obtain ⟨i, piece, inside⟩ := member
          rcases List.mem_cons.mp piece with first | others
          · exact ⟨i, first ▸ List.mem_cons_self, inside⟩
          · obtain ⟨k, kept, held⟩ := ih parts.2 later ⟨i, others, inside⟩
            exact ⟨k, List.mem_cons_of_mem current kept, held⟩

theorem exists_belowHigh_of_mem_coalesce {current : Interval} {rest : List Interval}
    (sorted : (current :: rest).Pairwise Interval.StartsBy) {v : ExtRat}
    (member : v ∈ (⟨coalesce current rest⟩ : Region)) :
    ∃ i ∈ current :: rest, i.BelowHigh v := by
  induction rest generalizing current with
  | nil =>
      obtain ⟨i, piece, inside⟩ := member
      exact ⟨i, piece, inside.2⟩
  | cons next rest ih =>
      have parts := List.pairwise_cons.mp sorted
      have starts := parts.1 next List.mem_cons_self
      simp only [coalesce] at member
      split at member
      · obtain ⟨i, piece, below⟩ := ih (sorted_merge sorted) member
        rcases List.mem_cons.mp piece with merged | others
        · rw [merged, Interval.merge, Interval.mergeLow_eq_self starts,
            Interval.belowHigh_mergeHigh_iff] at below
          rcases below with first | second
          · exact ⟨current, List.mem_cons_self, first⟩
          · exact ⟨next, by simp, second⟩
        · exact ⟨i, by simp [others], below⟩
      · split at member
        · obtain ⟨i, piece, below⟩ := ih parts.2 member
          exact ⟨i, List.mem_cons_of_mem current piece, below⟩
        · obtain ⟨i, piece, inside⟩ := member
          rcases List.mem_cons.mp piece with first | others
          · exact ⟨current, List.mem_cons_self, first ▸ inside.2⟩
          · obtain ⟨k, kept, below⟩ := ih parts.2 ⟨i, others, inside⟩
            exact ⟨k, List.mem_cons_of_mem current kept, below⟩

/-! ### Unions -/

theorem normal_ofSorted {pieces : List Interval} (sorted : pieces.Pairwise Interval.StartsBy) :
    (ofSorted pieces).Normal := by
  cases pieces with
  | nil => exact normal_empty
  | cons first rest => exact normal_clean (apart_coalesce sorted)

theorem mem_ofSorted_of_mem {pieces : List Interval}
    (sorted : pieces.Pairwise Interval.StartsBy) {v : ExtRat}
    (member : v ∈ (⟨pieces⟩ : Region)) : v ∈ ofSorted pieces := by
  cases pieces with
  | nil => exact member
  | cons first rest => exact (mem_clean_iff _ v).mpr (mem_coalesce_of_mem sorted member)

theorem mem_of_mem_ofSorted {pieces : List Interval}
    (sorted : pieces.Pairwise Interval.StartsBy)
    (inhabited : ∀ i ∈ pieces, i.isEmpty = false) {v : ExtRat}
    (member : v ∈ ofSorted pieces) : v ∈ (⟨pieces⟩ : Region) := by
  cases pieces with
  | nil => exact member
  | cons first rest =>
      have later : ∀ i ∈ rest, i.isEmpty = false := fun i piece =>
        inhabited i (List.mem_cons_of_mem first piece)
      exact mem_of_mem_coalesce sorted later ((mem_clean_iff _ v).mp member)

theorem mem_sorted_iff (r s : Region) (v : ExtRat) :
    v ∈ (⟨sortPieces (r.pieces ++ s.pieces)⟩ : Region) ↔ v ∈ r ∨ v ∈ s := by
  simp only [mem_iff, mem_sortPieces_iff, List.mem_append, or_and_right, exists_or]

theorem normal_union (r s : Region) : (r.union s).Normal := normal_ofSorted (sorted_sortPieces _)

theorem mem_union_of_mem {r s : Region} {v : ExtRat} (member : v ∈ r ∨ v ∈ s) : v ∈ r.union s :=
  mem_ofSorted_of_mem (sorted_sortPieces _) ((mem_sorted_iff r s v).mpr member)

theorem mem_union_iff {r s : Region} (left : ∀ i ∈ r.pieces, i.isEmpty = false)
    (right : ∀ i ∈ s.pieces, i.isEmpty = false) (v : ExtRat) :
    v ∈ r.union s ↔ v ∈ r ∨ v ∈ s := by
  refine ⟨fun member => (mem_sorted_iff r s v).mp ?_, mem_union_of_mem⟩
  apply mem_of_mem_ofSorted (sorted_sortPieces _) _ member
  intro i piece
  rw [mem_sortPieces_iff, List.mem_append] at piece
  rcases piece with inLeft | inRight
  · exact left i inLeft
  · exact right i inRight

/-- Whatever the pieces are, a union does not reach beyond their ends. -/
theorem exists_ends_of_mem_union {r s : Region} {v : ExtRat} (member : v ∈ r.union s) :
    (∃ i ∈ r.pieces ++ s.pieces, i.AboveLow v) ∧ ∃ i ∈ r.pieces ++ s.pieces, i.BelowHigh v := by
  have sorted := sorted_sortPieces (r.pieces ++ s.pieces)
  have sorts := fun k => mem_sortPieces_iff k (r.pieces ++ s.pieces)
  rw [union] at member
  cases pieces : sortPieces (r.pieces ++ s.pieces) with
  | nil =>
      rw [pieces] at member
      exact absurd member (not_mem_empty v)
  | cons first rest =>
      rw [pieces] at member sorted sorts
      have joined := (mem_clean_iff _ v).mp member
      constructor
      · obtain ⟨k, piece, inside⟩ := joined
        exact ⟨first, (sorts first).mp List.mem_cons_self,
          (startsBy_of_mem_coalesce sorted piece).aboveLow inside.1⟩
      · obtain ⟨k, piece, below⟩ := exists_belowHigh_of_mem_coalesce sorted joined
        exact ⟨k, (sorts k).mp piece, below⟩

theorem Normal.mem_union_iff {r s : Region} (left : r.Normal) (right : s.Normal) (v : ExtRat) :
    v ∈ r.union s ↔ v ∈ r ∨ v ∈ s :=
  Region.mem_union_iff left.inhabited right.inhabited v

/-! ### Many unions -/

theorem normal_foldl_union {first : Region} (normal : first.Normal) (rest : List Region) :
    (rest.foldl union first).Normal := by
  induction rest generalizing first with
  | nil => exact normal
  | cons next rest ih => exact ih (normal_union first next)

theorem mem_foldl_union_of_mem {first : Region} {rest : List Region} {v : ExtRat}
    (member : ∃ r ∈ first :: rest, v ∈ r) : v ∈ rest.foldl union first := by
  induction rest generalizing first with
  | nil => simpa using member
  | cons next rest ih =>
      obtain ⟨r, listed, held⟩ := member
      rw [List.foldl_cons]
      apply ih
      rcases List.mem_cons.mp listed with rfl | later
      · exact ⟨_, List.mem_cons_self, mem_union_of_mem (Or.inl held)⟩
      · rcases List.mem_cons.mp later with rfl | last
        · exact ⟨_, List.mem_cons_self, mem_union_of_mem (Or.inr held)⟩
        · exact ⟨r, List.mem_cons_of_mem _ last, held⟩

theorem mem_foldl_union_iff {first : Region} {rest : List Region} (normal : first.Normal)
    (others : ∀ r ∈ rest, r.Normal) (v : ExtRat) :
    v ∈ rest.foldl union first ↔ v ∈ first ∨ ∃ r ∈ rest, v ∈ r := by
  induction rest generalizing first with
  | nil => simp
  | cons next rest ih =>
      have later : ∀ r ∈ rest, r.Normal := fun r member =>
        others r (List.mem_cons_of_mem next member)
      rw [List.foldl_cons, ih (normal_union first next) later,
        normal.mem_union_iff (others next List.mem_cons_self)]
      simp [or_assoc]

/-! ### What a union is -/

theorem union_sorted_and_exact (r s : Region) :
    (r.union s).Normal ∧
      (r.union s).pieces.Pairwise (fun i j => i.low < j.low ∧ ∀ v ∈ i, v ∉ j) ∧
      (∀ v : ExtRat, v ∈ r ∨ v ∈ s → v ∈ r.union s) ∧
      ((∀ i ∈ r.pieces ++ s.pieces, i.isEmpty = false) →
        ∀ v : ExtRat, v ∈ r.union s → v ∈ r ∨ v ∈ s) := by
  have normal := normal_union r s
  refine ⟨normal, normal.sorted.and normal.disjoint, fun v => mem_union_of_mem, ?_⟩
  intro inhabited v member
  obtain ⟨left, right⟩ := List.forall_mem_append.mp inhabited
  exact (mem_union_iff left right v).mp member

-- With an empty piece a union can gain a value: here the empty piece closes the end that it meets.
example : (union ⟨[⟨0, true, .finite (.clamp 4), false⟩]⟩
    ⟨[⟨.finite (.clamp 4), false, .finite (.clamp 4), true⟩]⟩).contains (.finite (.clamp 4)) := by
  decide

/-- Two pieces out of order, open where they end. -/
def halves : Region :=
  ⟨[⟨.finite (.clamp 3), false, .finite (.clamp 5), false⟩, ⟨0, true, .finite (.clamp 1), false⟩]⟩

/-- The one piece touches an end of `halves` without closing it, the other closes an end. -/
def fillers : Region :=
  ⟨[⟨.finite (.clamp 5), false, .posInf, true⟩, .point (.finite (.clamp 1))]⟩

theorem halves_union_fillers :
    (∀ i ∈ halves.pieces ++ fillers.pieces, i.isEmpty = false) ∧
      halves.union fillers =
        ⟨[⟨0, true, .finite (.clamp 1), true⟩,
          ⟨.finite (.clamp 3), false, .finite (.clamp 5), false⟩,
          ⟨.finite (.clamp 5), false, .posInf, true⟩]⟩ ∧
      (halves.union fillers).Normal ∧ (⊤ : ExtRat) ∈ halves.union fillers ∧
      (Bound.finite (.clamp 5)).val ∉ halves.union fillers := by
  have inhabited : ∀ i ∈ halves.pieces ++ fillers.pieces, i.isEmpty = false := by decide
  obtain ⟨normal, _, holds, only⟩ := union_sorted_and_exact halves fillers
  refine ⟨inhabited, by decide, normal, ?_, ?_⟩
  · exact holds ⊤ (Or.inr ((contains_iff fillers .posInf).mp (by decide)))
  · intro member
    rcases only inhabited _ member with left | right
    · exact absurd ((contains_iff halves _).mpr left) (by decide)
    · exact absurd ((contains_iff fillers _).mpr right) (by decide)

end Region

end OneCounter
