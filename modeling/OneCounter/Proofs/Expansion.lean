import OneCounter.Proofs.NormalForm

/-!
When a region has grown out of another one. The test asks for pieces that cover the old ones and for
a measure that is no smaller: the width and, on equal widths, the number of open ends. An open end
is read here as a place just inside the value that it stands at. The measure then is a length, and
the lengths of intervals that are apart add up to no more than that of an interval around them. Main
statement: a region that passes the test includes the old one, and if its width is a counter value
then every region that includes the old one passes.
-/

namespace OneCounter

/-! ### Places -/

/-- Places on the line: an integer, and how far before or after it. -/
abbrev Place := ℤ ×ₗ ℤ

namespace Bound

/-- The integer that a finite bound stands at. -/
def level : Bound → ℤ
  | finite a => a.toInt
  | _ => 0

theorem val_of_isFinite {b : Bound} (finite : b.isFinite = true) :
    b.val = ((b.level : ℚ) : ExtRat) := by
  cases b with
  | negInf => cases finite
  | finite a => rfl
  | posInf => cases finite

theorem isFinite_iff (b : Bound) : b.isFinite = true ↔ ⊥ < b.val ∧ b.val < ⊤ := by
  cases b with
  | negInf => simp [isFinite]
  | finite a => exact iff_of_true rfl ⟨ExtRat.bot_lt_coe _, ExtRat.coe_lt_top _⟩
  | posInf => simp [isFinite]

theorem val_lt_val_iff {a b : Bound} (left : a.isFinite = true) (right : b.isFinite = true) :
    a.val < b.val ↔ a.level < b.level := by
  rw [val_of_isFinite left, val_of_isFinite right, WithBotTop.coe_lt_coe, Int.cast_lt]

theorem val_eq_val_iff {a b : Bound} (left : a.isFinite = true) (right : b.isFinite = true) :
    a.val = b.val ↔ a.level = b.level := by
  rw [val_of_isFinite left, val_of_isFinite right, WithBotTop.coe_injective.eq_iff, Int.cast_inj]

end Bound

namespace Interval

/-- Both ends are counter values. -/
def Bounded (i : Interval) : Prop := i.low.isFinite = true ∧ i.high.isFinite = true

instance (i : Interval) : Decidable i.Bounded := inferInstanceAs (Decidable (_ ∧ _))

/-- Where the interval starts: an open end comes after its value. -/
def start (i : Interval) : Place := toLex (i.low.level, (!i.lowClosed).toNat)

/-- Where the interval stops: an open end comes before its value. -/
def stop (i : Interval) : Place := toLex (i.high.level, -(!i.highClosed).toNat)

section Bounded

variable {i j : Interval}

theorem start_le_stop (bounded : i.Bounded) (inhabited : i.isEmpty = false) :
    i.start ≤ i.stop := by
  rw [isEmpty_eq_false_iff, Bound.val_lt_val_iff bounded.1 bounded.2,
    Bound.val_eq_val_iff bounded.1 bounded.2] at inhabited
  rw [start, stop, Prod.Lex.toLex_le_toLex]
  rcases inhabited with less | ⟨same, lowClosed, highClosed⟩
  · exact Or.inl less
  · exact Or.inr ⟨same, by simp [lowClosed, highClosed]⟩

theorem Apart.stop_le_start (apart : i.Apart j) (left : i.Bounded) (right : j.Bounded) :
    i.stop ≤ j.start := by
  rw [apart_iff_val, Bound.val_lt_val_iff left.2 right.1,
    Bound.val_eq_val_iff left.2 right.1] at apart
  rw [start, stop, Prod.Lex.toLex_le_toLex]
  rcases apart with less | ⟨same, highOpen, lowOpen⟩
  · exact Or.inl less
  · exact Or.inr ⟨same, by simp [highOpen, lowOpen]⟩

theorem covers_iff_places (left : i.Bounded) (right : j.Bounded) :
    i.covers j = true ↔ i.start ≤ j.start ∧ j.stop ≤ i.stop := by
  rw [covers_iff, Bound.val_lt_val_iff left.1 right.1, Bound.val_eq_val_iff left.1 right.1,
    Bound.val_lt_val_iff right.2 left.2, Bound.val_eq_val_iff right.2 left.2, start, start, stop,
    stop, Prod.Lex.toLex_le_toLex, Prod.Lex.toLex_le_toLex]
  cases i.lowClosed <;> cases j.lowClosed <;> cases i.highClosed <;> cases j.highClosed <;> simp

end Bounded

/-! ### Lengths -/

/-- The length from start to stop. -/
def extent (i : Interval) : Place := i.stop - i.start

/-- The width before it saturates. -/
def span (i : Interval) : ℤ := i.high.level - i.low.level

theorem extent_eq (i : Interval) : i.extent = toLex (i.span, -(i.openEnds : ℤ)) := by
  apply ofLex.injective
  ext
  · rfl
  · change -((!i.highClosed).toNat : ℤ) - (!i.lowClosed).toNat = -(i.openEnds : ℤ)
    rw [openEnds]
    omega

/-- Intervals that are apart and lie between two places are no longer than the way between them. -/
theorem sum_extent_le {pieces : List Interval} (bounded : ∀ i ∈ pieces, i.Bounded)
    (apart : pieces.Pairwise Apart) {bottom top : Place} (ordered : bottom ≤ top)
    (above : ∀ i ∈ pieces, bottom ≤ i.start) (below : ∀ i ∈ pieces, i.stop ≤ top) :
    (pieces.map extent).sum ≤ top - bottom := by
  induction pieces generalizing bottom with
  | nil => simpa using ordered
  | cons i rest ih =>
      obtain ⟨here, later⟩ := List.forall_mem_cons.mp bounded
      obtain ⟨between, restApart⟩ := List.pairwise_cons.mp apart
      obtain ⟨stops, restBelow⟩ := List.forall_mem_cons.mp below
      -- The others start after the first one has stopped.
      have starts : ∀ j ∈ rest, i.stop ≤ j.start :=
        fun j piece => (between j piece).stop_le_start here (later j piece)
      have after : (rest.map extent).sum ≤ top - i.stop := ih later restApart stops starts restBelow
      calc ((i :: rest).map extent).sum
          = i.extent + (rest.map extent).sum := by rw [List.map_cons, List.sum_cons]
        _ ≤ i.extent + (top - i.stop) := by gcongr
        _ = top - i.start := sub_add_sub_cancel' _ _ _
        _ ≤ top - bottom := sub_le_sub_left (above i List.mem_cons_self) top

theorem sum_extent_le_of_covered {outer inner : List Interval}
    (outerBounded : ∀ i ∈ outer, i.Bounded) (innerBounded : ∀ j ∈ inner, j.Bounded)
    (inhabited : ∀ i ∈ outer, i.isEmpty = false) (apart : inner.Pairwise Apart)
    (covered : ∀ j ∈ inner, ∃ i ∈ outer, i.covers j = true) :
    (inner.map extent).sum ≤ (outer.map extent).sum := by
  induction outer generalizing inner with
  | nil =>
      cases inner with
      | nil => rfl
      | cons j others => simpa using covered j List.mem_cons_self
  | cons i rest ih =>
      obtain ⟨here, later⟩ := List.forall_mem_cons.mp outerBounded
      obtain ⟨filled, restFilled⟩ := List.forall_mem_cons.mp inhabited
      have within : ((inner.filter i.covers).map extent).sum ≤ i.extent := by
        apply sum_extent_le (fun j piece => innerBounded j (List.mem_of_mem_filter piece))
          (apart.filter _) (start_le_stop here filled)
        · intro j piece
          obtain ⟨present, covers⟩ := List.mem_filter.mp piece
          exact ((covers_iff_places here (innerBounded j present)).mp covers).1
        · intro j piece
          obtain ⟨present, covers⟩ := List.mem_filter.mp piece
          exact ((covers_iff_places here (innerBounded j present)).mp covers).2
      have outside : ((inner.filter (!i.covers ·)).map extent).sum ≤ (rest.map extent).sum := by
        apply ih later (fun j piece => innerBounded j (List.mem_of_mem_filter piece)) restFilled
          (apart.filter _)
        intro j piece
        obtain ⟨present, not⟩ := List.mem_filter.mp piece
        obtain ⟨k, listed, covers⟩ := covered j present
        rcases List.mem_cons.mp listed with same | other
        · rw [same] at covers
          simp [covers] at not
        · exact ⟨k, other, covers⟩
      have split := (List.filter_append_perm i.covers inner).map extent
      calc (inner.map extent).sum
          = ((inner.filter i.covers).map extent).sum +
              ((inner.filter (!i.covers ·)).map extent).sum := by
            rw [← split.sum_eq, List.map_append, List.sum_append]
        _ ≤ i.extent + (rest.map extent).sum := add_le_add within outside
        _ = ((i :: rest).map extent).sum := by rw [List.map_cons, List.sum_cons]

/-! ### Covering -/

theorem mem_of_covers {i inner : Interval} (covers : i.covers inner = true) {v : ExtRat}
    (member : v ∈ inner) : v ∈ i := by
  obtain ⟨low, high⟩ := (covers_iff i inner).mp covers
  obtain ⟨above, below⟩ := member
  simp only [mem_iff, AboveLow, BelowHigh] at *
  grind

/-- An interval around all values of another one covers it: a closed end is one of the values. -/
theorem covers_of_forall_mem {i inner : Interval} (inhabited : inner.isEmpty = false)
    (inside : ∀ v ∈ inner, v ∈ i) : i.covers inner = true := by
  have low := le_low_of_forall_le inhabited fun v member => low_le_of_mem (inside v member)
  have high := high_le_of_forall_le inhabited fun v member => le_high_of_mem (inside v member)
  have lowClosed (closed : inner.lowClosed = true) := inside _ (low_mem inhabited closed)
  have highClosed (closed : inner.highClosed = true) := inside _ (high_mem inhabited closed)
  rw [covers_iff]
  simp only [mem_iff, AboveLow, BelowHigh] at lowClosed highClosed
  grind

theorem Bounded.of_covers {i inner : Interval} (bounded : i.Bounded)
    (inhabited : inner.isEmpty = false) (covers : i.covers inner = true) : inner.Bounded := by
  obtain ⟨⟨aboveBot, _⟩, _, belowTop⟩ :=
    (bounded.imp (Bound.isFinite_iff _).mp (Bound.isFinite_iff _).mp : _ ∧ _)
  obtain ⟨v, member⟩ := exists_mem inhabited
  obtain ⟨low, high⟩ := (covers_iff i inner).mp covers
  have lowInside : i.low.val ≤ inner.low.val := low.elim le_of_lt fun same => same.1.le
  have highInside : inner.high.val ≤ i.high.val := high.elim le_of_lt fun same => same.1.le
  have ordered := (low_le_of_mem member).trans (le_high_of_mem member)
  exact ⟨(Bound.isFinite_iff _).mpr ⟨aboveBot.trans_le lowInside,
      (ordered.trans highInside).trans_lt belowTop⟩,
    (Bound.isFinite_iff _).mpr ⟨aboveBot.trans_le (lowInside.trans ordered),
      highInside.trans_lt belowTop⟩⟩

/-! ### Widths -/

theorem width_eq {i : Interval} (bounded : i.Bounded) : i.width = .finite (.clamp i.span) := by
  obtain ⟨low, lowClosed, high, highClosed⟩ := i
  obtain ⟨lowFinite, highFinite⟩ := bounded
  cases low with
  | negInf => cases lowFinite
  | posInf => cases lowFinite
  | finite a =>
      cases high with
      | negInf => cases highFinite
      | posInf => cases highFinite
      | finite b => rfl

theorem span_nonneg {i : Interval} (bounded : i.Bounded) (inhabited : i.isEmpty = false) :
    0 ≤ i.span := by
  rw [isEmpty_eq_false_iff, Bound.val_lt_val_iff bounded.1 bounded.2,
    Bound.val_eq_val_iff bounded.1 bounded.2] at inhabited
  rw [span]
  omega

end Interval

namespace Region

/-- The width before it saturates. -/
def span (r : Region) : ℤ := (r.pieces.map Interval.span).sum

def extent (r : Region) : Place := (r.pieces.map Interval.extent).sum

theorem openEnds_eq (r : Region) : r.openEnds = (r.pieces.map Interval.openEnds).sum := by
  rw [openEnds, List.sum_eq_foldl, List.foldl_map]

theorem extent_eq (r : Region) : r.extent = toLex (r.span, -(r.openEnds : ℤ)) := by
  rw [extent, span, openEnds_eq]
  induction r.pieces with
  | nil => rfl
  | cons i rest ih =>
      simp only [List.map_cons, List.sum_cons, ih, Interval.extent_eq, Nat.cast_add, neg_add]
      rfl

/-- Widths that are not negative may be added up before they saturate. -/
theorem foldl_width {pieces : List Interval} (bounded : ∀ i ∈ pieces, i.Bounded)
    (inhabited : ∀ i ∈ pieces, i.isEmpty = false) {total : ℤ} (nonneg : 0 ≤ total) :
    pieces.foldl (fun sum i => sum + i.width) (.finite (.clamp total)) =
      .finite (.clamp (total + (pieces.map Interval.span).sum)) := by
  induction pieces generalizing total with
  | nil => simp
  | cons i rest ih =>
      obtain ⟨here, later⟩ := List.forall_mem_cons.mp bounded
      obtain ⟨filled, restFilled⟩ := List.forall_mem_cons.mp inhabited
      have wide := Interval.span_nonneg here filled
      have step : Bound.finite (.clamp total) + i.width = .finite (.clamp (total + i.span)) := by
        rw [Interval.width_eq here]
        apply congrArg Bound.finite
        apply Count.ext
        rw [Count.toInt_add]
        simp only [Count.toInt_clamp]
        omega
      rw [List.foldl_cons, step, ih later restFilled (by omega), List.map_cons, List.sum_cons,
        add_assoc]

theorem width_eq {r : Region} (bounded : ∀ i ∈ r.pieces, i.Bounded)
    (inhabited : ∀ i ∈ r.pieces, i.isEmpty = false) : r.width = .finite (.clamp r.span) := by
  have sum := foldl_width bounded inhabited (le_refl 0)
  rwa [zero_add] at sum

/-- A region that is no shorter than another one is not taken to be smaller, provided that its own
width does not saturate. -/
theorem isSmallerThan_eq_false {r s : Region} (left : ∀ i ∈ r.pieces, i.Bounded)
    (right : ∀ i ∈ s.pieces, i.Bounded) (leftFilled : ∀ i ∈ r.pieces, i.isEmpty = false)
    (rightFilled : ∀ i ∈ s.pieces, i.isEmpty = false) (fits : r.span ≤ Count.greatest.toInt)
    (longer : s.extent ≤ r.extent) : r.isSmallerThan s = false := by
  rw [extent_eq, extent_eq, Prod.Lex.toLex_le_toLex] at longer
  change r.span ≤ 9223372036854775807 at fits
  have nonneg : 0 ≤ s.span := List.sum_nonneg (by
    simpa using fun i piece => Interval.span_nonneg (right i piece) (rightFilled i piece))
  simp only [isSmallerThan, width_eq left leftFilled, width_eq right rightFilled,
    Bool.or_eq_false_iff, Bool.and_eq_false_iff, decide_eq_false_iff_not, Bound.finite.injEq,
    Count.ext_iff, Count.toInt_clamp]
  constructor
  · change ¬ (Count.clamp r.span).toInt < (Count.clamp s.span).toInt
    rw [Count.toInt_clamp, Count.toInt_clamp]
    omega
  · omega

/-! ### The test -/

/-- An interval whose values are all in a region in normal form lies within one of its pieces. -/
theorem Normal.exists_covers {r : Region} (normal : r.Normal) {j : Interval}
    (inhabited : j.isEmpty = false) (inside : ∀ v ∈ j, v ∈ r) :
    ∃ i ∈ r.pieces, i.covers j = true := by
  obtain ⟨x, shared⟩ := Interval.exists_mem inhabited
  obtain ⟨i, piece, start⟩ := inside x shared
  refine ⟨i, piece, Interval.covers_of_forall_mem inhabited ?_⟩
  intro v member
  exact normal.mem_of_meets piece inside start shared member

theorem expands_iff (r before : Region) : r.expands before = true ↔
    r.isSmallerThan before = false ∧
      ∀ old ∈ before.pieces, ∃ new ∈ r.pieces, new.covers old = true := by
  simp [expands]

/-- All ends are counter values, and so is the sum of the widths. As no width is negative, none of
them saturates then. -/
structure Measured (r : Region) : Prop where
  bounded : ∀ i ∈ r.pieces, i.Bounded
  fits : r.span ≤ Count.greatest.toInt

theorem measured_iff (r : Region) :
    r.Measured ↔ (∀ i ∈ r.pieces, i.Bounded) ∧ r.span ≤ Count.greatest.toInt :=
  ⟨fun measured => ⟨measured.bounded, measured.fits⟩, fun parts => ⟨parts.1, parts.2⟩⟩

instance (r : Region) : Decidable r.Measured := decidable_of_iff' _ r.measured_iff

/-- The measure does not stand in the way of an inclusion. Only the larger region has to be bounded:
the other one then is no wider. -/
theorem expands_of_forall_mem {r before : Region} (normal : r.Normal) (oldNormal : before.Normal)
    (measured : r.Measured) (inside : ∀ v ∈ before, v ∈ r) : r.expands before = true := by
  have covered : ∀ old ∈ before.pieces, ∃ new ∈ r.pieces, new.covers old = true := by
    intro old piece
    exact normal.exists_covers (oldNormal.inhabited old piece) fun v member =>
      inside v ⟨old, piece, member⟩
  have oldBounded : ∀ old ∈ before.pieces, old.Bounded := by
    intro old piece
    obtain ⟨new, present, covers⟩ := covered old piece
    exact (measured.bounded new present).of_covers (oldNormal.inhabited old piece) covers
  refine (expands_iff r before).mpr ⟨?_, covered⟩
  exact isSmallerThan_eq_false measured.bounded oldBounded normal.inhabited oldNormal.inhabited
    measured.fits (Interval.sum_extent_le_of_covered measured.bounded oldBounded normal.inhabited
      oldNormal.apart covered)

theorem expands_decides_inclusion {r before : Region} (normal : r.Normal)
    (oldNormal : before.Normal) :
    (r.expands before = true → ∀ v : ExtRat, v ∈ before → v ∈ r) ∧
      (r.Measured → (∀ v : ExtRat, v ∈ before → v ∈ r) → r.expands before = true) := by
  refine ⟨?_, expands_of_forall_mem normal oldNormal⟩
  rintro expands v ⟨old, piece, member⟩
  obtain ⟨new, present, covers⟩ := ((expands_iff r before).mp expands).2 old piece
  exact ⟨new, present, Interval.mem_of_covers covers member⟩

/-- A ray is not taken for an expansion of a shorter one that starts with a closed end: both are
infinitely wide, so that the open ends decide. -/
example : (ofInterval ⟨0, false, .posInf, false⟩).expands
    (ofInterval ⟨.finite (.clamp 1), true, .posInf, false⟩) = false := by decide

/-- Pieces with a hole between them, as wide as the interval without it. -/
def holed : Region :=
  ⟨[⟨0, true, .finite (.clamp 4), false⟩, ⟨.finite (.clamp 4), false, .finite (.clamp 9), true⟩]⟩

/-- The hole is filled, and a point is added. -/
def mended : Region :=
  ⟨[⟨0, true, .finite (.clamp 9), true⟩, .point (.finite (.clamp 12))]⟩

theorem mended_expands_holed : mended.Measured ∧ mended.width = holed.width ∧
    (∀ v : ExtRat, v ∈ holed → v ∈ mended) ∧ mended.expands holed = true := by
  have measured : mended.Measured := by decide
  have inside : ∀ v : ExtRat, v ∈ holed → v ∈ mended := by
    have covered : ∀ old ∈ holed.pieces, ∃ new ∈ mended.pieces, new.covers old = true := by decide
    rintro v ⟨old, piece, member⟩
    obtain ⟨new, present, covers⟩ := covered old piece
    exact ⟨new, present, Interval.mem_of_covers covers member⟩
  exact ⟨measured, by decide, inside,
    (expands_decides_inclusion (by decide) (by decide)).2 measured inside⟩

end Region

end OneCounter
