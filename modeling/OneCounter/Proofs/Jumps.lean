import OneCounter.Proofs.Rounds

/-!
What jumps add. A jump fills an entry with all that its node admits beyond the values held there,
so that neither the loop that jumps nor the order of the jumps matters. Main statement: after the
jumps of any loops an entry holds what it held before, and what its node admits beyond all of that
in the direction of one of the loops that aim at it.
-/

namespace OneCounter

namespace Direction

theorem before_trans {direction : Direction} {u v w : ExtRat} (first : direction.Before u v)
    (second : direction.Before v w) : direction.Before u w := by
  cases direction with
  | up => exact le_trans first second
  | down => exact le_trans second first

/-- What is ahead in one direction is behind in the other. -/
theorem before_of_ne {direction other : Direction} (different : direction ≠ other) {u v : ExtRat}
    (before : direction.Before u v) : other.Before v u := by
  cases direction with
  | up =>
      cases other with
      | up => exact absurd rfl different
      | down => exact before
  | down =>
      cases other with
      | up => exact before
      | down => exact absurd rfl different

end Direction

/-! ### Stretching is exact -/

namespace Interval

variable {i : Interval} {limit : Bound} {closed : Bool} {v : ExtRat}

/-- A raised upper end adds values beyond all that were there. -/
theorem beyond_of_mem_setHigh (member : v ∈ i.setHigh limit closed) (new : v ∉ i) :
    ∀ u ∈ i, u ≤ v := by
  intro u held
  have outside : ¬ i.BelowHigh v := fun below => new ⟨member.1, below⟩
  exact (le_high_of_mem held).trans (not_lt.mp fun less => outside (Or.inl less))

/-- A lowered lower end adds values beyond all that were there. -/
theorem beyond_of_mem_setLow (member : v ∈ i.setLow limit closed) (new : v ∉ i) :
    ∀ u ∈ i, v ≤ u := by
  intro u held
  have outside : ¬ i.AboveLow v := fun above => new ⟨above, member.2⟩
  exact (not_lt.mp fun less => outside (Or.inl less)).trans (low_le_of_mem held)

theorem mem_setHigh_of_le {u : ExtRat} (held : u ∈ i) (above : u ≤ v) (below : v ≤ limit.val)
    (ends : v = limit.val → closed = true) : v ∈ i.setHigh limit closed := by
  constructor
  · rcases held.1 with less | ⟨same, isClosed⟩
    · exact Or.inl (less.trans_le above)
    · rcases (same.le.trans above).lt_or_eq with less | equal
      · exact Or.inl less
      · exact Or.inr ⟨equal, isClosed⟩
  · rcases below.lt_or_eq with less | same
    · exact Or.inl less
    · exact Or.inr ⟨same, ends same⟩

theorem mem_setLow_of_le {u : ExtRat} (held : u ∈ i) (below : v ≤ u) (above : limit.val ≤ v)
    (ends : v = limit.val → closed = true) : v ∈ i.setLow limit closed := by
  constructor
  · rcases above.lt_or_eq with less | same
    · exact Or.inl less
    · exact Or.inr ⟨same, ends same.symm⟩
  · rcases held.2 with less | ⟨same, isClosed⟩
    · exact Or.inl (below.trans_lt less)
    · rcases (below.trans same.le).lt_or_eq with less | equal
      · exact Or.inl less
      · exact Or.inr ⟨equal, isClosed⟩

end Interval

namespace Region

variable {r : Region} {limit : Bound} {closed : Bool} {v : ExtRat}

theorem beyond_of_mem_setSup (normal : r.Normal) (member : v ∈ r.setSup limit closed)
    (new : v ∉ r) : ∀ u ∈ r, u ≤ v := by
  obtain ⟨pieces⟩ := r
  rcases List.eq_nil_or_concat pieces with rfl | ⟨front, last, rfl⟩
  · exact absurd member (not_mem_empty v)
  · rw [List.concat_eq_append] at *
    rw [setSup, setLastHigh_append] at member
    have apart := List.pairwise_append.mp normal.apart
    obtain ⟨piece, present, inside⟩ := member
    rcases List.mem_append.mp present with early | same
    · exact absurd ⟨piece, List.mem_append_left _ early, inside⟩ new
    · -- The new value is past the last piece, and all other pieces come before that.
      obtain rfl := List.mem_singleton.mp same
      have lastPiece : last ∈ front ++ [last] := by simp
      have beyond := Interval.beyond_of_mem_setHigh inside
        fun held => new ⟨last, lastPiece, held⟩
      rintro u ⟨k, holder, held⟩
      rcases List.mem_append.mp holder with early | same
      · obtain ⟨w, there⟩ := Interval.exists_mem (normal.inhabited last lastPiece)
        exact ((apart.2.2 k early last (List.mem_singleton.mpr rfl)).lt held there).le.trans
          (beyond w there)
      · exact beyond u (List.mem_singleton.mp same ▸ held)

theorem beyond_of_mem_setInf (normal : r.Normal) (member : v ∈ r.setInf limit closed)
    (new : v ∉ r) : ∀ u ∈ r, v ≤ u := by
  obtain ⟨pieces⟩ := r
  cases pieces with
  | nil => exact absurd member (not_mem_empty v)
  | cons first rest =>
      obtain ⟨piece, present, inside⟩ := member
      rcases List.mem_cons.mp present with same | later
      · subst same
        have beyond := Interval.beyond_of_mem_setLow inside
          fun held => new ⟨first, List.mem_cons_self, held⟩
        rintro u ⟨k, holder, held⟩
        rcases List.mem_cons.mp holder with same | later
        · exact beyond u (same ▸ held)
        · obtain ⟨w, there⟩ := Interval.exists_mem (normal.inhabited first List.mem_cons_self)
          exact (beyond w there).trans (normal.lt_of_later later there held).le
      · exact absurd ⟨piece, List.mem_cons_of_mem first later, inside⟩ new

theorem mem_setSup_of_beyond (normal : r.Normal) (inhabited : r.isEmpty = false)
    (beyond : ∀ u ∈ r, u ≤ v) (below : v ≤ limit.val) (ends : v = limit.val → closed = true) :
    v ∈ r.setSup limit closed := by
  obtain ⟨pieces⟩ := r
  rcases List.eq_nil_or_concat pieces with rfl | ⟨front, last, rfl⟩
  · cases inhabited
  · rw [List.concat_eq_append] at *
    have lastPiece : last ∈ front ++ [last] := by simp
    obtain ⟨u, held⟩ := Interval.exists_mem (normal.inhabited last lastPiece)
    rw [setSup, setLastHigh_append]
    exact ⟨last.setHigh limit closed, by simp,
      Interval.mem_setHigh_of_le held (beyond u ⟨last, lastPiece, held⟩) below ends⟩

theorem mem_setInf_of_beyond (normal : r.Normal) (inhabited : r.isEmpty = false)
    (beyond : ∀ u ∈ r, v ≤ u) (above : limit.val ≤ v) (ends : v = limit.val → closed = true) :
    v ∈ r.setInf limit closed := by
  obtain ⟨pieces⟩ := r
  cases pieces with
  | nil => cases inhabited
  | cons first rest =>
      obtain ⟨u, held⟩ := Interval.exists_mem (normal.inhabited first List.mem_cons_self)
      exact ⟨first.setLow limit closed, List.mem_cons_self,
        Interval.mem_setLow_of_le held (beyond u ⟨first, List.mem_cons_self, held⟩) above ends⟩

/-- A stretch adds the values between all those that were there and the limit. -/
theorem Normal.mem_stretch_iff (normal : r.Normal) (inhabited : r.isEmpty = false)
    {direction : Direction} (bounded : ∀ u ∈ r, direction.Before u limit.val)
    (ends : limit.val ∈ r → closed = true) (v : ExtRat) :
    v ∈ r.stretch direction limit closed ↔ v ∈ r ∨ ((∀ u ∈ r, direction.Before u v) ∧
      direction.Before v limit.val ∧ (v = limit.val → closed = true)) := by
  have stretched := normal.stretch bounded ends
  constructor
  · intro member
    by_cases old : v ∈ r
    · exact Or.inl old
    · obtain ⟨_, _, _, before, closes⟩ := stretched.between v member
      refine Or.inr ⟨?_, before, closes⟩
      cases direction with
      | up => exact beyond_of_mem_setSup normal member old
      | down => exact beyond_of_mem_setInf normal member old
  · rintro (old | ⟨beyond, before, closes⟩)
    · exact stretched.keeps v old
    · cases direction with
      | up => exact mem_setSup_of_beyond normal inhabited beyond before closes
      | down => exact mem_setInf_of_beyond normal inhabited beyond before closes

end Region

/-! ### One jump -/

/-- The loop jumps in the direction once there are values at the node from the origin. -/
def Tracker.Aims (tracker : Tracker) (direction : Direction) (node origin : String) : Prop :=
  (tracker.gauge direction).grown = true ∧ (tracker.loop.side direction).moves = true ∧
    ∃ target, tracker.loop.target? direction = some target ∧ target.node = node ∧
      target.origin = origin

/-- There are values at the node from the origin, and this one lies beyond all of them. -/
def Reach.Beyond (reach : Reach) (direction : Direction) (node origin : String) (v : ExtRat) :
    Prop :=
  (∃ u, reach.Holds node origin u) ∧ ∀ u, reach.Holds node origin u → direction.Before u v

theorem Reach.holds_iff_mem {reach : Reach} {node origin : String} {values : Region}
    (found : reach.values? node origin = some values) (v : ExtRat) :
    reach.Holds node origin v ↔ v ∈ values := by
  simp [Holds, found]

theorem Reach.beyond_iff_mem {reach : Reach} {direction : Direction} {node origin : String}
    {values : Region} (found : reach.values? node origin = some values)
    (inhabited : values.isEmpty = false) (v : ExtRat) :
    reach.Beyond direction node origin v ↔ ∀ u ∈ values, direction.Before u v := by
  obtain ⟨u, member⟩ := Region.exists_mem inhabited
  simp only [Beyond, holds_iff_mem found]
  exact and_iff_right ⟨u, member⟩

namespace Solver

variable {s : Solver} {reach : Reach} {tracker : Tracker} {direction : Direction} {jump : Jump}
  {initial : String} {nodes : List String}

/-- A jump fills its entry with all that the node admits beyond the values there. -/
theorem mem_jump_iff (read : tracker.loop = Loop.ofNodes s.automaton nodes)
    (valid : reach.Valid s.automaton initial)
    (found : s.jump? reach tracker direction = some jump) (x : ℚ) :
    (x : ExtRat) ∈ jump.values ↔ reach.Holds jump.node jump.origin x ∨
      (s.automaton.Admits jump.node x ∧ reach.Beyond direction jump.node jump.origin x) := by
  obtain ⟨target, values, aims, present, inhabited, _, _, rfl⟩ := jump?_eq_some found
  rw [read] at aims
  have suits := Loop.suits_of_target? aims
  have ordered := valid.ordered present inhabited
  have exact := (valid.normal _ _ _ present).mem_stretch_iff inhabited
    (fun u member => suits.before_limit (valid.admits_of_mem present member))
    (fun member => by
      obtain ⟨y, same⟩ := valid.finite present _ member
      exact suits.infinite_of_open y same) x
  rw [Region.mem_restrict_iff _ ordered, exact, Reach.holds_iff_mem present,
    Reach.beyond_iff_mem present inhabited]
  constructor
  · rintro ⟨old | ⟨beyond, before, _⟩, inside⟩
    · exact Or.inl old
    · -- Between the values and the limit the guard of the node accepts everything.
      obtain ⟨u, member⟩ := Region.exists_mem inhabited
      exact Or.inr ⟨⟨inside.lower_le, inside.le_upper, suits.accepts_between
        (valid.admits_of_mem present member) (beyond u member) before⟩, beyond⟩
  · rintro (old | ⟨admits, beyond⟩)
    · have admits := valid.admits_of_mem present old
      exact ⟨Or.inl old, admits.lower_le, admits.le_upper, by simp⟩
    · exact ⟨Or.inr ⟨beyond, suits.before_limit admits,
        fun same => suits.infinite_of_open x same.symm⟩, admits.lower_le, admits.le_upper, by simp⟩

/-- What is left after a loop has had its turn. -/
def leap (s : Solver) (reach : Reach) (turn : Tracker × Direction) : Reach :=
  match s.jump? reach turn.1 turn.2 with
  | none => reach
  | some jump => jump.apply reach

theorem foldl_jumps (s : Solver) (reach : Reach) (turns : List (Tracker × Direction)) :
    (s.jumps reach turns).foldl Jump.apply reach = turns.foldl s.leap reach := by
  induction turns generalizing reach with
  | nil => rfl
  | cons turn rest ih =>
      obtain ⟨tracker, direction⟩ := turn
      simp only [jumps, List.foldl_cons, leap]
      cases s.jump? reach tracker direction with
      | none => exact ih reach
      | some jump => exact ih (jump.apply reach)

theorem jump?_ne_none {node origin : String} (aims : tracker.Aims direction node origin)
    (held : ∃ u, reach.Holds node origin u) : s.jump? reach tracker direction ≠ none := by
  obtain ⟨grown, moves, target, aims, rfl, rfl⟩ := aims
  obtain ⟨u, values, found, member⟩ := held
  simp [jump?, grown, moves, aims, found, Region.isEmpty_eq_false_of_mem member, guard]

theorem aims_of_jump? (found : s.jump? reach tracker direction = some jump) :
    tracker.Aims direction jump.node jump.origin ∧ ∃ u, reach.Holds jump.node jump.origin u := by
  obtain ⟨target, values, aims, present, inhabited, grown, moves, rfl⟩ := jump?_eq_some found
  obtain ⟨u, member⟩ := Region.exists_mem inhabited
  exact ⟨⟨grown, moves, target, aims, rfl, rfl⟩, u, values, present, member⟩

/-- A loop aims at one place only. -/
theorem place_of_aims (found : s.jump? reach tracker direction = some jump) {node origin : String}
    (aims : tracker.Aims direction node origin) : node = jump.node ∧ origin = jump.origin := by
  obtain ⟨⟨_, _, target, aimed, same, sameOrigin⟩, _⟩ := aims_of_jump? found
  obtain ⟨_, _, other, hit, rfl, rfl⟩ := aims
  obtain rfl := Option.some.inj (aimed.symm.trans hit)
  exact ⟨same, sameOrigin⟩

theorem holds_leap_iff (direction : Direction)
    (read : tracker.loop = Loop.ofNodes s.automaton nodes)
    (valid : reach.Valid s.automaton initial) (node origin : String) (x : ℚ) :
    (s.leap reach (tracker, direction)).Holds node origin x ↔ reach.Holds node origin x ∨
      (tracker.Aims direction node origin ∧ s.automaton.Admits node x ∧
        reach.Beyond direction node origin x) := by
  cases found : s.jump? reach tracker direction with
  | none =>
      have still : s.leap reach (tracker, direction) = reach := by simp only [leap, found]
      rw [still]
      constructor
      · exact Or.inl
      · rintro (old | ⟨aims, _, held, _⟩)
        · exact old
        · exact absurd found (jump?_ne_none aims held)
  | some jump =>
      have moved : s.leap reach (tracker, direction) = jump.apply reach := by simp only [leap, found]
      obtain ⟨_, _, values, present, _⟩ := aims_of_jump? found
      have place := Jump.values?_apply (Reach.mem_keys_of_values? present) node origin
      rw [moved, Reach.Holds, place]
      by_cases here : node = jump.node ∧ origin = jump.origin
      · obtain ⟨rfl, rfl⟩ := here
        simp only [and_self, if_true, Option.some.injEq, exists_eq_left',
          mem_jump_iff read valid found x, (aims_of_jump? found).1, true_and]
      · rw [if_neg here]
        constructor
        · exact Or.inl
        · rintro (old | ⟨aims, _⟩)
          · exact old
          · exact absurd (place_of_aims found aims) here

theorem leap_valid (direction : Direction)
    (read : tracker.loop = Loop.ofNodes s.automaton nodes)
    (valid : reach.Valid s.automaton initial) :
    (s.leap reach (tracker, direction)).Valid s.automaton initial ∧
      reach.Within (s.leap reach (tracker, direction)) := by
  unfold leap
  split
  · exact ⟨valid, Reach.Within.refl reach⟩
  · next jump found => exact jump_valid read valid found

/-- A jump replaces an entry that is there, and adds none. -/
theorem isSome_values?_leap (s : Solver) (reach : Reach) (turn : Tracker × Direction)
    (node origin : String) :
    ((s.leap reach turn).values? node origin).isSome = (reach.values? node origin).isSome := by
  unfold leap
  split
  · rfl
  · next jump found =>
      obtain ⟨_, _, values, present, _⟩ := aims_of_jump? found
      rw [Jump.values?_apply (Reach.mem_keys_of_values? present)]
      split
      · next here => simp [here, present]
      · rfl

/-! ### Any number of jumps -/

section Turns

variable {other : Direction} {node origin : String} {x : ℚ}

/-- A value beyond an entry is taken in by a jump, or it is beyond the entry still. -/
theorem beyond_leap (direction : Direction)
    (read : tracker.loop = Loop.ofNodes s.automaton nodes)
    (valid : reach.Valid s.automaton initial) (admits : s.automaton.Admits node x)
    (beyond : reach.Beyond other node origin x) :
    (s.leap reach (tracker, direction)).Holds node origin x ∨
      (s.leap reach (tracker, direction)).Beyond other node origin x := by
  obtain ⟨stillValid, grows⟩ := leap_valid direction read valid
  have added := holds_leap_iff direction read valid node origin
  obtain ⟨⟨u, held⟩, all⟩ := beyond
  by_cases taken : tracker.Aims direction node origin ∧ direction = other
  · obtain ⟨aims, rfl⟩ := taken
    exact Or.inl ((added x).mpr (Or.inr ⟨aims, admits, ⟨u, held⟩, all⟩))
  · refine Or.inr ⟨⟨u, grows.holds held⟩, ?_⟩
    rintro w ⟨values, found, member⟩
    obtain ⟨y, rfl⟩ := stillValid.finite found w member
    rcases (added y).mp ⟨values, found, member⟩ with old | ⟨aims, _, _, new⟩
    · exact all y old
    · -- The jump went the other way, so what it has added lies behind the old values.
      have different : direction ≠ other := fun same => taken ⟨aims, same⟩
      exact Direction.before_trans (Direction.before_of_ne different (new u held)) (all u held)

theorem beyond_of_beyond_leap (read : tracker.loop = Loop.ofNodes s.automaton nodes)
    (valid : reach.Valid s.automaton initial)
    (beyond : (s.leap reach (tracker, direction)).Beyond other node origin x) :
    reach.Beyond other node origin x := by
  obtain ⟨stillValid, grows⟩ := leap_valid direction read valid
  obtain ⟨⟨u, values, found, member⟩, all⟩ := beyond
  obtain ⟨y, rfl⟩ := stillValid.finite found u member
  refine ⟨?_, fun w old => all w (grows.holds old)⟩
  rcases (holds_leap_iff direction read valid node origin y).mp ⟨values, found, member⟩ with
    old | ⟨_, _, held, _⟩
  · exact ⟨y, old⟩
  · exact held

/-- The loops take their turns one after the other, but all that counts is what was held before
the first of them. -/
theorem holds_leaps_iff {turns : List (Tracker × Direction)}
    (read : ∀ turn ∈ turns, ∃ nodes, turn.1.loop = Loop.ofNodes s.automaton nodes)
    (valid : reach.Valid s.automaton initial) :
    (turns.foldl s.leap reach).Holds node origin x ↔ reach.Holds node origin x ∨
      (∃ turn ∈ turns, turn.1.Aims turn.2 node origin ∧ s.automaton.Admits node x ∧
        reach.Beyond turn.2 node origin x) := by
  induction turns generalizing reach with
  | nil => simp
  | cons turn rest ih =>
      obtain ⟨tracker, direction⟩ := turn
      obtain ⟨nodes, first⟩ := read (tracker, direction) List.mem_cons_self
      have added := holds_leap_iff direction first valid node origin x
      have later := ih (fun other member => read other (List.mem_cons_of_mem _ member))
        (leap_valid direction first valid).1
      rw [List.foldl_cons, later]
      constructor
      · rintro (now | ⟨turn, member, aims, admits, beyond⟩)
        · rcases added.mp now with old | new
          · exact Or.inl old
          · exact Or.inr ⟨(tracker, direction), List.mem_cons_self, new⟩
        · exact Or.inr ⟨turn, List.mem_cons_of_mem _ member, aims, admits,
            beyond_of_beyond_leap first valid beyond⟩
      · rintro (old | ⟨turn, member, aims, admits, beyond⟩)
        · exact Or.inl (added.mpr (Or.inl old))
        · rcases List.mem_cons.mp member with rfl | others
          · exact Or.inl (added.mpr (Or.inr ⟨aims, admits, beyond⟩))
          · rcases beyond_leap direction first valid admits beyond with now | still
            · exact Or.inl now
            · exact Or.inr ⟨turn, others, aims, admits, still⟩

end Turns

theorem isSome_values?_leaps (s : Solver) (reach : Reach) (turns : List (Tracker × Direction))
    (node origin : String) :
    ((turns.foldl s.leap reach).values? node origin).isSome =
      (reach.values? node origin).isSome := by
  induction turns generalizing reach with
  | nil => rfl
  | cons turn rest ih => rw [List.foldl_cons, ih, isSome_values?_leap]

/-- Acceleration fills an entry with all that the node admits beyond it, in each direction in
which a loop is due and aims there. -/
theorem holds_accelerate_iff (loops : s.LoopsRead) (valid : reach.Valid s.automaton initial)
    (node origin : String) (x : ℚ) :
    (s.accelerate reach).Holds node origin x ↔ reach.Holds node origin x ∨
      (∃ turn ∈ s.due, turn.1.Aims turn.2 node origin ∧ s.automaton.Admits node x ∧
        reach.Beyond turn.2 node origin x) := by
  rw [accelerate, foldl_jumps]
  exact holds_leaps_iff (fun turn due => loops turn.1 ((mem_due_iff s turn.1 turn.2).mp due).1) valid

theorem isSome_values?_accelerate (s : Solver) (reach : Reach) (node origin : String) :
    ((s.accelerate reach).values? node origin).isSome = (reach.values? node origin).isSome := by
  rw [accelerate, foldl_jumps, isSome_values?_leaps]

end Solver

end OneCounter
