import OneCounter.Proofs.Radius
import OneCounter.Proofs.Reflection.Automaton
import OneCounter.Proofs.Termination

/-!
Reflection of an analysis at zero. Main statement: as long as no end of an interval can leave the
counter range, the analysis of the reflected automaton is the reflection of the analysis, entry by
entry and loop by loop, whichever loops are accelerated.
-/

namespace OneCounter

theorem Count.adds_neg_iff {delta : Count} (h : delta ≠ .least) (t : ℚ) :
    (-delta).Adds t ↔ delta.Adds (-t) := by
  have value := toInt_neg_of_ne h
  rcases lt_trichotomy delta.toInt 0 with down | none | up
  · rw [adds_iff_of_pos (by omega), adds_iff_of_neg down, value, Int.cast_neg, neg_lt_zero,
      le_neg, and_comm]
  · obtain rfl : delta = 0 := ext none
    rw [adds_zero_iff, neg_eq_zero]
    exact adds_zero_iff t
  · rw [adds_iff_of_neg (by omega), adds_iff_of_pos up, value, Int.cast_neg, neg_pos, neg_le,
      and_comm]

theorem SameSide.neg {radius : Nat} {x y : ℚ} (side : SameSide radius x y) :
    SameSide radius (-x) (-y) := by
  rcases side with ⟨left, right⟩ | ⟨left, right⟩
  · exact Or.inr ⟨neg_lt_neg left, neg_lt_neg right⟩
  · exact Or.inl ⟨lt_neg.mpr left, lt_neg.mpr right⟩

/-! ### Entries -/

namespace Reach

def reflect (reach : Reach) : Reach :=
  reach.map fun _ arrivals => arrivals.map fun _ values => values.reflect

/-- Every entry can be reflected and gets back by it. -/
def Reflectable (reach : Reach) : Prop :=
  ∀ node origin values, reach.values? node origin = some values → values.Reflectable

variable {reach other : Reach} {a b : Automaton} {initial node origin : String} {radius : Nat}

theorem keys_reflect (reach : Reach) : reach.reflect.keys = reach.keys := Table.keys_map _ reach

theorem values?_reflect (reach : Reach) (node origin : String) :
    reach.reflect.values? node origin = (reach.values? node origin).map Region.reflect := by
  simp only [values?, reflect, Table.get?_map]
  cases reach.get? node with
  | none => rfl
  | some arrivals => simp [Table.get?_map]

theorem reflect_reflect (h : reach.Reflectable) : reach.reflect.reflect = reach := by
  apply eq_of_values?
  · rw [keys_reflect, keys_reflect]
  · intro node origin
    rw [values?_reflect, values?_reflect]
    cases found : reach.values? node origin with
    | none => rfl
    | some values => simp [Region.reflect_reflect (h node origin values found)]

theorem reflect_inj (h : reach.Reflectable) (ho : other.Reflectable) :
    reach.reflect = other.reflect ↔ reach = other := by
  constructor
  · intro same
    rw [← reflect_reflect h, same, reflect_reflect ho]
  · exact congrArg reflect

theorem holds_reflect_iff (h : reach.Reflectable) (node origin : String) (v : ExtRat) :
    reach.reflect.Holds node origin v ↔ reach.Holds node origin v.reflect := by
  simp only [Holds, values?_reflect, Option.map_eq_some_iff]
  constructor
  · rintro ⟨_, ⟨values, found, rfl⟩, member⟩
    exact ⟨values, found, (Region.mem_reflect_iff (h _ _ _ found) v).mp member⟩
  · rintro ⟨values, found, member⟩
    exact ⟨_, ⟨values, found, rfl⟩, (Region.mem_reflect_iff (h _ _ _ found) v).mpr member⟩

/-- Ends within the range of the counter, the least value apart, can be reflected. -/
theorem Settled.reflectable (settled : reach.Settled radius) (valid : reach.Valid a initial)
    (room : (radius : Int) ≤ Count.greatest.toInt) : reach.Reflectable := by
  intro node origin values found
  have normal := valid.normal _ _ _ found
  have near := settled.values found
  refine ⟨normal, fun i piece => ⟨?_, ?_⟩⟩
  · intro least
    have within := normal.ends_near (valid.finite found) near piece (Or.inl least)
    exact Count.ne_least_of_natAbs_le within room rfl
  · intro least
    have within := normal.ends_near (valid.finite found) near piece (Or.inr least)
    exact Count.ne_least_of_natAbs_le within room rfl

theorem Settled.reflect (settled : reach.Settled radius) (h : reach.Reflectable) :
    reach.reflect.Settled radius := by
  intro node origin x y side held
  rw [holds_reflect_iff h] at *
  exact settled node origin (-x) (-y) side.neg held

/-- An entry of a valid state is known by whether it is there and by its rational values. -/
theorem eq_reflect (valid : reach.Valid a initial) (h : reach.Reflectable)
    (otherValid : other.Valid b initial) (visible : b.visible = a.visible)
    (present : ∀ node origin,
      (other.values? node origin).isSome = (reach.values? node origin).isSome)
    (held : ∀ node origin (x : ℚ),
      other.Holds node origin x ↔ reach.Holds node origin (ExtRat.reflect x)) :
    other = reach.reflect := by
  apply eq_of_values?
  · rw [otherValid.keys, keys_reflect, valid.keys, visible]
  · intro node origin
    have both := present node origin
    rw [values?_reflect]
    cases new : other.values? node origin with
    | none =>
        rw [new, Option.isSome_none, eq_comm, Option.isSome_eq_false_iff, Option.isNone_iff_eq_none]
          at both
        rw [both, Option.map_none]
    | some grown =>
        rw [new, Option.isSome_some, eq_comm, Option.isSome_iff_exists] at both
        obtain ⟨values, old⟩ := both
        have reflectable := h _ _ _ old
        rw [old, Option.map_some, Option.some_inj]
        refine (otherValid.normal _ _ _ new).eq_of_coe_mem_iff reflectable.reflect.normal
          (otherValid.finite new) ?_ ?_
        · intro v member
          rw [Region.mem_reflect_iff reflectable] at member
          obtain ⟨x, same⟩ := valid.finite old _ member
          exact ⟨-x, by rw [← ExtRat.reflect_reflect v, same, ExtRat.reflect_coe]⟩
        · intro x
          rw [Region.mem_reflect_iff reflectable, ← holds_iff_mem new, ← holds_iff_mem old]
          exact held node origin x

end Reach

/-! ### Growth -/

def Growth.reflect (growth : Growth) : Growth := ⟨growth.down, growth.up⟩

def Tracker.reflect (tracker : Tracker) : Tracker :=
  ⟨tracker.loop.reflect, tracker.falling, tracker.rising⟩

theorem Tracker.gauge_reflect (tracker : Tracker) (direction : Direction) :
    tracker.reflect.gauge direction = tracker.gauge direction.opposite := by
  cases direction <;> rfl

namespace Loop

variable {before after : Reach}

theorem filter_isEmpty_reflect {reach : Reach} (h : reach.Reflectable) (node origin : String) :
    (reach.reflect.values? node origin).filter (!·.isEmpty) =
      ((reach.values? node origin).filter (!·.isEmpty)).map Region.reflect := by
  rw [Reach.values?_reflect]
  cases found : reach.values? node origin with
  | none => rfl
  | some values =>
      simp only [Option.map_some, Option.filter_some, Region.isEmpty_reflect (h _ _ _ found)]
      split <;> rfl

theorem edgeGrowth?_reflect (l : Loop) (hb : before.Reflectable) (ha : after.Reflectable)
    (edge : String × String) :
    l.reflect.edgeGrowth? before.reflect after.reflect edge =
      (l.edgeGrowth? before after edge).map Growth.reflect := by
  simp only [edgeGrowth?, filter_isEmpty_reflect hb, filter_isEmpty_reflect ha]
  cases new : (after.values? edge.2 edge.1).filter (!·.isEmpty) with
  | none => rfl
  | some values =>
      cases old : (before.values? edge.2 edge.1).filter (!·.isEmpty) with
      | none => rfl
      | some known =>
          have hv := ha _ _ _ (Option.filter_eq_some_iff.mp new).1
          have hk := hb _ _ _ (Option.filter_eq_some_iff.mp old).1
          simp only [Option.map_some, Region.expands_reflect hv hk,
            Region.extendsAbove_reflect hv hk, Region.extendsBelow_reflect hv hk]
          split <;> rfl

theorem mapM_map {α β γ : Type} (f : α → Option β) (g : β → γ) (list : List α) :
    list.mapM (fun item => (f item).map g) = (list.mapM f).map (List.map g) := by
  induction list with
  | nil => rfl
  | cons item rest ih =>
      rw [List.mapM_cons, List.mapM_cons, ih]
      cases f item with
      | none => rfl
      | some value => cases rest.mapM f <;> rfl

theorem growth?_reflect (l : Loop) (hb : before.Reflectable) (ha : after.Reflectable) :
    l.reflect.growth? before.reflect after.reflect =
      (l.growth? before after).map Growth.reflect := by
  have each : l.reflect.edgeGrowth? before.reflect after.reflect = fun edge =>
      (l.edgeGrowth? before after edge).map Growth.reflect :=
    funext (l.edgeGrowth?_reflect hb ha)
  have edges : l.reflect.edges = l.edges := rfl
  rw [growth?, each, mapM_map, growth?, edges]
  cases l.edges.mapM (l.edgeGrowth? before after) with
  | none => rfl
  | some growths => simp [Growth.reflect, Function.comp_def]

theorem target?_reflect (l : Loop) (direction : Direction) :
    (l.reflect.target? direction).map (fun target => (target.node, target.origin)) =
      (l.target? direction.opposite).map (fun target => (target.node, target.origin)) := by
  rw [target?, target?, side_reflect]
  cases limit : (l.side direction.opposite).limit? with
  | some limit => simp [Side.reflect, limit, Limit.reflect]
  | none =>
      have nodes : l.reflect.nodes = l.nodes := rfl
      simp only [Side.reflect, limit, Option.map_none, nodes]
      cases l.nodes with
      | nil => rfl
      | cons first rest => cases rest <;> rfl

end Loop

namespace Tracker

theorem update_reflect (tracker : Tracker) {before after : Reach} (hb : before.Reflectable)
    (ha : after.Reflectable) :
    tracker.reflect.update before.reflect after.reflect = (tracker.update before after).reflect := by
  have loop : tracker.reflect.loop = tracker.loop.reflect := rfl
  simp only [update, loop, Loop.growth?_reflect tracker.loop hb ha]
  cases tracker.loop.growth? before after <;> rfl

theorem aims_iff_place (tracker : Tracker) (direction : Direction) (node origin : String) :
    tracker.Aims direction node origin ↔ (tracker.gauge direction).grown = true ∧
      (tracker.loop.side direction).moves = true ∧
      (tracker.loop.target? direction).map (fun target => (target.node, target.origin)) =
        some (node, origin) := by
  simp only [Aims, Option.map_eq_some_iff, Prod.mk.injEq]

theorem aims_reflect_iff (tracker : Tracker) (direction : Direction) (node origin : String) :
    tracker.reflect.Aims direction node origin ↔
      tracker.Aims direction.opposite node origin := by
  have loop : tracker.reflect.loop = tracker.loop.reflect := rfl
  rw [aims_iff_place, aims_iff_place, gauge_reflect, loop, Loop.target?_reflect,
    Loop.side_reflect]
  rfl

end Tracker

/-! ### Rounds -/

namespace Solver

/-- The same stage of the analysis of the reflected automaton. -/
def reflect (initial : String) (s : Solver) : Solver :=
  { s with
    automaton := s.automaton.reflect.withLoops initial
    live := s.live.reflect
    snapshot := s.snapshot.reflect
    trackers := s.trackers.map Tracker.reflect }

variable {s : Solver} {initial : String} {radius step : Nat}

/-- All that a step of the reflection rests on: both analyses are between two rounds, the entries
are settled within a radius, and a change along an edge cannot lead out of the counter range. -/
structure Mirrored (initial : String) (radius step : Nat) (s : Solver) : Prop where
  steady : s.Steady initial
  reflected : (s.reflect initial).Steady initial
  reflectable : s.automaton.Reflectable
  sized : s.automaton.Sized radius step
  settled : s.live.Settled radius
  room : ((radius + step : Nat) : Int) ≤ Count.greatest.toInt

theorem Mirrored.live_reflectable (h : s.Mirrored initial radius step) : s.live.Reflectable :=
  h.settled.reflectable h.steady.valid (by have := h.room; omega)

theorem brings_reflect_iff (h : s.Mirrored initial radius step) {start stop : String}
    {data : EdgeData} (stored : s.automaton.edgeData? start stop = some data) (x : ℚ) :
    Edge.Brings ⟨data.reflect, start, stop⟩ s.live.reflect x ↔
      Edge.Brings ⟨data, start, stop⟩ s.live (ExtRat.reflect x) := by
  have live := h.live_reflectable
  have change := EdgeData.delta_reflect (h.reflectable.deltas _ _ _ stored)
  have negatable := EdgeData.delta_ne_least (h.reflectable.deltas _ _ _ stored)
  have small := h.sized.natAbs_delta_le stored
  have smallReflected : data.reflect.delta.toInt.natAbs ≤ step := by
    rw [change, Count.toInt_neg_of_ne negatable, Int.natAbs_neg]
    exact small
  rw [ExtRat.reflect_coe, (h.settled.reflect live).brings_iff h.reflected.valid smallReflected h.room,
    h.settled.brings_iff h.steady.valid small h.room]
  constructor
  · rintro ⟨origin, y, t, held, adds, rfl⟩
    refine ⟨origin, -y, -t, (Reach.holds_reflect_iff live _ _ _).mp held, ?_, neg_add y t⟩
    exact (Count.adds_neg_iff negatable t).mp (change ▸ adds)
  · rintro ⟨origin, y, t, held, adds, equal⟩
    refine ⟨origin, -y, -t, (Reach.holds_reflect_iff live _ _ _).mpr ?_, ?_, ?_⟩
    · rwa [ExtRat.reflect_coe, neg_neg]
    · change data.reflect.delta.Adds (-t)
      rw [change, Count.adds_neg_iff negatable, neg_neg]
      exact adds
    · rw [← neg_add, ← equal, neg_neg]

theorem admits_reflect_iff (h : s.Mirrored initial radius step) (node : String) (v : ExtRat) :
    (s.reflect initial).automaton.Admits node v ↔ s.automaton.Admits node v.reflect :=
  Automaton.admits_reflect_iff h.reflectable node v

theorem visible_reflect (initial : String) (s : Solver) :
    (s.reflect initial).automaton.visible = s.automaton.visible :=
  Automaton.visible_reflect s.automaton

theorem edgeData?_reflect (initial : String) (s : Solver) (start stop : String) :
    (s.reflect initial).automaton.edgeData? start stop =
      (s.automaton.edgeData? start stop).map EdgeData.reflect :=
  Automaton.edgeData?_reflect s.automaton start stop

theorem holds_propagate_reflect_iff (h : s.Mirrored initial radius step) (node origin : String)
    (x : ℚ) :
    (s.reflect initial).propagate.Holds node origin x ↔
      s.propagate.Holds node origin (ExtRat.reflect x) := by
  have brings : ∀ data, s.automaton.edgeData? origin node = some data →
      (Edge.Brings ⟨data.reflect, origin, node⟩ s.live.reflect x ↔
        Edge.Brings ⟨data, origin, node⟩ s.live (ExtRat.reflect x)) :=
    fun _ stored => brings_reflect_iff h stored x
  have live : (s.reflect initial).live = s.live.reflect := rfl
  rw [holds_propagate_iff h.reflected.valid (h.reflected.snapshot ▸ h.reflected.valid),
    holds_propagate_iff h.steady.valid (h.steady.snapshot ▸ h.steady.valid), h.steady.snapshot,
    h.reflected.snapshot, live, Reach.holds_reflect_iff h.live_reflectable, visible_reflect,
    edgeData?_reflect, admits_reflect_iff h]
  constructor
  · rintro (old | ⟨visible, _, stored, brought, admits⟩)
    · exact Or.inl old
    · obtain ⟨data, found, rfl⟩ := Option.map_eq_some_iff.mp stored
      exact Or.inr ⟨visible, data, found, (brings data found).mp brought, admits⟩
  · rintro (old | ⟨visible, data, found, brought, admits⟩)
    · exact Or.inl old
    · exact Or.inr ⟨visible, data.reflect, by rw [found, Option.map_some],
        (brings data found).mpr brought, admits⟩

/-- The same for any value: the infinities are held by neither. -/
theorem holds_reflect_iff_of_valid {reach other : Reach} {a b : Automaton}
    (valid : reach.Valid a initial) (otherValid : other.Valid b initial) {node origin : String}
    (same : ∀ x : ℚ, other.Holds node origin x ↔ reach.Holds node origin (ExtRat.reflect x))
    (v : ExtRat) : other.Holds node origin v ↔ reach.Holds node origin v.reflect := by
  constructor
  · rintro ⟨values, found, member⟩
    obtain ⟨x, rfl⟩ := otherValid.finite found v member
    exact (same x).mp ⟨values, found, member⟩
  · rintro ⟨values, found, member⟩
    obtain ⟨x, equal⟩ := valid.finite found _ member
    rw [ExtRat.reflect_eq_iff, ExtRat.reflect_coe] at equal
    subst equal
    exact (same (-x)).mpr ⟨values, found, member⟩

theorem beyond_reflect_iff {reach other : Reach} {node origin : String}
    (same : ∀ v, other.Holds node origin v ↔ reach.Holds node origin v.reflect)
    (direction : Direction) (v : ExtRat) :
    other.Beyond direction node origin v ↔
      reach.Beyond direction.opposite node origin v.reflect := by
  constructor
  · rintro ⟨⟨u, held⟩, all⟩
    refine ⟨⟨u.reflect, (same u).mp held⟩, ?_⟩
    intro w there
    rw [← Direction.before_reflect_iff]
    exact all w.reflect ((same _).mpr (by rwa [ExtRat.reflect_reflect]))
  · rintro ⟨⟨u, held⟩, all⟩
    refine ⟨⟨u.reflect, (same _).mpr (by rwa [ExtRat.reflect_reflect])⟩, ?_⟩
    intro w there
    have before := all w.reflect ((same w).mp there)
    rwa [← Direction.before_reflect_iff, ExtRat.reflect_reflect] at before

theorem mem_due_reflect_iff (initial : String) (s : Solver) (tracker : Tracker)
    (direction : Direction) :
    (tracker, direction) ∈ (s.reflect initial).due ↔
      ∃ old, old.reflect = tracker ∧ (old, direction.opposite) ∈ s.due := by
  rw [mem_due_iff]
  change tracker ∈ s.trackers.map Tracker.reflect ∧ s.threshold ≤ _ ↔ _
  constructor
  · rintro ⟨member, long⟩
    obtain ⟨old, present, rfl⟩ := List.mem_map.mp member
    rw [Tracker.gauge_reflect] at long
    exact ⟨old, rfl, (mem_due_iff s _ _).mpr ⟨present, long⟩⟩
  · rintro ⟨old, rfl, due⟩
    obtain ⟨present, long⟩ := (mem_due_iff s _ _).mp due
    rw [Tracker.gauge_reflect]
    exact ⟨List.mem_map_of_mem present, long⟩

theorem holds_next_reflect_iff (h : s.Mirrored initial radius step) (node origin : String) (x : ℚ) :
    (s.reflect initial).next.Holds node origin x ↔
      s.next.Holds node origin (ExtRat.reflect x) := by
  have valid := propagate_valid h.steady.valid (h.steady.snapshot ▸ h.steady.valid)
  have otherValid := propagate_valid h.reflected.valid (h.reflected.snapshot ▸ h.reflected.valid)
  have same := holds_reflect_iff_of_valid valid otherValid
    (holds_propagate_reflect_iff h node origin)
  rw [next, next, ExtRat.reflect_coe, holds_accelerate_iff h.steady.loops valid,
    holds_accelerate_iff h.reflected.loops otherValid, same, admits_reflect_iff h,
    ExtRat.reflect_coe]
  simp only [beyond_reflect_iff same, ExtRat.reflect_coe]
  constructor
  · rintro (old | ⟨⟨tracker, direction⟩, due, aims, added⟩)
    · exact Or.inl old
    · obtain ⟨old, rfl, before⟩ := (mem_due_reflect_iff initial s tracker direction).mp due
      exact Or.inr ⟨(old, direction.opposite), before,
        (old.aims_reflect_iff direction node origin).mp aims, added⟩
  · rintro (old | ⟨⟨tracker, direction⟩, due, aims, added⟩)
    · exact Or.inl old
    · rw [← direction.opposite_opposite] at due aims added
      exact Or.inr ⟨(tracker.reflect, direction.opposite),
        (mem_due_reflect_iff initial s _ _).mpr ⟨tracker, rfl, due⟩,
        (tracker.aims_reflect_iff _ node origin).mpr aims, added⟩

theorem isSome_next_reflect (h : s.Mirrored initial radius step) (node origin : String) :
    ((s.reflect initial).next.values? node origin).isSome =
      (s.next.values? node origin).isSome := by
  have live : (s.reflect initial).live = s.live.reflect := rfl
  have edge : (s.reflect initial).automaton.hasEdge origin node =
      s.automaton.hasEdge origin node := Automaton.hasEdge_reflect s.automaton origin node
  rw [Bool.eq_iff_iff, next, next, isSome_values?_accelerate, isSome_values?_accelerate,
    isSome_values?_propagate_iff h.reflected.valid (h.reflected.snapshot ▸ h.reflected.valid),
    isSome_values?_propagate_iff h.steady.valid (h.steady.snapshot ▸ h.steady.valid),
    h.steady.snapshot, h.reflected.snapshot, live, Reach.values?_reflect, Option.isSome_map,
    visible_reflect, edge]
  simp only [Reach.holds_reflect_iff h.live_reflectable]
  have somewhere : (∃ before v, s.live.Holds origin before (ExtRat.reflect v)) ↔
      ∃ before v, s.live.Holds origin before v := by
    constructor
    · rintro ⟨before, v, held⟩
      exact ⟨before, v.reflect, held⟩
    · rintro ⟨before, v, held⟩
      exact ⟨before, v.reflect, by rwa [ExtRat.reflect_reflect]⟩
  rw [somewhere]

theorem next_reflect (h : s.Mirrored initial radius step) :
    (s.reflect initial).next = s.next.reflect ∧ s.next.Reflectable := by
  have valid := h.steady.next_valid.1
  have reflectable := (settled_next h.steady h.sized (le_refl _) h.settled h.room).reflectable valid
    h.room
  exact ⟨Reach.eq_reflect valid reflectable h.reflected.next_valid.1 (visible_reflect initial s)
    (isSome_next_reflect h) (holds_next_reflect_iff h), reflectable⟩

theorem round_reflect (h : s.Mirrored initial radius step) :
    (s.reflect initial).round = s.round.reflect initial := by
  obtain ⟨next, reflectable⟩ := next_reflect h
  have known : s.snapshot.Reflectable := h.steady.snapshot ▸ h.live_reflectable
  cases finished : s.finished with
  | true =>
      have ended : (s.reflect initial).finished = true := finished
      rw [round_of_finished finished, round_of_finished ended]
  | false =>
      have running : (s.reflect initial).finished = false := finished
      have same : (s.reflect initial).next = (s.reflect initial).snapshot ↔
          s.next = s.snapshot := by
        rw [next]
        exact Reach.reflect_inj reflectable known
      rcases round_cases running with ⟨stays, equal⟩ | ⟨changes, equal⟩
      · rcases round_cases finished with ⟨_, original⟩ | ⟨moves, _⟩
        · rw [equal, original, next]
          rfl
        · exact absurd (same.mp stays) moves
      · rcases round_cases finished with ⟨stays, _⟩ | ⟨_, original⟩
        · exact absurd (same.mpr stays) changes
        · rw [equal, original, next]
          have trackers : (s.trackers.map Tracker.reflect).map
              (Tracker.update s.snapshot.reflect s.next.reflect) =
              (s.trackers.map (Tracker.update s.snapshot s.next)).map Tracker.reflect := by
            rw [List.map_map, List.map_map]
            exact List.map_congr_left fun tracker _ => tracker.update_reflect known reflectable
          simp only [reflect, trackers]

end Solver

/-! ### The start -/

namespace Automaton

variable {a : Automaton} {initial : String} {radius step : Nat}

theorem Sized.mono {larger : Nat} (sized : a.Sized radius step) (le : radius ≤ larger) :
    a.Sized larger step where
  start := sized.start.trans le
  lower := sized.lower.trans le
  upper := sized.upper.trans le
  guards node guard condition := (sized.guards node guard condition).trans le
  deltas := sized.deltas

theorem Sized.withLoops (sized : a.Sized radius step) (initial : String) :
    (a.withLoops initial).Sized radius step :=
  ⟨sized.start, sized.lower, sized.upper, sized.guards, sized.deltas⟩

theorem Sized.reflectable (sized : a.Sized radius step)
    (room : (radius : Int) ≤ Count.greatest.toInt) (fits : (step : Int) ≤ Count.greatest.toInt) :
    a.Reflectable where
  start := Count.ne_least_of_natAbs_le sized.start room
  lower least := by
    have small := sized.lower
    rw [least] at small
    exact Count.ne_least_of_natAbs_le small room rfl
  upper least := by
    have small := sized.upper
    rw [least] at small
    exact Count.ne_least_of_natAbs_le small room rfl
  guards node guard condition isGuard := by
    have small := sized.guards node guard condition
    rw [Instr.guardSize, if_pos isGuard] at small
    exact Count.ne_least_of_natAbs_le small room
  deltas start stop data stored operation found notGuard := by
    have small := sized.deltas start stop data stored operation found
    rw [Instr.deltaSize, notGuard, if_neg Bool.false_ne_true] at small
    exact Count.ne_least_of_natAbs_le small fits

theorem holds_firstArrivals_reflect_iff (h : a.Reflectable) (initial node origin : String)
    (v : ExtRat) :
    (a.reflect.firstArrivals initial).Holds node origin v ↔
      (a.firstArrivals initial).Holds node origin v.reflect := by
  have negatable := (Bound.negatable_finite_iff a.start).mpr h.start
  have starts : v = (Bound.finite a.reflect.start).val ↔
      v.reflect = (Bound.finite a.start).val := by
    change v = (-(Bound.finite a.start)).val ↔ _
    rw [Bound.val_neg negatable, ExtRat.reflect_eq_iff]
  rw [holds_firstArrivals_iff, holds_firstArrivals_iff, visible_reflect, admits_reflect_iff h, starts]

/-- No entry is there without a value at the start. -/
theorem isSome_firstArrivals_iff (a : Automaton) (initial node origin : String) :
    ((a.firstArrivals initial).values? node origin).isSome = true ↔
      ∃ v, (a.firstArrivals initial).Holds node origin v := by
  constructor
  · intro there
    obtain ⟨values, found⟩ := Option.isSome_iff_exists.mp there
    obtain ⟨_, _, _, _, inhabited⟩ := (values?_firstArrivals a initial node origin values).mp found
    obtain ⟨v, member⟩ := Region.exists_mem inhabited
    exact ⟨v, values, found, member⟩
  · rintro ⟨v, values, found, _⟩
    exact Option.isSome_iff_exists.mpr ⟨values, found⟩

theorem firstArrivals_reflect (sized : a.Sized radius step) (h : a.Reflectable)
    (room : (radius : Int) ≤ Count.greatest.toInt) :
    a.reflect.firstArrivals initial = (a.firstArrivals initial).reflect := by
  have valid := a.firstArrivals_valid initial
  have held := holds_firstArrivals_reflect_iff h initial
  refine Reach.eq_reflect valid
    ((Solver.settled_firstArrivals sized).reflectable valid room)
    (a.reflect.firstArrivals_valid initial) a.visible_reflect ?_
    fun node origin x => held node origin x
  intro node origin
  rw [Bool.eq_iff_iff, isSome_firstArrivals_iff, isSome_firstArrivals_iff]
  simp only [held]
  exact ⟨fun ⟨v, there⟩ => ⟨v.reflect, there⟩,
    fun ⟨v, there⟩ => ⟨v.reflect, by rwa [ExtRat.reflect_reflect]⟩⟩

end Automaton

namespace Solver

variable {a : Automaton} {initial : String} {radius step : Nat}

theorem ofAutomaton_reflect (fresh : a.LoopsFresh) (resolved : a.initial? = some initial)
    (sized : a.Sized radius step) (h : a.Reflectable)
    (room : (radius : Int) ≤ Count.greatest.toInt) (settings : Settings) :
    ofAutomaton (a.reflect.withLoops initial) initial settings =
      (ofAutomaton (a.withLoops initial) initial settings).reflect initial := by
  have first : (a.reflect.withLoops initial).firstArrivals initial =
      ((a.withLoops initial).firstArrivals initial).reflect :=
    Automaton.firstArrivals_reflect sized h room
  have threshold : (a.reflect.withLoops initial).defaultThreshold =
      (a.withLoops initial).defaultThreshold := by
    simp [Automaton.defaultThreshold, Automaton.withLoops, Automaton.reflect, Table.size, Table.map]
  have trackers : (a.reflect.withLoops initial).loops.map Tracker.ofLoop =
      ((a.withLoops initial).loops.map Tracker.ofLoop).map Tracker.reflect := by
    change (a.reflect.loopsFrom initial).map _ = _
    rw [Automaton.loopsFrom_reflect h, fresh.loops resolved, List.map_map, List.map_map]
    rfl
  simp only [ofAutomaton, reflect, first, threshold, trackers]
  rfl

/-- As many rounds of the reflected analysis as there is room for. -/
theorem iterate_reflect (fresh : a.LoopsFresh) (resolved : a.initial? = some initial)
    (sized : a.Sized radius step)
    (fits : (step : Int) ≤ Count.greatest.toInt) (settings : Settings) {n : Nat}
    (room : ((radius + n * step : Nat) : Int) ≤ Count.greatest.toInt) :
    round^[n] (ofAutomaton (a.reflect.withLoops initial) initial settings) =
      (round^[n] (ofAutomaton (a.withLoops initial) initial settings)).reflect initial ∧
    (round^[n] (ofAutomaton (a.withLoops initial) initial settings)).live.Settled
      (radius + n * step) := by
  have within : (radius : Int) ≤ Count.greatest.toInt := by omega
  have reflectable := sized.reflectable within fits
  induction n with
  | zero =>
      rw [Nat.zero_mul]
      exact ⟨ofAutomaton_reflect fresh resolved sized reflectable within settings,
        settled_firstArrivals (sized.withLoops initial)⟩
  | succ n ih =>
      rw [Nat.succ_mul, ← Nat.add_assoc] at *
      obtain ⟨same, settled⟩ := ih (by omega)
      have steady := iterate_steady (ofAutomaton_steady fresh.current resolved settings) n
      have automaton := (frame_iterate (ofAutomaton (a.withLoops initial) initial settings) n).1
      have larger := sized.mono (Nat.le_add_right radius (n * step))
      have mirrored : Mirrored initial (radius + n * step) step
          (round^[n] (ofAutomaton (a.withLoops initial) initial settings)) := by
        refine ⟨steady, ?_, ?_, ?_, settled, room⟩
        · rw [← same]
          exact iterate_steady (ofAutomaton_steady a.reflect_loopsFresh.current resolved settings) n
        · rw [automaton]
          exact (sized.withLoops initial).reflectable within fits
        · rw [automaton]
          exact larger.withLoops initial
      rw [Function.iterate_succ_apply', Function.iterate_succ_apply', same, round_reflect mirrored,
        live_round steady]
      exact ⟨rfl, settled_next steady mirrored.sized (le_refl _) settled room⟩

/-- The analysis of the reflected automaton is the reflection of the analysis: after as many rounds
as cannot lead out of the counter range, each entry is the reflected entry, each loop has the same
gauges with up and down exchanged, and both analyses are equally far. -/
theorem advanceBy_reflect (fresh : a.LoopsFresh) (resolved : a.initial? = some initial)
    (settings : Settings) {n : Nat} (fits : (a.largestStep : Int) ≤ Count.greatest.toInt)
    (room : ((a.largestConstant + n * a.largestStep : Nat) : Int) ≤ Count.greatest.toInt) :
    ∃ s m s' m', start a settings = .ok s ∧ start a.reflect settings = .ok m ∧
      s.advanceBy n = .ok s' ∧ m.advanceBy n = .ok m' ∧ m'.live = s'.live.reflect ∧
      m'.trackers = s'.trackers.map Tracker.reflect ∧ m'.rounds = s'.rounds ∧
      m'.finished = s'.finished := by
  have sized := a.sized_largest
  have reflectable := sized.reflectable (by omega) fits
  have original := Automaton.fits_of_reflectable reflectable
  have reflected := Automaton.reflect_fits reflectable
  have reflectedRoot : a.reflect.initial? = some initial := resolved
  refine ⟨_, _, _, _, start_of_fits resolved original settings,
    start_of_fits reflectedRoot reflected settings,
    advanceBy_of_not_overflows (not_overflows_of_fits original) n,
    advanceBy_of_not_overflows (not_overflows_of_fits reflected) n, ?_⟩
  rw [(iterate_reflect fresh resolved sized fits settings room).1]
  exact ⟨rfl, rfl, rfl, rfl⟩

theorem climb_reflect :
    ∃ s m s' m', start .climb ⟨some 1, none⟩ = .ok s ∧
      start Automaton.climb.reflect ⟨some 1, none⟩ = .ok m ∧
      s.advanceBy 4 = .ok s' ∧ m.advanceBy 4 = .ok m' ∧ m'.live = s'.live.reflect ∧
      m'.trackers = s'.trackers.map Tracker.reflect ∧ m'.rounds = s'.rounds ∧
      m'.finished = s'.finished :=
  advanceBy_reflect Automaton.climb_loopsFresh rfl ⟨some 1, none⟩ (by decide +kernel)
    (by decide +kernel)

end Solver

end OneCounter
