import OneCounter.Proofs.EdgeLists
import OneCounter.Proofs.Passage
import OneCounter.Proofs.Restriction

/-!
Propagation: every visible node takes over what its incoming edges bring. Main statements: the
values that propagation adds are those that edges carry out of the snapshot and that the node
admits, nothing is lost, and the entries stay valid.
-/

namespace OneCounter

namespace Table

variable {α β : Type}

theorem keys_map (f : String → α → β) (table : Table α) : (table.map f).keys = table.keys := by
  simp [keys, map]

theorem keys_modify (table : Table α) (name : String) (f : α → α) :
    (table.modify name f).keys = table.keys :=
  keys_map _ table

theorem mem_values_iff (table : Table α) (value : α) :
    value ∈ table.values ↔ ∃ name, table.get? name = some value := by
  simp only [values, List.mem_map, get?_eq_some_iff]
  constructor
  · rintro ⟨⟨name, _⟩, member, rfl⟩
    exact ⟨name, member⟩
  · rintro ⟨name, member⟩
    exact ⟨(name, value), member, rfl⟩

end Table

namespace Automaton

/-- The values with which a node can be entered: those in the range of the counter that pass the
guard of the node. -/
def Admits (a : Automaton) (node : String) (v : ExtRat) : Prop :=
  Admitted a.lower a.upper (a.condition? node) v

theorem mem_visible_iff (a : Automaton) (node : String) :
    node ∈ a.visible ↔ ∃ data, a.nodes.get? node = some data ∧ data.hidden = false := by
  rw [visible, Table.mem_keys_iff, Table.get?_filter, Option.isSome_iff_exists]
  simp [Option.filter_eq_some_iff]

theorem isHidden_eq_false_of_visible {a : Automaton} {node : String} (visible : node ∈ a.visible) :
    a.isHidden node = false := by
  obtain ⟨data, found, shown⟩ := (mem_visible_iff a node).mp visible
  simp [isHidden, found, shown]

end Automaton

namespace Reach

/-- The value is among those at `node` from `origin`. -/
def Holds (reach : Reach) (node origin : String) (v : ExtRat) : Prop :=
  ∃ values, reach.values? node origin = some values ∧ v ∈ values

theorem values?_eq_some_iff (reach : Reach) (node origin : String) (values : Region) :
    reach.values? node origin = some values ↔
      ∃ arrivals, reach.get? node = some arrivals ∧ arrivals.get? origin = some values := by
  simp only [values?, Option.bind_eq_some_iff]

theorem mem_keys_of_values? {reach : Reach} {node origin : String} {values : Region}
    (found : reach.values? node origin = some values) : node ∈ reach.keys := by
  obtain ⟨arrivals, present, _⟩ := (values?_eq_some_iff reach node origin values).mp found
  rw [Table.mem_keys_iff, present, Option.isSome_some]

/-- The entries of an analysis: the visible nodes, each with origins that an edge comes from, or
with itself where the counter starts; every region in normal form; and every value a rational one
that the node admits. -/
structure Valid (a : Automaton) (initial : String) (reach : Reach) : Prop where
  keys : reach.keys = a.visible
  origin : ∀ node origin values, reach.values? node origin = some values →
    origin ∈ a.visible ∧ (a.hasEdge origin node = true ∨ (origin = initial ∧ node = initial))
  normal : ∀ node origin values, reach.values? node origin = some values → values.Normal
  admits : ∀ node origin values, reach.values? node origin = some values →
    ∀ v ∈ values, ∃ x : ℚ, v = x ∧ a.Admits node x

/-- Every entry is still there, with all its values. -/
def Within (before after : Reach) : Prop :=
  ∀ node origin values, before.values? node origin = some values →
    ∃ grown, after.values? node origin = some grown ∧ ∀ v ∈ values, v ∈ grown

theorem Within.refl (reach : Reach) : reach.Within reach :=
  fun _ _ values found => ⟨values, found, fun _ member => member⟩

theorem Within.trans {first second third : Reach} (left : first.Within second)
    (right : second.Within third) : first.Within third := by
  intro node origin values found
  obtain ⟨grown, middle, kept⟩ := left node origin values found
  obtain ⟨final, last, stays⟩ := right node origin grown middle
  exact ⟨final, last, fun v member => stays v (kept v member)⟩

theorem Within.holds {before after : Reach} (grows : before.Within after) {node origin : String}
    {v : ExtRat} (holds : before.Holds node origin v) : after.Holds node origin v := by
  obtain ⟨values, found, member⟩ := holds
  obtain ⟨grown, present, kept⟩ := grows node origin values found
  exact ⟨grown, present, kept v member⟩

section Valid

variable {a : Automaton} {initial : String} {reach : Reach} {node origin : String}
  {values : Region}

theorem Valid.finite (valid : reach.Valid a initial)
    (found : reach.values? node origin = some values) : values.Finite := by
  intro v member
  obtain ⟨x, equal, _⟩ := valid.admits node origin values found v member
  exact ⟨x, equal⟩

theorem Valid.admits_of_mem (valid : reach.Valid a initial)
    (found : reach.values? node origin = some values) {v : ExtRat} (member : v ∈ values) :
    a.Admits node v := by
  obtain ⟨x, rfl, admits⟩ := valid.admits node origin values found v member
  exact admits

/-- A value somewhere shows that the range of the counter is not inverted. -/
theorem Valid.ordered (valid : reach.Valid a initial)
    (found : reach.values? node origin = some values) (inhabited : values.isEmpty = false) :
    a.lower ≤ a.upper := by
  obtain ⟨v, member⟩ := Region.exists_mem inhabited
  have admits := valid.admits_of_mem found member
  rw [Bound.le_iff_val]
  exact admits.lower_le.trans admits.le_upper

theorem Valid.node_visible (valid : reach.Valid a initial)
    (found : reach.values? node origin = some values) : node ∈ a.visible :=
  valid.keys ▸ mem_keys_of_values? found

end Valid

end Reach

/-! ### What an edge brings -/

namespace Edge

/-- The value leaves a snapshot along the edge. -/
def Brings (edge : Edge) (snapshot : Reach) (v : ExtRat) : Prop :=
  ∃ origin values, snapshot.values? edge.start origin = some values ∧ values.isEmpty = false ∧
    v ∈ edge.carry values

theorem mem_departures_iff (edge : Edge) {snapshot : Reach} {arrivals : Arrivals}
    (present : snapshot.get? edge.start = some arrivals) (values : Region) :
    values ∈ arrivals.values.filter (!·.isEmpty) ↔
      (∃ origin, snapshot.values? edge.start origin = some values) ∧ values.isEmpty = false := by
  simp [List.mem_filter, Table.mem_values_iff, Reach.values?, present]

/-- Something comes in along an edge if its start holds anything. -/
theorem isSome_incoming?_iff (edge : Edge) (snapshot : Reach) :
    (edge.incoming? snapshot).isSome = true ↔ ∃ origin v, snapshot.Holds edge.start origin v := by
  cases present : snapshot.get? edge.start with
  | none => simp [incoming?, present, Reach.Holds, Reach.values?]
  | some arrivals =>
      have departs := mem_departures_iff edge present
      constructor
      · intro comes
        cases carried : arrivals.values.filter (!·.isEmpty) with
        | nil => simp [incoming?, present, carried] at comes
        | cons first rest =>
            obtain ⟨⟨origin, found⟩, inhabited⟩ := (departs first).mp (by simp [carried])
            obtain ⟨v, member⟩ := Region.exists_mem inhabited
            exact ⟨origin, v, first, found, member⟩
      · rintro ⟨origin, v, values, found, member⟩
        have departing := (departs values).mpr ⟨⟨origin, found⟩, Region.isEmpty_eq_false_of_mem member⟩
        cases carried : arrivals.values.filter (!·.isEmpty) with
        | nil => simp [carried] at departing
        | cons first rest => simp [incoming?, present, carried]

theorem not_brings_of_incoming? {edge : Edge} {snapshot : Reach}
    (nothing : edge.incoming? snapshot = none) (v : ExtRat) : ¬ edge.Brings snapshot v := by
  rintro ⟨origin, values, found, inhabited, _⟩
  obtain ⟨u, member⟩ := Region.exists_mem inhabited
  have comes := (isSome_incoming?_iff edge snapshot).mpr ⟨origin, u, values, found, member⟩
  simp [nothing] at comes

/-- What comes in along an edge is what it carries, and only comes in if there is something to
carry. -/
theorem incoming?_spec {edge : Edge} {snapshot : Reach} {incoming : Region} {a : Automaton}
    {initial : String} (valid : snapshot.Valid a initial)
    (found : edge.incoming? snapshot = some incoming) :
    incoming.Normal ∧ (∀ v, v ∈ incoming ↔ edge.Brings snapshot v) ∧
      ∃ origin values, snapshot.values? edge.start origin = some values ∧
        values.isEmpty = false := by
  cases present : snapshot.get? edge.start with
  | none => simp [incoming?, present] at found
  | some arrivals =>
      have departs := mem_departures_iff edge present
      cases carried : arrivals.values.filter (!·.isEmpty) with
      | nil => simp [incoming?, present, carried] at found
      | cons first rest =>
          rw [carried] at departs
          simp only [incoming?, present, carried, List.map_cons, Option.some.injEq] at found
          have normal : ∀ r ∈ (first :: rest).map edge.carry, r.Normal := by
            intro r member
            obtain ⟨values, departing, rfl⟩ := List.mem_map.mp member
            obtain ⟨⟨origin, stored⟩, _⟩ := (departs values).mp departing
            exact edge.normal_carry (valid.normal _ _ _ stored)
          have parts := List.forall_mem_cons.mp normal
          subst found
          refine ⟨Region.normal_foldl_union parts.1 _, ?_, ?_⟩
          · intro v
            rw [Region.mem_foldl_union_iff parts.1 parts.2]
            constructor
            · intro member
              have carrier : ∃ values ∈ first :: rest, v ∈ edge.carry values := by
                simpa using member
              obtain ⟨values, departing, held⟩ := carrier
              obtain ⟨⟨origin, stored⟩, inhabited⟩ := (departs values).mp departing
              exact ⟨origin, values, stored, inhabited, held⟩
            · rintro ⟨origin, values, stored, inhabited, held⟩
              have departing := (departs values).mpr ⟨⟨origin, stored⟩, inhabited⟩
              have carrier : ∃ values ∈ first :: rest, v ∈ edge.carry values :=
                ⟨values, departing, held⟩
              simpa using carrier
          · obtain ⟨⟨origin, stored⟩, inhabited⟩ := (departs first).mp List.mem_cons_self
            exact ⟨origin, first, stored, inhabited⟩

end Edge

/-! ### What a node takes over -/

namespace Solver

variable {s : Solver} {node origin : String} {arrivals : Arrivals} {edge : Edge}

theorem mem_sources_iff (s : Solver) (edge : Edge) (node : String) :
    edge ∈ s.sources node ↔ edge.stop = node ∧
      s.automaton.edgeData? edge.start node = some edge.toEdgeData ∧
      s.automaton.isHidden edge.start = false := by
  rw [sources, List.mem_filter, Automaton.mem_incoming_iff, and_assoc]
  simp

/-- What one edge makes of the values known at its end. -/
def pulled (s : Solver) (edge : Edge) (known? : Option Region) : Option Region :=
  match edge.incoming? s.snapshot with
  | none => known?
  | some incoming =>
      let joined := match known? with
        | some known => known.union incoming
        | none => incoming
      some (joined.restrict s.automaton.lower s.automaton.upper (s.automaton.condition? edge.stop))

theorem get?_pullEdge (s : Solver) (arrivals : Arrivals) (edge : Edge) (origin : String) :
    (s.pullEdge arrivals edge).get? origin =
      if origin = edge.start then s.pulled edge (arrivals.get? origin)
      else arrivals.get? origin := by
  cases brought : edge.incoming? s.snapshot with
  | none => simp [pullEdge, pulled, brought]
  | some incoming =>
      simp only [pullEdge, pulled, brought, Arrivals.restrict, Table.get?_modify, Arrivals.receive]
      by_cases same : origin = edge.start
      · subst same
        cases known : arrivals.get? edge.start <;> simp [Table.get?_insert]
      · cases known : arrivals.get? edge.start <;> simp [same, Table.get?_insert]

theorem get?_foldl_pullEdge_of_ne {edges : List Edge}
    (others : ∀ edge ∈ edges, edge.start ≠ origin) (arrivals : Arrivals) :
    (edges.foldl s.pullEdge arrivals).get? origin = arrivals.get? origin := by
  induction edges generalizing arrivals with
  | nil => rfl
  | cons first rest ih =>
      have different : origin ≠ first.start := (others first List.mem_cons_self).symm
      rw [List.foldl_cons, ih fun edge member => others edge (List.mem_cons_of_mem first member),
        get?_pullEdge, if_neg different]

theorem get?_foldl_pullEdge_of_mem {edges : List Edge}
    (distinct : edges.Pairwise fun first second => first.start ≠ second.start)
    (member : edge ∈ edges) (arrivals : Arrivals) :
    (edges.foldl s.pullEdge arrivals).get? edge.start =
      s.pulled edge (arrivals.get? edge.start) := by
  induction edges generalizing arrivals with
  | nil => simp at member
  | cons first rest ih =>
      have parts := List.pairwise_cons.mp distinct
      rw [List.foldl_cons]
      rcases List.mem_cons.mp member with same | later
      · -- No other edge starts here, so the rest of the fold leaves the entry alone.
        subst same
        rw [get?_foldl_pullEdge_of_ne fun other present => (parts.1 other present).symm,
          get?_pullEdge, if_pos rfl]
      · have different : edge.start ≠ first.start := (parts.1 edge later).symm
        rw [ih parts.2 later, get?_pullEdge, if_neg different]

theorem get?_pull_of_source (source : edge ∈ s.sources node) (arrivals : Arrivals) :
    (s.pull node arrivals).get? edge.start = s.pulled edge (arrivals.get? edge.start) :=
  get?_foldl_pullEdge_of_mem ((s.automaton.incoming_distinct node).filter _) source arrivals

theorem get?_pull_of_no_source (none : ∀ edge ∈ s.sources node, edge.start ≠ origin)
    (arrivals : Arrivals) : (s.pull node arrivals).get? origin = arrivals.get? origin :=
  get?_foldl_pullEdge_of_ne none arrivals

theorem values?_propagate (s : Solver) (node origin : String) :
    s.propagate.values? node origin =
      (s.live.get? node).bind fun arrivals => (s.pull node arrivals).get? origin := by
  rw [Reach.values?, propagate, Table.get?_map, Option.bind_map]
  rfl

theorem values?_propagate_cases (present : node ∈ s.live.keys) (origin : String) :
    (∃ edge ∈ s.sources node, edge.start = origin ∧
      s.propagate.values? node origin = s.pulled edge (s.live.values? node origin)) ∨
    ((∀ edge ∈ s.sources node, edge.start ≠ origin) ∧
      s.propagate.values? node origin = s.live.values? node origin) := by
  rw [Table.mem_keys_iff, Option.isSome_iff_exists] at present
  obtain ⟨arrivals, found⟩ := present
  have known : s.live.values? node origin = arrivals.get? origin := by
    rw [Reach.values?, found, Option.bind_some]
  rw [values?_propagate, found, Option.bind_some, known]
  by_cases source : ∃ edge ∈ s.sources node, edge.start = origin
  · obtain ⟨edge, member, rfl⟩ := source
    exact Or.inl ⟨edge, member, rfl, get?_pull_of_source member arrivals⟩
  · have others : ∀ edge ∈ s.sources node, edge.start ≠ origin := fun edge member same =>
      source ⟨edge, member, same⟩
    exact Or.inr ⟨others, get?_pull_of_no_source others arrivals⟩

theorem keys_propagate (s : Solver) : s.propagate.keys = s.live.keys := Table.keys_map _ s.live

/-! ### The values after propagation -/

section Values

variable {initial : String}

/-- What becomes of a valid entry when an edge brings something to it. -/
theorem pulled_spec (snapshot : s.snapshot.Valid s.automaton initial) (known? : Option Region)
    (known : ∀ values, known? = some values → values.Normal ∧
      ∀ v ∈ values, s.automaton.Admits edge.stop v) :
    (∀ values, s.pulled edge known? = some values → values.Normal) ∧
    (∀ v, (∃ values, s.pulled edge known? = some values ∧ v ∈ values) ↔
      (∃ values, known? = some values ∧ v ∈ values) ∨
        (edge.Brings s.snapshot v ∧ s.automaton.Admits edge.stop v)) := by
  cases brought : edge.incoming? s.snapshot with
  | none =>
      have nothing := Edge.not_brings_of_incoming? brought
      simp only [pulled, brought, nothing, false_and, or_false]
      exact ⟨fun values found => (known values found).1, fun _ => trivial⟩
  | some incoming =>
      obtain ⟨normal, brings, origin, departing, stored, inhabited⟩ :=
        Edge.incoming?_spec snapshot brought
      -- A value is on its way, so the range is not inverted and restricting is exact.
      have ordered := snapshot.ordered stored inhabited
      cases known? with
      | none =>
          simp only [pulled, brought]
          refine ⟨?_, ?_⟩
          · rintro values found
            injection found with found
            exact found ▸ normal.restrict ordered _
          · intro v
            simp [Region.mem_restrict_iff incoming ordered, brings, Automaton.Admits]
      | some values =>
          have entry := known values rfl
          simp only [pulled, brought]
          refine ⟨?_, ?_⟩
          · rintro values found
            injection found with found
            exact found ▸ (Region.normal_union _ incoming).restrict ordered _
          · intro v
            simp only [Option.some.injEq, exists_eq_left', Region.mem_restrict_iff _ ordered,
              entry.1.mem_union_iff normal, brings]
            constructor
            · rintro ⟨old | new, admits⟩
              · exact Or.inl old
              · exact Or.inr ⟨new, admits⟩
            · rintro (old | ⟨new, admits⟩)
              · exact ⟨Or.inl old, entry.2 v old⟩
              · exact ⟨Or.inr new, admits⟩

variable (live : s.live.Valid s.automaton initial)
  (snapshot : s.snapshot.Valid s.automaton initial)

include live

theorem live_entry (node origin : String) (values : Region)
    (found : s.live.values? node origin = some values) :
    values.Normal ∧ ∀ v ∈ values, s.automaton.Admits node v :=
  ⟨live.normal node origin values found, fun _ member => live.admits_of_mem found member⟩

include snapshot

/-- After propagation a node holds from an origin what it held before, and what the edge between
them brings as far as the node admits it. -/
theorem holds_propagate_iff (node origin : String) (v : ExtRat) :
    s.propagate.Holds node origin v ↔ s.live.Holds node origin v ∨
      (node ∈ s.automaton.visible ∧ ∃ data, s.automaton.edgeData? origin node = some data ∧
        Edge.Brings ⟨data, origin, node⟩ s.snapshot v ∧ s.automaton.Admits node v) := by
  by_cases present : node ∈ s.live.keys
  · have visible : node ∈ s.automaton.visible := live.keys ▸ present
    rcases values?_propagate_cases present origin with
      ⟨edge, source, rfl, equal⟩ | ⟨others, equal⟩
    · obtain ⟨stops, stored, _⟩ := (mem_sources_iff s edge node).mp source
      subst stops
      have spec := (pulled_spec snapshot _ (live_entry live edge.stop edge.start)).2 v
      rw [Reach.Holds, Reach.Holds, equal, spec, stored]
      simp [visible]
    · rw [Reach.Holds, Reach.Holds, equal]
      constructor
      · exact Or.inl
      · rintro (old | ⟨_, data, stored, ⟨from?, values, found, _⟩, _⟩)
        · exact old
        · -- The edge brings something, so its start is visible and it is a source after all.
          have shown := Automaton.isHidden_eq_false_of_visible (snapshot.node_visible found)
          exact absurd rfl (others ⟨data, origin, node⟩
            ((mem_sources_iff s _ node).mpr ⟨rfl, stored, shown⟩))
  · have absent : s.live.values? node origin = none := by
      by_contra found
      obtain ⟨values, found⟩ := Option.ne_none_iff_exists'.mp found
      exact present (Reach.mem_keys_of_values? found)
    constructor
    · rintro ⟨values, found, _⟩
      exact absurd (keys_propagate s ▸ Reach.mem_keys_of_values? found) present
    · rintro (⟨values, found, _⟩ | ⟨visible, _⟩)
      · exact absurd found (by simp [absent])
      · exact absurd (live.keys ▸ visible) present

/-- An entry is there after propagation if it was there before, or if the edge between the two
nodes has anything to carry. -/
theorem isSome_values?_propagate_iff (node origin : String) :
    (s.propagate.values? node origin).isSome = true ↔
      (s.live.values? node origin).isSome = true ∨
      (node ∈ s.automaton.visible ∧ s.automaton.hasEdge origin node = true ∧
        ∃ before v, s.snapshot.Holds origin before v) := by
  by_cases present : node ∈ s.live.keys
  · have visible : node ∈ s.automaton.visible := live.keys ▸ present
    rcases values?_propagate_cases present origin with
      ⟨edge, source, rfl, equal⟩ | ⟨others, equal⟩
    · obtain ⟨_, stored, _⟩ := (mem_sources_iff s edge node).mp source
      have edgeThere : s.automaton.hasEdge edge.start node = true := by
        simp [Automaton.hasEdge, stored]
      rw [equal, ← Edge.isSome_incoming?_iff edge s.snapshot]
      cases brought : edge.incoming? s.snapshot with
      | none => simp [pulled, brought]
      | some incoming => simp [pulled, brought, visible, edgeThere]
    · rw [equal]
      constructor
      · exact Or.inl
      · rintro (old | ⟨_, edge, before, v, values, found, _⟩)
        · exact old
        · obtain ⟨data, stored⟩ := Option.isSome_iff_exists.mp edge
          have shown := Automaton.isHidden_eq_false_of_visible (snapshot.node_visible found)
          exact absurd rfl (others ⟨data, origin, node⟩
            ((mem_sources_iff s _ node).mpr ⟨rfl, stored, shown⟩))
  · constructor
    · intro there
      obtain ⟨values, found⟩ := Option.isSome_iff_exists.mp there
      exact absurd (keys_propagate s ▸ Reach.mem_keys_of_values? found) present
    · rintro (there | ⟨visible, _⟩)
      · obtain ⟨values, found⟩ := Option.isSome_iff_exists.mp there
        exact absurd (Reach.mem_keys_of_values? found) present
      · exact absurd (live.keys ▸ visible) present

theorem live_within_propagate : s.live.Within s.propagate := by
  intro node origin values found
  have kept : ∀ v ∈ values, s.propagate.Holds node origin v := fun v member =>
    (holds_propagate_iff live snapshot node origin v).mpr (Or.inl ⟨values, found, member⟩)
  have there : (s.propagate.values? node origin).isSome = true :=
    (isSome_values?_propagate_iff live snapshot node origin).mpr (Or.inl (by simp [found]))
  -- The entry is there; that it has kept its values is known of whatever is held at this place.
  obtain ⟨grown, entry⟩ := Option.isSome_iff_exists.mp there
  refine ⟨grown, entry, ?_⟩
  intro v member
  obtain ⟨other, stored, held⟩ := kept v member
  rw [entry] at stored
  injection stored with stored
  exact stored ▸ held

theorem propagate_valid : s.propagate.Valid s.automaton initial := by
  refine ⟨(keys_propagate s).trans live.keys, ?_, ?_, ?_⟩
  · intro node origin values found
    have present := keys_propagate s ▸ Reach.mem_keys_of_values? found
    rcases values?_propagate_cases present origin with
      ⟨edge, source, rfl, equal⟩ | ⟨_, equal⟩
    · obtain ⟨_, stored, _⟩ := (mem_sources_iff s edge node).mp source
      refine ⟨?_, Or.inl (by simp [Automaton.hasEdge, stored])⟩
      cases brought : edge.incoming? s.snapshot with
      | none =>
          rw [equal, pulled, brought] at found
          exact (live.origin node edge.start values found).1
      | some incoming =>
          obtain ⟨_, _, from?, departing, stored, _⟩ := Edge.incoming?_spec snapshot brought
          exact snapshot.node_visible stored
    · exact live.origin node origin values (equal ▸ found)
  · intro node origin values found
    have present := keys_propagate s ▸ Reach.mem_keys_of_values? found
    rcases values?_propagate_cases present origin with
      ⟨edge, source, rfl, equal⟩ | ⟨_, equal⟩
    · obtain ⟨rfl, _⟩ := (mem_sources_iff s edge node).mp source
      exact (pulled_spec snapshot _ (live_entry live edge.stop edge.start)).1 values (equal ▸ found)
    · exact live.normal node origin values (equal ▸ found)
  · intro node origin values found v member
    rcases (holds_propagate_iff live snapshot node origin v).mp ⟨values, found, member⟩ with
      ⟨known, stored, held⟩ | ⟨_, data, _, ⟨from?, departing, stored, _, carried⟩, admits⟩
    · exact live.admits node origin known stored v held
    · obtain ⟨x, rfl⟩ := Edge.finite_carry _ (snapshot.normal _ _ _ stored)
        (snapshot.finite stored) v carried
      exact ⟨x, rfl, admits⟩

end Values

end Solver

end OneCounter
