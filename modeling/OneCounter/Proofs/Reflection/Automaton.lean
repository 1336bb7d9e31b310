import OneCounter.Proofs.CycleSearch
import OneCounter.Proofs.Reflection.Region

/-!
Reflection of automata at zero: additions turn into subtractions, upper guards into lower ones,
and the range of the counter is turned round. Main statements: a node of the reflected automaton
admits the reflected values, and its loops are the reflected loops.
-/

namespace OneCounter

/-! ### Instructions -/

namespace Operator

def reflect : Operator → Operator
  | atLeast => atMost
  | atMost => atLeast
  | equal => equal
  | add => sub
  | sub => add

theorem bars_reflect (op : Operator) (direction : Direction) :
    op.reflect.bars direction = op.bars direction.opposite := by
  cases direction <;> cases op <;> rfl

theorem isGuard_of_bars {op : Operator} {direction : Direction} (bars : op.bars direction = true) :
    op.isGuard = true := by
  cases direction <;> cases op <;> first | rfl | cases bars

end Operator

namespace Instr

/-- A guard keeps the values on the other side of zero, a delta makes the opposite change. -/
def reflect (instr : Instr) : Instr :=
  ⟨instr.op.reflect, if instr.isGuard then -instr.constant else instr.constant⟩

variable {instr : Instr}

theorem accepts_reflect_iff (h : instr.isGuard = true → instr.constant ≠ .least) (v : ExtRat) :
    instr.reflect.Accepts v ↔ instr.Accepts v.reflect := by
  obtain ⟨op, constant⟩ := instr
  cases op with
  | atLeast =>
      have negatable := (Bound.negatable_finite_iff constant).mpr (h rfl)
      change v ≤ (-(Bound.finite constant)).val ↔ (Bound.finite constant).val ≤ v.reflect
      rw [Bound.val_neg negatable, ExtRat.le_reflect_iff]
  | atMost =>
      have negatable := (Bound.negatable_finite_iff constant).mpr (h rfl)
      change (-(Bound.finite constant)).val ≤ v ↔ v.reflect ≤ (Bound.finite constant).val
      rw [Bound.val_neg negatable, ExtRat.reflect_le_iff]
  | equal =>
      have negatable := (Bound.negatable_finite_iff constant).mpr (h rfl)
      change v = (-(Bound.finite constant)).val ↔ v.reflect = (Bound.finite constant).val
      rw [Bound.val_neg negatable, ExtRat.reflect_eq_iff]
  | add => exact Iff.rfl
  | sub => exact Iff.rfl

theorem delta?_reflect (h : instr.isGuard = false → instr.constant ≠ .least) :
    instr.reflect.delta? = instr.delta?.map (-·) := by
  obtain ⟨op, constant⟩ := instr
  cases op with
  | atLeast => rfl
  | atMost => rfl
  | equal => rfl
  | add => rfl
  | sub =>
      change some constant = some (- -constant)
      rw [Count.neg_neg_of_ne (h rfl)]

theorem delta?_ne_least (h : instr.isGuard = false → instr.constant ≠ .least) :
    instr.delta? ≠ some .least := by
  obtain ⟨op, constant⟩ := instr
  cases op with
  | atLeast => exact nofun
  | atMost => exact nofun
  | equal => exact nofun
  | add => exact fun same => h rfl (Option.some.inj same)
  | sub => exact fun same => constant.neg_ne_least (Option.some.inj same)

theorem overflows_eq_false (h : instr.isGuard = false → instr.constant ≠ .least) :
    instr.overflows = false := by
  obtain ⟨op, constant⟩ := instr
  cases op with
  | sub => simpa [overflows] using h rfl
  | add => rfl
  | atLeast => rfl
  | atMost => rfl
  | equal => rfl

theorem overflows_reflect (h : instr.isGuard = false → instr.constant ≠ .least) :
    instr.reflect.overflows = false := by
  apply overflows_eq_false
  obtain ⟨op, constant⟩ := instr
  cases op with
  | sub => exact h
  | add => exact h
  | atLeast => exact nofun
  | atMost => exact nofun
  | equal => exact nofun

end Instr

namespace EdgeData

def reflect (data : EdgeData) : EdgeData :=
  { data with operation? := data.operation?.map Instr.reflect }

/-- The change along the edge can be made both ways. -/
def Reflectable (data : EdgeData) : Prop :=
  ∀ operation, data.operation? = some operation → operation.isGuard = false →
    operation.constant ≠ .least

variable {data : EdgeData}

theorem delta_reflect (h : data.Reflectable) : data.reflect.delta = -data.delta := by
  cases operation : data.operation? with
  | none => simp only [delta, reflect, operation]; rfl
  | some instr =>
      simp only [delta, reflect, operation, Option.map_some, Option.bind_some,
        Instr.delta?_reflect (h instr operation)]
      cases instr.delta? <;> rfl

theorem delta_ne_least (h : data.Reflectable) : data.delta ≠ .least := by
  cases operation : data.operation? with
  | none =>
      simp only [delta, operation]
      decide
  | some instr =>
      have changes := Instr.delta?_ne_least (h instr operation)
      simp only [delta, operation, Option.bind_some]
      cases found : instr.delta? with
      | none => exact (by decide : (0 : Count) ≠ .least)
      | some change => exact fun same => changes (by rw [found, ← same]; rfl)

theorem overflows_eq_false (h : data.Reflectable) : data.overflows = false := by
  cases operation : data.operation? with
  | none => simp only [overflows, operation, Option.any_none]
  | some instr =>
      simp only [overflows, operation, Option.any_some, Instr.overflows_eq_false (h instr operation)]

theorem overflows_reflect (h : data.Reflectable) : data.reflect.overflows = false := by
  cases operation : data.operation? with
  | none => simp only [overflows, reflect, operation, Option.map_none, Option.any_none]
  | some instr =>
      simp only [overflows, reflect, operation, Option.map_some, Option.any_some,
        Instr.overflows_reflect (h instr operation)]

end EdgeData

/-! ### Automata -/

def NodeData.reflect (data : NodeData) : NodeData :=
  { data with condition? := data.condition?.map Instr.reflect }

namespace Automaton

/-- The same graph with up and down exchanged. Its loops have yet to be looked for. -/
def reflect (a : Automaton) : Automaton :=
  { a with
    nodes := a.nodes.map fun _ data => data.reflect
    rows := a.rows.map fun _ row => row.map fun _ data => data.reflect
    lower := -a.upper
    upper := -a.lower
    start := -a.start
    loops? := none }

/-- The least counter value, which has no negative, is nowhere used. -/
structure Reflectable (a : Automaton) : Prop where
  start : a.start ≠ .least
  lower : a.lower.Negatable
  upper : a.upper.Negatable
  guards : ∀ node guard, a.condition? node = some guard → guard.isGuard = true →
    guard.constant ≠ .least
  deltas : ∀ start stop data, a.edgeData? start stop = some data → data.Reflectable

variable {a : Automaton}

theorem condition?_reflect (a : Automaton) (node : String) :
    a.reflect.condition? node = (a.condition? node).map Instr.reflect := by
  simp only [condition?, reflect, Table.get?_map]
  cases a.nodes.get? node <;> rfl

theorem visible_reflect (a : Automaton) : a.reflect.visible = a.visible := by
  simp only [visible, reflect, Table.keys, Table.filter, Table.map, List.filter_map, List.map_map]
  rfl

theorem edgeData?_reflect (a : Automaton) (start stop : String) :
    a.reflect.edgeData? start stop = (a.edgeData? start stop).map EdgeData.reflect := by
  simp only [edgeData?, row, reflect, Table.get?_map]
  cases a.rows.get? start with
  | none => rfl
  | some row => simp [Table.get?_map]

theorem hasEdge_reflect (a : Automaton) (start stop : String) :
    a.reflect.hasEdge start stop = a.hasEdge start stop := by
  rw [hasEdge, hasEdge, edgeData?_reflect, Option.isSome_map]

theorem graph_reflect (a : Automaton) : a.reflect.graph = a.graph := by
  apply Table.ext
  simp [graph, reflect, Table.map, Table.keys, Function.comp_def]

theorem admits_reflect_iff (h : a.Reflectable) (node : String) (v : ExtRat) :
    a.reflect.Admits node v ↔ a.Admits node v.reflect := by
  have range : a.reflect.lower.val ≤ v ∧ v ≤ a.reflect.upper.val ↔
      a.lower.val ≤ v.reflect ∧ v.reflect ≤ a.upper.val := by
    change (-a.upper).val ≤ v ∧ v ≤ (-a.lower).val ↔ _
    rw [Bound.val_neg h.upper, Bound.val_neg h.lower, ExtRat.reflect_le_iff,
      ExtRat.le_reflect_iff, and_comm]
  constructor
  · intro admits
    obtain ⟨above, below⟩ := range.mp ⟨admits.lower_le, admits.le_upper⟩
    refine ⟨above, below, ?_⟩
    intro guard condition
    rw [← Instr.accepts_reflect_iff (h.guards node guard condition)]
    exact admits.accepts guard.reflect (by rw [condition?_reflect, condition, Option.map_some])
  · intro admits
    obtain ⟨above, below⟩ := range.mpr ⟨admits.lower_le, admits.le_upper⟩
    refine ⟨above, below, ?_⟩
    intro guard condition
    rw [condition?_reflect, Option.map_eq_some_iff] at condition
    obtain ⟨other, found, rfl⟩ := condition
    rw [Instr.accepts_reflect_iff (h.guards node other found)]
    exact admits.accepts other found

/-- The loops of the reflection are looked for anew. -/
theorem reflect_loopsFresh (a : Automaton) : a.reflect.LoopsFresh := by
  intro initial loops _ known
  cases known

theorem fits_of_reflectable (h : a.Reflectable) : a.Fits := by
  intro edge member
  exact EdgeData.overflows_eq_false (h.deltas _ _ _ ((mem_edges_iff a edge).mp member))

theorem reflect_fits (h : a.Reflectable) : a.reflect.Fits := by
  intro edge member
  have stored := (mem_edges_iff a.reflect edge).mp member
  rw [edgeData?_reflect, Option.map_eq_some_iff] at stored
  obtain ⟨data, found, same⟩ := stored
  change edge.toEdgeData.overflows = false
  rw [← same]
  exact EdgeData.overflows_reflect (h.deltas _ _ _ found)

end Automaton

/-! ### Loops -/

def Limit.reflect (limit : Limit) : Limit := { limit with value := -limit.value }

def Side.reflect (side : Side) : Side := { side with limit? := side.limit?.map Limit.reflect }

namespace Loop

def reflect (l : Loop) : Loop := ⟨l.nodes, l.falling.reflect, l.rising.reflect⟩

theorem side_reflect (l : Loop) (direction : Direction) :
    l.reflect.side direction = (l.side direction.opposite).reflect := by
  cases direction <;> rfl

theorem nearer_neg {b c : Count} (hb : b ≠ .least) (hc : c ≠ .least) (direction : Direction) :
    direction.nearer (-b) (-c) = direction.opposite.nearer b c := by
  cases direction <;>
    simp [Direction.nearer, Direction.opposite, Count.lt_iff, Count.toInt_neg_of_ne hb,
      Count.toInt_neg_of_ne hc]

theorem foldl_nearest_reflect {limits : List Limit} {best? : Option Limit}
    (h : ∀ limit ∈ limits, limit.value ≠ .least)
    (best : ∀ limit, best? = some limit → limit.value ≠ .least) (direction : Direction) :
    (limits.map Limit.reflect).foldl (nearest direction) (best?.map Limit.reflect) =
      (limits.foldl (nearest direction.opposite) best?).map Limit.reflect := by
  induction limits generalizing best? with
  | nil => rfl
  | cons limit rest ih =>
      have first := h limit List.mem_cons_self
      have later : ∀ limit ∈ rest, limit.value ≠ .least := fun other member =>
        h other (List.mem_cons_of_mem limit member)
      have step : nearest direction (best?.map Limit.reflect) limit.reflect =
          (nearest direction.opposite best? limit).map Limit.reflect := by
        cases best? with
        | none => rfl
        | some old =>
            simp only [nearest, Option.map_some, Limit.reflect,
              nearer_neg first (best old rfl) direction]
            split <;> rfl
      rw [List.map_cons, List.foldl_cons, List.foldl_cons, step]
      apply ih later
      intro kept now
      have found : [limit].foldl (nearest direction.opposite) best? = some kept := now
      rcases mem_of_foldl_nearest found with old | new
      · exact best kept old
      · exact List.mem_singleton.mp new ▸ first

theorem tightest_reflect {limits : List Limit} (h : ∀ limit ∈ limits, limit.value ≠ .least)
    (direction : Direction) : tightest direction (limits.map Limit.reflect) =
      (tightest direction.opposite limits).map Limit.reflect := by
  have nothing : ∀ limit, (none : Option Limit) = some limit → limit.value ≠ .least := by
    intro limit found
    cases found
  exact foldl_nearest_reflect h nothing direction

variable {a : Automaton}

theorem limits_reflect (a : Automaton) (direction : Direction) (nodes : List String) :
    limits a.reflect direction nodes =
      (limits a direction.opposite nodes).map Limit.reflect := by
  rw [limits, limits, List.map_filterMap]
  apply List.filterMap_congr
  intro pair _
  rw [Automaton.condition?_reflect]
  cases condition : a.condition? pair.2 with
  | none => rfl
  | some guard =>
      simp only [Option.map_some]
      change (if guard.op.reflect.bars direction then _ else _) = _
      rw [Operator.bars_reflect]
      by_cases bars : guard.op.bars direction.opposite = true
      · have isGuard : guard.isGuard = true := Operator.isGuard_of_bars bars
        simp [bars, Instr.reflect, isGuard, Limit.reflect]
      · simp [bars]

theorem value_ne_least_of_mem_limits (h : a.Reflectable) {direction : Direction}
    {nodes : List String} {limit : Limit} (member : limit ∈ limits a direction nodes) :
    limit.value ≠ .least := by
  obtain ⟨guard, condition, bars, constant⟩ := condition_of_mem_limits member
  rw [← constant]
  exact h.guards _ guard condition (Operator.isGuard_of_bars bars)

theorem steps_reflect (a : Automaton) (nodes : List String) :
    steps a.reflect nodes = (steps a nodes).map EdgeData.reflect := by
  rw [steps, steps, List.map_filterMap]
  apply List.filterMap_congr
  intro pair _
  exact a.edgeData?_reflect pair.1 pair.2

theorem follows_neg {delta : Count} (h : delta ≠ .least) (direction : Direction) :
    direction.follows (-delta) = direction.opposite.follows delta := by
  have zero : (0 : Count) = -0 := rfl
  rw [Direction.follows, Direction.follows, zero, nearer_neg (by decide) h]
  rfl

theorem follows_reflect (h : a.Reflectable) {nodes : List String} {data : EdgeData}
    (member : data ∈ steps a nodes) (direction : Direction) :
    direction.follows data.reflect.delta = direction.opposite.follows data.delta := by
  obtain ⟨pair, _, found⟩ := List.mem_filterMap.mp member
  have reflectable := h.deltas _ _ _ found
  rw [EdgeData.delta_reflect reflectable, follows_neg (EdgeData.delta_ne_least reflectable)]

theorem sideOf_reflect (h : a.Reflectable) (nodes : List String) (direction : Direction) :
    sideOf a.reflect nodes direction = (sideOf a nodes direction.opposite).reflect := by
  have moves : ((steps a.reflect nodes).any fun step => direction.follows step.delta) =
      (steps a nodes).any fun step => direction.opposite.follows step.delta := by
    rw [steps_reflect, Bool.eq_iff_iff, List.any_eq_true, List.any_eq_true]
    constructor
    · rintro ⟨_, member, follows⟩
      obtain ⟨data, present, rfl⟩ := List.mem_map.mp member
      exact ⟨data, present, by rwa [follows_reflect h present] at follows⟩
    · rintro ⟨data, present, follows⟩
      exact ⟨data.reflect, List.mem_map_of_mem present, by rwa [follows_reflect h present]⟩
  rw [sideOf, moves, limits_reflect,
    tightest_reflect fun limit member => value_ne_least_of_mem_limits h member]
  rfl

theorem ofNodes_reflect (h : a.Reflectable) (nodes : List String) :
    ofNodes a.reflect nodes = (ofNodes a nodes).reflect := by
  rw [ofNodes, sideOf_reflect h, sideOf_reflect h]
  rfl

end Loop

theorem Automaton.loopsFrom_reflect {a : Automaton} (h : a.Reflectable) (initial : String) :
    a.reflect.loopsFrom initial = (a.loopsFrom initial).map Loop.reflect := by
  rw [loopsFrom, loopsFrom, cyclesFrom_congr a.graph_reflect, List.map_map]
  exact List.map_congr_left fun nodes _ => Loop.ofNodes_reflect h nodes

end OneCounter
