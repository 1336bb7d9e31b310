import Mathlib.Tactic.ByCases
import OneCounter.Automaton.Basic

/-!
How automata are built: what each operation does to the nodes and to the edges. Main statements:
the ends of edges are always nodes and no row is ever empty, so that two automata with the same
edges have the same rows.
-/

namespace OneCounter

namespace Table

variable {α : Type}

theorem isEmpty_iff (table : Table α) : table.isEmpty = true ↔ table = .empty := by
  rw [isEmpty, List.isEmpty_iff]
  exact ⟨fun none => ext none, fun same => congrArg entries same⟩

theorem isEmpty_modify (table : Table α) (name : String) (f : α → α) :
    (table.modify name f).isEmpty = table.isEmpty := by
  simp [modify, map, isEmpty]

theorem modify_id (table : Table α) (name : String) : table.modify name id = table := by
  apply eq_of_get?_eq
  intro other
  rw [get?_modify]
  split <;> simp

theorem modify_insert (table : Table α) (name : String) (value : α) (f : α → α) :
    (table.insert name value).modify name f = table.insert name (f value) := by
  apply eq_of_get?_eq
  intro other
  rw [get?_modify, get?_insert, get?_insert]
  by_cases same : other = name
  · simp [same]
  · simp [same]

theorem find?_eq_none {name : String} {list : List (String × α)}
    (missing : ∀ entry ∈ list, entry.1 ≠ name) : find? name list = none := by
  cases found : find? name list with
  | none => rfl
  | some value => exact absurd rfl (missing _ (mem_of_find? found))

/-- Later entries would replace earlier ones, but every name occurs once. -/
theorem get?_foldl_insert {list : List (String × α)} (sorted : list.Pairwise fun a b => a.1 < b.1)
    (table : Table α) (name : String) :
    (list.foldl (fun table entry => table.insert entry.1 entry.2) table).get? name =
      (find? name list).or (table.get? name) := by
  induction list generalizing table with
  | nil => rfl
  | cons head rest ih =>
      obtain ⟨before, tail⟩ := List.pairwise_cons.mp sorted
      rw [List.foldl_cons, ih tail, get?_insert, find?]
      by_cases same : name = head.1
      · have missing : find? name rest = none := by
          apply find?_eq_none
          intro entry member equal
          have after := before entry member
          rw [equal, same] at after
          exact String.lt_irrefl _ after
        rw [missing, if_pos same, if_pos same]
        rfl
      · simp [same]

end Table

namespace Automaton

variable (a : Automaton)

/-! ### Nodes -/

theorem nodes_addNode (name : String) : (a.addNode name).nodes =
    if a.hasNode name then a.nodes else a.nodes.insert name .plain := by
  unfold addNode
  split <;> rfl

theorem get?_addNode (name other : String) :
    (a.addNode name).nodes.get? other =
      if other = name then some ((a.nodes.get? name).getD .plain) else a.nodes.get? other := by
  rw [nodes_addNode]
  split
  · next known =>
      obtain ⟨data, found⟩ := Option.isSome_iff_exists.mp known
      by_cases same : other = name
      · simp [same, found]
      · simp [same]
  · next unknown =>
      have missing : a.nodes.get? name = none := by
        simpa [hasNode, Table.contains] using unknown
      simp [Table.get?_insert, missing]

theorem rows_addNode (name : String) : (a.addNode name).rows = a.rows := by
  unfold addNode
  split <;> rfl

theorem edgeData?_addNode (name start stop : String) :
    (a.addNode name).edgeData? start stop = a.edgeData? start stop := by
  rw [edgeData?, row, rows_addNode]
  rfl

/-! ### Edges -/

theorem nodes_setRow (start : String) (row : Table EdgeData) :
    (a.setRow start row).nodes = a.nodes := by
  unfold setRow
  split <;> rfl

theorem row_setRow (start : String) (row : Table EdgeData) (other : String) :
    (a.setRow start row).row other = if other = start then row else a.row other := by
  unfold setRow
  split
  · next empty =>
      rw [Automaton.row, Table.get?_erase, (Table.isEmpty_iff row).mp empty]
      by_cases same : other = start
      · simp [same]
      · simp [same, Automaton.row]
  · rw [Automaton.row, Table.get?_insert]
    by_cases same : other = start
    · simp [same]
    · simp [same, Automaton.row]

theorem edgeData?_setRow (start : String) (row : Table EdgeData) (other stop : String) :
    (a.setRow start row).edgeData? other stop =
      if other = start then row.get? stop else a.edgeData? other stop := by
  rw [edgeData?, row_setRow]
  split <;> rfl

theorem nodes_addEdge (start stop : String) :
    (a.addEdge start stop).nodes = ((a.addNode start).addNode stop).nodes := by
  simp only [addEdge]
  split
  · rfl
  · rw [nodes_setRow]

/-- The edge is there afterwards, and is plain if it was not there before. -/
theorem edgeData?_addEdge (start stop other next : String) :
    (a.addEdge start stop).edgeData? other next =
      if other = start ∧ next = stop then some ((a.edgeData? start stop).getD .plain)
      else a.edgeData? other next := by
  have same : ∀ s t, ((a.addNode start).addNode stop).edgeData? s t = a.edgeData? s t := by
    intro s t
    rw [edgeData?_addNode, edgeData?_addNode]
  simp only [addEdge]
  split
  · next known =>
      obtain ⟨data, found⟩ := Option.isSome_iff_exists.mp known
      rw [same] at found ⊢
      by_cases here : other = start ∧ next = stop
      · rw [here.1, here.2, found]
        simp
      · rw [if_neg here]
  · next unknown =>
      have missing : a.edgeData? start stop = none := by
        simpa [hasEdge, same] using unknown
      rw [edgeData?_setRow, Table.get?_insert, missing]
      by_cases here : other = start
      · by_cases there : next = stop
        · simp [here, there]
        · rw [if_pos here, if_neg there, if_neg fun both => there both.2, here]
          exact same start next
      · rw [if_neg here, if_neg fun both => here both.1]
        exact same other next

theorem nodes_removeEdge (start stop : String) : (a.removeEdge start stop).nodes = a.nodes :=
  nodes_setRow a start _

theorem edgeData?_removeEdge (start stop other next : String) :
    (a.removeEdge start stop).edgeData? other next =
      if other = start ∧ next = stop then none else a.edgeData? other next := by
  rw [removeEdge, edgeData?_setRow, Table.get?_erase]
  by_cases here : other = start
  · by_cases there : next = stop
    · simp [here, there]
    · rw [if_pos here, if_neg there, if_neg fun both => there both.2, here]
      rfl
  · rw [if_neg here, if_neg fun both => here both.1]

theorem row_mapEdge (start stop : String) (f : EdgeData → EdgeData) (other : String) :
    (a.mapEdge start stop f).row other =
      if other = start then (a.row other).modify stop f else a.row other := by
  rw [row, mapEdge, Table.get?_modify]
  by_cases here : other = start
  · rw [if_pos here, if_pos here, row]
    cases a.rows.get? other <;> rfl
  · rw [if_neg here, if_neg here, row]

theorem edgeData?_mapEdge (start stop : String) (f : EdgeData → EdgeData) (other next : String) :
    (a.mapEdge start stop f).edgeData? other next =
      if other = start ∧ next = stop then (a.edgeData? start stop).map f
      else a.edgeData? other next := by
  rw [edgeData?, row_mapEdge]
  by_cases here : other = start
  · rw [if_pos here, Table.get?_modify]
    by_cases there : next = stop
    · simp [here, there, edgeData?]
    · simp [here, there, edgeData?]
  · simp [here, edgeData?]

theorem hasEdge_mapEdge (start stop : String) (f : EdgeData → EdgeData) (other next : String) :
    (a.mapEdge start stop f).hasEdge other next = a.hasEdge other next := by
  rw [hasEdge, edgeData?_mapEdge]
  split
  · next here => rw [here.1, here.2, Option.isSome_map, hasEdge]
  · rfl

theorem mapEdge_id (start stop : String) : a.mapEdge start stop id = a := by
  have rows : (fun row : Table EdgeData => row.modify stop id) = id :=
    funext fun row => row.modify_id stop
  rw [mapEdge, rows, Table.modify_id]

/-- Edges to the same node are replaced. Moving the edges of a node to itself leaves them. -/
theorem edgeData?_moveStart (old new other next : String) :
    (a.moveStart old new).edgeData? other next =
      if other = new then
        (a.edgeData? old next).or (if new = old then none else a.edgeData? new next)
      else if other = old then none else a.edgeData? other next := by
  simp only [moveStart]
  split
  · next empty =>
      have none : a.edgeData? old next = none := by
        rw [edgeData?, (Table.isEmpty_iff _).mp empty]
        rfl
      by_cases here : other = new
      · by_cases self : new = old
        · simp [here, self, none]
        · simp [here, self, none]
      · by_cases there : other = old
        · rw [if_neg here, if_pos there, there, none]
        · rw [if_neg here, if_neg there]
  · rw [edgeData?_setRow, Table.get?_foldl_insert (a.row old).sorted]
    -- The old row is gone before the new one is read, which matters if the two nodes are one.
    have rest : ∀ s t, ((a.setRow old .empty).addNode new).edgeData? s t =
        if s = old then none else a.edgeData? s t := by
      intro s t
      rw [edgeData?_addNode, edgeData?_setRow]
      rfl
    by_cases here : other = new
    · rw [if_pos here, if_pos here]
      exact congrArg _ (rest new next)
    · rw [if_neg here, if_neg here]
      exact rest other next

/-! ### What is left alone -/

/-- The two automata differ in their nodes and edges only. -/
def Rebuilt (a b : Automaton) : Prop := b = { a with nodes := b.nodes, rows := b.rows }

theorem Rebuilt.refl : a.Rebuilt a := rfl

theorem Rebuilt.trans {a b c : Automaton} (first : a.Rebuilt b) (second : b.Rebuilt c) :
    a.Rebuilt c := by
  rw [Rebuilt] at *
  rw [second, first]

theorem Rebuilt.eq_of_tables {a b c : Automaton} (first : a.Rebuilt b) (second : a.Rebuilt c)
    (nodes : b.nodes = c.nodes) (rows : b.rows = c.rows) : b = c := by
  rw [first, second, nodes, rows]

theorem rebuilt_addNode (name : String) : a.Rebuilt (a.addNode name) := by
  unfold addNode
  split <;> rfl

theorem rebuilt_setRow (start : String) (row : Table EdgeData) :
    a.Rebuilt (a.setRow start row) := by
  unfold setRow
  split <;> rfl

theorem rebuilt_addEdge (start stop : String) : a.Rebuilt (a.addEdge start stop) := by
  have nodes := (rebuilt_addNode a start).trans (rebuilt_addNode _ stop)
  simp only [addEdge]
  split
  · exact nodes
  · exact nodes.trans (rebuilt_setRow _ start _)

theorem rebuilt_moveStart (old new : String) : a.Rebuilt (a.moveStart old new) := by
  simp only [moveStart]
  split
  · exact Rebuilt.refl a
  · exact ((rebuilt_setRow a old _).trans (rebuilt_addNode _ new)).trans (rebuilt_setRow _ new _)

/-! ### The graph -/

/-- Edges join nodes, and only nodes with edges have a row. -/
structure WellFormed (a : Automaton) : Prop where
  ends : ∀ {start stop : String}, a.hasEdge start stop = true →
    a.hasNode start = true ∧ a.hasNode stop = true
  filled : ∀ {start : String} {row : Table EdgeData}, a.rows.get? start = some row →
    row.isEmpty = false

theorem hasNode_addNode (name other : String) :
    (a.addNode name).hasNode other = (decide (other = name) || a.hasNode other) := by
  rw [hasNode, Table.contains, get?_addNode]
  by_cases same : other = name
  · simp [same]
  · simp [same, hasNode, Table.contains]

theorem hasNode_addEdge (start stop other : String) : (a.addEdge start stop).hasNode other =
    (decide (other = stop) || (decide (other = start) || a.hasNode other)) := by
  rw [hasNode, nodes_addEdge]
  exact (hasNode_addNode _ stop other).trans (congrArg _ (hasNode_addNode a start other))

theorem nodes_moveStart (old new : String) : (a.moveStart old new).nodes =
    if (a.row old).isEmpty then a.nodes else (a.addNode new).nodes := by
  simp only [moveStart]
  split
  · rfl
  · rw [nodes_setRow, nodes_addNode, nodes_addNode, hasNode, nodes_setRow]
    rfl

theorem hasNode_moveStart (old new other : String) : (a.moveStart old new).hasNode other =
    (!(a.row old).isEmpty && decide (other = new) || a.hasNode other) := by
  rw [hasNode, nodes_moveStart]
  split
  · next empty => simp [empty, hasNode]
  · next nonempty =>
      refine (hasNode_addNode a new other).trans ?_
      simp [nonempty]

theorem hasNode_mapNode (name : String) (f : NodeData → NodeData) (other : String) :
    (a.mapNode name f).hasNode other = a.hasNode other := by
  rw [hasNode, Table.contains, mapNode, Table.get?_modify]
  by_cases same : other = name
  · simp [same, hasNode, Table.contains]
  · simp [same, hasNode, Table.contains]

variable {a}

theorem hasEdge_of_edgeData? {start stop : String} {data : EdgeData}
    (found : a.edgeData? start stop = some data) : a.hasEdge start stop = true := by
  rw [hasEdge, found]
  rfl

theorem filled_setRow (filled : ∀ {start row}, a.rows.get? start = some row → row.isEmpty = false)
    (start : String) (row : Table EdgeData) {other : String} {found : Table EdgeData}
    (present : (a.setRow start row).rows.get? other = some found) : found.isEmpty = false := by
  unfold setRow at present
  split at present
  · rw [Table.get?_erase] at present
    split at present
    · cases present
    · exact filled present
  · next nonempty =>
      rw [Table.get?_insert] at present
      split at present
      · cases present
        simpa using nonempty
      · exact filled present

theorem wellFormed_empty (name : String) : (empty name).WellFormed :=
  ⟨nofun, nofun⟩

namespace WellFormed

theorem addNode (wf : a.WellFormed) (name : String) : (a.addNode name).WellFormed := by
  constructor
  · intro start stop edge
    rw [hasEdge, edgeData?_addNode] at edge
    simp [hasNode_addNode, wf.ends edge]
  · intro start row found
    rw [rows_addNode] at found
    exact wf.filled found

theorem addEdge (wf : a.WellFormed) (start stop : String) : (a.addEdge start stop).WellFormed := by
  constructor
  · intro other next edge
    rw [hasEdge, edgeData?_addEdge] at edge
    split at edge
    · next here => simp [hasNode_addEdge, here]
    · simp [hasNode_addEdge, wf.ends edge]
  · intro other row found
    simp only [Automaton.addEdge] at found
    split at found
    · rw [rows_addNode, rows_addNode] at found
      exact wf.filled found
    · exact filled_setRow ((wf.addNode start).addNode stop).filled _ _ found

theorem removeEdge (wf : a.WellFormed) (start stop : String) :
    (a.removeEdge start stop).WellFormed := by
  constructor
  · intro other next edge
    rw [hasEdge, edgeData?_removeEdge] at edge
    split at edge
    · cases edge
    · rw [hasNode, hasNode, nodes_removeEdge]
      exact wf.ends edge
  · intro other row found
    exact filled_setRow wf.filled _ _ found

theorem mapNode (wf : a.WellFormed) (name : String) (f : NodeData → NodeData) :
    (a.mapNode name f).WellFormed := by
  constructor
  · intro start stop edge
    rw [hasNode_mapNode, hasNode_mapNode]
    exact wf.ends edge
  · intro start row found
    exact wf.filled found

theorem mapEdge (wf : a.WellFormed) (start stop : String) (f : EdgeData → EdgeData) :
    (a.mapEdge start stop f).WellFormed := by
  constructor
  · intro other next edge
    rw [hasEdge_mapEdge] at edge
    exact wf.ends edge
  · intro other row found
    rw [Automaton.mapEdge, Table.get?_modify] at found
    split at found
    · obtain ⟨before, present, rfl⟩ := Option.map_eq_some_iff.mp found
      rw [Table.isEmpty_modify]
      exact wf.filled present
    · exact wf.filled found

theorem moveStart (wf : a.WellFormed) (old new : String) : (a.moveStart old new).WellFormed := by
  by_cases empty : (a.row old).isEmpty
  · rwa [Automaton.moveStart, if_pos empty]
  · have known : ∀ {name}, a.hasNode name = true → (a.moveStart old new).hasNode name = true := by
      intro name node
      rw [hasNode_moveStart, node, Bool.or_true]
    constructor
    · intro other next edge
      obtain ⟨data, found⟩ := Option.isSome_iff_exists.mp edge
      rw [edgeData?_moveStart] at found
      split at found
      · next here =>
          have target : (a.moveStart old new).hasNode next = true := by
            rcases Option.or_eq_some_iff.mp found with moved | ⟨-, kept⟩
            · exact known (wf.ends (hasEdge_of_edgeData? moved)).2
            · split at kept
              · cases kept
              · exact known (wf.ends (hasEdge_of_edgeData? kept)).2
          refine ⟨?_, target⟩
          simp [hasNode_moveStart, here, empty]
      · split at found
        · cases found
        · have ends := wf.ends (hasEdge_of_edgeData? found)
          exact ⟨known ends.1, known ends.2⟩
    · intro other row found
      simp only [Automaton.moveStart, if_neg empty] at found
      refine filled_setRow ?_ _ _ found
      intro start row present
      rw [rows_addNode] at present
      exact filled_setRow wf.filled _ _ present

theorem get?_rows (wf : a.WellFormed) (start : String) :
    a.rows.get? start = if (a.row start).isEmpty then none else some (a.row start) := by
  cases found : a.rows.get? start with
  | none =>
      have missing : (a.row start).isEmpty = true := by
        rw [row, found]
        rfl
      rw [if_pos missing]
  | some row =>
      have present : a.row start = row := by
        rw [Automaton.row, found]
        rfl
      rw [present, wf.filled found]
      rfl

end WellFormed

/-- The edges say which rows there are. -/
theorem rows_eq_of_edgeData? {a b : Automaton} (left : a.WellFormed) (right : b.WellFormed)
    (same : ∀ start stop, a.edgeData? start stop = b.edgeData? start stop) : a.rows = b.rows := by
  apply Table.eq_of_get?_eq
  intro start
  have rows : a.row start = b.row start := Table.eq_of_get?_eq (same start)
  rw [left.get?_rows, right.get?_rows, rows]

end Automaton

end OneCounter
