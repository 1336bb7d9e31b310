import OneCounter.Automaton.Store
import OneCounter.Proofs.EdgeLists

/-!
How the records of a store are filed. Main statements: nodes and edges that are added, removed or
moved are filed under the names that they hold, in rows that are not empty; and as long as all
records are filed so, a store lists the edges of the automaton that it describes.
-/

namespace OneCounter

namespace Table

variable {α β : Type}

theorem isEmpty_eq_false_of_get? {table : Table α} {name : String} {value : α}
    (found : table.get? name = some value) : table.isEmpty = false := by
  rw [Bool.eq_false_iff]
  intro empty
  rw [(isEmpty_iff table).mp empty] at found
  cases found

theorem exists_get?_of_isEmpty {table : Table α} (nonempty : table.isEmpty = false) :
    ∃ name value, table.get? name = some value := by
  obtain ⟨⟨name, value⟩, member⟩ :=
    List.exists_mem_of_ne_nil _ (List.isEmpty_eq_false_iff.mp nonempty)
  exact ⟨name, value, (get?_eq_some_iff table name value).mpr member⟩

/-- What a table holds after the values of another one, each changed, were put into it. -/
theorem get?_foldl_insert_map (source : Table α) (f : α → β) (table : Table β) (name : String) :
    (source.entries.foldl (fun table entry => table.insert entry.1 (f entry.2)) table).get? name =
      ((source.get? name).map f).or (table.get? name) := by
  have changed := get?_foldl_insert (source.map fun _ value => f value).sorted table name
  rw [map, List.foldl_map] at changed
  rw [changed]
  exact congrArg (Option.or · _) (get?_map (fun _ value => f value) source name)

end Table

namespace Store

variable {s t : Store}

/-- A row that belongs to a node: it has edges, and each of them leads from the node to the node
that it is filed under. -/
structure RowFiled (s : Store) (start : String) (row : Table Edge) : Prop where
  filled : row.isEmpty = false
  known : s.hasNode start = true
  edge : ∀ {stop : String} {edge : Edge}, row.get? stop = some edge →
    edge.start = start ∧ edge.stop = stop ∧ s.hasNode stop = true

/-- All records are under the names that they hold. -/
structure Filed (s : Store) : Prop where
  node : ∀ {name : String} {node : Node}, s.nodes.get? name = some node → node.name = name
  row : ∀ {start : String} {row : Table Edge}, s.rows.get? start = some row → s.RowFiled start row
  initial : ∀ {name : String}, s.initial? = some name → s.hasNode name = true

/-! ### Writing one record or one row -/

theorem RowFiled.mono {start : String} {row : Table Edge} (filed : s.RowFiled start row)
    (keeps : ∀ {name}, s.hasNode name = true → t.hasNode name = true) : t.RowFiled start row where
  filled := filed.filled
  known := keeps filed.known
  edge found := by
    obtain ⟨starts, stops, known⟩ := filed.edge found
    exact ⟨starts, stops, keeps known⟩

theorem filed_withBounds (name : String) (lower upper : Bound) :
    (withBounds name lower upper).Filed :=
  ⟨nofun, nofun, nofun⟩

namespace Filed

/-- Only nodes, rows and the initial node matter. -/
theorem congr (filed : s.Filed) (nodes : t.nodes = s.nodes) (rows : t.rows = s.rows)
    (initial : ∀ {name}, t.initial? = some name → s.hasNode name = true) : t.Filed := by
  cases s
  cases t
  cases nodes
  cases rows
  exact ⟨filed.node, fun found => (filed.row found).mono id, initial⟩

theorem edge (filed : s.Filed) {start stop : String} {edge : Edge}
    (found : s.edge? start stop = some edge) : edge.start = start ∧ edge.stop = stop ∧
      s.hasNode start = true ∧ s.hasNode stop = true := by
  unfold edge? Store.row at found
  cases present : s.rows.get? start with
  | none =>
      rw [present] at found
      cases found
  | some row =>
      rw [present] at found
      obtain ⟨starts, stops, known⟩ := (filed.row present).edge found
      exact ⟨starts, stops, (filed.row present).known, known⟩

theorem putNode (filed : s.Filed) {name : String} {node : Node} (named : node.name = name) :
    ({ s with nodes := s.nodes.insert name node } : Store).Filed := by
  have keeps : ∀ {other}, s.hasNode other = true →
      ({ s with nodes := s.nodes.insert name node } : Store).hasNode other = true := by
    intro other known
    rw [hasNode, Table.contains, Table.get?_insert]
    split
    · rfl
    · exact known
  refine ⟨?_, fun found => (filed.row found).mono keeps, fun root => keeps (filed.initial root)⟩
  intro other found present
  rw [Table.get?_insert] at present
  split at present
  · next same =>
      obtain rfl := Option.some.inj present
      rw [named, same]
  · exact filed.node present

theorem putRow (filed : s.Filed) {start : String} {row : Table Edge}
    (rowFiled : s.RowFiled start row) :
    ({ s with rows := s.rows.insert start row } : Store).Filed := by
  refine ⟨filed.node, ?_, filed.initial⟩
  intro other found present
  rw [Table.get?_insert] at present
  split at present
  · next same =>
      obtain rfl := Option.some.inj present
      rw [same]
      exact rowFiled.mono id
  · exact (filed.row present).mono id

theorem dropRow (filed : s.Filed) (start : String) :
    ({ s with rows := s.rows.erase start } : Store).Filed := by
  refine ⟨filed.node, ?_, filed.initial⟩
  intro other found present
  rw [Table.get?_erase] at present
  split at present
  · cases present
  · exact (filed.row present).mono id

/-- An edge is put into the row of its start. -/
theorem putEdge (filed : s.Filed) {start stop : String} {edge : Edge}
    (ends : edge.start = start ∧ edge.stop = stop)
    (known : s.hasNode start = true ∧ s.hasNode stop = true) :
    ({ s with rows := s.rows.insert start ((s.row start).insert stop edge) } : Store).Filed := by
  have written : ((s.row start).insert stop edge).get? stop = some edge := by
    rw [Table.get?_insert, if_pos rfl]
  refine filed.putRow ⟨Table.isEmpty_eq_false_of_get? written, known.1, ?_⟩
  intro other found present
  rw [Table.get?_insert] at present
  split at present
  · next same =>
      obtain rfl := Option.some.inj present
      exact ⟨ends.1, ends.2.trans same.symm, same ▸ known.2⟩
  · obtain ⟨starts, stops, -, knownStop⟩ := filed.edge present
    exact ⟨starts, stops, knownStop⟩

/-! ### Nodes and edges that are added, removed and moved -/

theorem addNode (filed : s.Filed) (name : String) : (s.addNode name).Filed := by
  unfold Store.addNode
  split
  · exact filed
  · exact filed.putNode rfl

end Filed

theorem hasNode_addNode (s : Store) (name other : String) :
    (s.addNode name).hasNode other = (decide (other = name) || s.hasNode other) := by
  unfold addNode
  split
  · next known =>
      by_cases same : other = name
      · simp [same, known]
      · simp [same]
  · rw [hasNode, Table.contains, Table.get?_insert]
    by_cases same : other = name
    · simp [same]
    · simp [same, hasNode, Table.contains]

namespace Filed

theorem addEdge (filed : s.Filed) (start stop : String) : (s.addEdge start stop).Filed := by
  have nodes := (filed.addNode start).addNode stop
  have known : ((s.addNode start).addNode stop).hasNode start = true ∧
      ((s.addNode start).addNode stop).hasNode stop = true := by
    simp [hasNode_addNode]
  simp only [Store.addEdge]
  split
  · next present =>
      obtain ⟨edge, found⟩ := Option.isSome_iff_exists.mp present
      -- The row is written as it was.
      refine nodes.putRow ⟨Table.isEmpty_eq_false_of_get? found, known.1, ?_⟩
      intro other edge found
      obtain ⟨starts, stops, -, knownStop⟩ := nodes.edge found
      exact ⟨starts, stops, knownStop⟩
  · exact nodes.putEdge ⟨rfl, rfl⟩ known

theorem removeEdge (filed : s.Filed) (start stop : String) :
    (s.removeEdge start stop).2.Filed := by
  unfold Store.removeEdge
  cases present : s.rows.get? start with
  | none => exact filed
  | some row =>
      have rowFiled := filed.row present
      by_cases empty : (row.erase stop).isEmpty
      · simp only [if_pos empty]
        exact filed.dropRow start
      · simp only [if_neg empty]
        refine filed.putRow ⟨Bool.eq_false_iff.mpr empty, rowFiled.known, ?_⟩
        intro other edge found
        rw [Table.get?_erase] at found
        split at found
        · cases found
        · exact rowFiled.edge found

/-- The edges that come from the old row get their new start, and those of the new row that are not
replaced had it already. -/
theorem moveStart (filed : s.Filed) (old new : String) : (s.moveStart old new).Filed := by
  unfold Store.moveStart
  cases present : s.rows.get? old with
  | none => exact filed
  | some moved =>
      have movedFiled := filed.row present
      have dropped := (filed.dropRow old).addNode new
      have known : ∀ {name}, s.hasNode name = true →
          (Store.addNode { s with rows := s.rows.erase old } new).hasNode name = true := by
        intro name known
        rw [hasNode_addNode]
        exact Bool.or_eq_true_iff.mpr (Or.inr known)
      have lookup := Table.get?_foldl_insert_map moved (fun edge => edge.withStart new)
        ((Store.addNode { s with rows := s.rows.erase old } new).row new)
      refine dropped.putRow ⟨?_, by simp [hasNode_addNode], ?_⟩
      · obtain ⟨stop, edge, found⟩ := Table.exists_get?_of_isEmpty movedFiled.filled
        have arrived := lookup stop
        rw [found] at arrived
        exact Table.isEmpty_eq_false_of_get? arrived
      · intro stop edge found
        rw [lookup] at found
        rcases Option.or_eq_some_iff.mp found with fromOld | ⟨-, kept⟩
        · obtain ⟨before, stored, rfl⟩ := Option.map_eq_some_iff.mp fromOld
          obtain ⟨-, stops, knownStop⟩ := movedFiled.edge stored
          exact ⟨rfl, stops, known knownStop⟩
        · obtain ⟨starts, stops, -, knownStop⟩ := dropped.edge kept
          exact ⟨starts, stops, knownStop⟩

end Filed

/-! ### The automaton that is described -/

theorem hasNode_automaton (s : Store) (name : String) :
    s.automaton.hasNode name = s.hasNode name := by
  rw [Automaton.hasNode, automaton, Table.contains, Table.get?_map, Option.isSome_map]
  rfl

theorem row_automaton (s : Store) (start : String) :
    s.automaton.row start = (s.row start).map fun _ edge => edge.toEdgeData := by
  rw [Automaton.row, automaton, Table.get?_map, row]
  cases s.rows.get? start <;> rfl

theorem edgeData?_automaton (s : Store) (start stop : String) :
    s.automaton.edgeData? start stop = (s.edge? start stop).map Edge.toEdgeData := by
  rw [Automaton.edgeData?, row_automaton, Table.get?_map]
  rfl

theorem edgeCount_automaton (s : Store) : s.automaton.edgeCount = s.edgeCount := by
  simp [Automaton.edgeCount, automaton, edgeCount, Table.values, Table.map, List.foldl_map,
    Table.size]

theorem Filed.wellFormed (filed : s.Filed) : s.automaton.WellFormed where
  ends edge := by
    rw [Automaton.hasEdge, edgeData?_automaton, Option.isSome_map] at edge
    obtain ⟨edge, found⟩ := Option.isSome_iff_exists.mp edge
    rw [hasNode_automaton, hasNode_automaton]
    exact (filed.edge found).2.2
  filled found := by
    rw [automaton, Table.get?_map] at found
    obtain ⟨row, present, rfl⟩ := Option.map_eq_some_iff.mp found
    simpa [Table.isEmpty, Table.map] using (filed.row present).filled

/-- An edge that holds its own ends is rebuilt from them. -/
theorem RowFiled.rowEdges {start : String} {row : Table Edge} (filed : s.RowFiled start row) :
    Automaton.rowEdges start (row.map fun _ edge => edge.toEdgeData) = row.values := by
  simp only [Automaton.rowEdges, Table.map, Table.values, List.map_map]
  apply List.map_congr_left
  rintro ⟨stop, edge⟩ member
  obtain ⟨rfl, rfl, -⟩ := filed.edge ((Table.get?_eq_some_iff row stop edge).mpr member)
  rfl

namespace Filed

theorem edges_automaton (filed : s.Filed) : s.automaton.edges = s.edges := by
  simp only [Automaton.edges, automaton, Store.edges, Table.values, Table.map, List.flatMap_map]
  apply List.flatMap_congr
  rintro ⟨start, row⟩ member
  exact (filed.row ((Table.get?_eq_some_iff s.rows start row).mpr member)).rowEdges

theorem outgoing_automaton (filed : s.Filed) (start : String) :
    s.automaton.outgoing start = s.outgoing start := by
  rw [Automaton.outgoing, row_automaton, Store.outgoing, Store.row]
  cases present : s.rows.get? start with
  | none => rfl
  | some row => exact (filed.row present).rowEdges

theorem incoming_automaton (filed : s.Filed) (stop : String) :
    s.automaton.incoming stop = s.incoming stop := by
  simp only [Automaton.incoming, automaton, Store.incoming, Table.values, Table.map,
    List.filterMap_map]
  apply List.filterMap_congr
  rintro ⟨start, row⟩ member
  have rowFiled := filed.row ((Table.get?_eq_some_iff s.rows start row).mpr member)
  change Option.map _ ((row.map fun _ edge => edge.toEdgeData).get? stop) = row.get? stop
  rw [Table.get?_map, Option.map_map]
  cases found : row.get? stop with
  | none => rfl
  | some edge =>
      obtain ⟨rfl, rfl, -⟩ := rowFiled.edge found
      rfl

end Filed

end Store

end OneCounter
