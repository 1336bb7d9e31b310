import Mathlib.Data.List.Nodup
import OneCounter.Proofs.Building

/-!
The edges of an automaton as lists: all of them, those that leave a node and those that enter it.
Main statements: every edge is listed once and is found under its own ends, the edges of a node
are those of the whole list that start or stop there, and the number of edges is their number in
the list.
-/

namespace OneCounter

namespace Table

variable {α : Type}

theorem nodup_keys (table : Table α) : table.keys.Nodup := by
  refine List.pairwise_map.mpr (table.sorted.imp ?_)
  intro first second before same
  exact String.lt_irrefl second.1 (same ▸ before)

/-- At most one entry has a given name. -/
theorem filter_eq_find? {list : List (String × α)} (sorted : list.Pairwise fun a b => a.1 < b.1)
    (name : String) : list.filter (fun entry => entry.1 = name) =
      ((find? name list).map fun value => (name, value)).toList := by
  induction list with
  | nil => rfl
  | cons head rest ih =>
      obtain ⟨before, tail⟩ := List.pairwise_cons.mp sorted
      rw [List.filter_cons, find?]
      by_cases same : head.1 = name
      · have missing : find? name rest = none := by
          apply find?_eq_none
          intro entry member equal
          have after := before entry member
          rw [same, equal] at after
          exact String.lt_irrefl _ after
        rw [ih tail, missing]
        simp [← same]
      · rw [ih tail]
        simp [same, Ne.symm same]

theorem filter_entries (table : Table α) (name : String) :
    table.entries.filter (fun entry => entry.1 = name) =
      ((table.get? name).map fun value => (name, value)).toList :=
  filter_eq_find? table.sorted name

end Table

namespace Automaton

variable (a : Automaton)

/-! ### One row -/

theorem stops_eq_keys (start : String) :
    (a.outgoing start).map Edge.stop = (a.row start).keys := by
  simp [outgoing, rowEdges, Table.keys]

theorem start_of_mem_rowEdges {start : String} {row : Table EdgeData} {edge : Edge}
    (member : edge ∈ rowEdges start row) : edge.start = start := by
  obtain ⟨entry, _, rfl⟩ := List.mem_map.mp member
  rfl

theorem nodup_rowEdges (start : String) (row : Table EdgeData) : (rowEdges start row).Nodup := by
  refine List.Pairwise.map _ ?_ row.sorted
  intro first second before same
  have equal : first.1 = second.1 := congrArg Edge.stop same
  exact String.lt_irrefl second.1 (equal ▸ before)

theorem filter_start_rowEdges (start : String) (row : Table EdgeData) (node : String) :
    (rowEdges start row).filter (fun edge => edge.start = node) =
      if start = node then rowEdges start row else [] := by
  by_cases here : start = node
  · rw [if_pos here, List.filter_eq_self]
    intro edge member
    simpa [start_of_mem_rowEdges member] using here
  · rw [if_neg here, List.filter_eq_nil_iff]
    intro edge member
    simpa [start_of_mem_rowEdges member] using here

theorem filter_stop_rowEdges (start : String) (row : Table EdgeData) (node : String) :
    (rowEdges start row).filter (fun edge => edge.stop = node) =
      ((row.get? node).map fun data => (⟨data, start, node⟩ : Edge)).toList := by
  have sameTest : (fun edge : Edge => decide (edge.stop = node)) ∘
      (fun entry : String × EdgeData => (⟨entry.2, start, entry.1⟩ : Edge)) =
        fun entry => decide (entry.1 = node) := rfl
  rw [rowEdges, List.filter_map, sameTest, Table.filter_entries]
  cases row.get? node <;> rfl

/-! ### All rows -/

theorem filter_start_rows (entries : List (String × Table EdgeData)) (node : String) :
    (entries.flatMap fun entry => rowEdges entry.1 entry.2).filter
        (fun edge => edge.start = node) =
      (entries.filter fun entry => entry.1 = node).flatMap fun entry =>
        rowEdges entry.1 entry.2 := by
  induction entries with
  | nil => rfl
  | cons head rest ih =>
      rw [List.flatMap_cons, List.filter_append, filter_start_rowEdges, ih, List.filter_cons]
      by_cases here : head.1 = node
      · simp [here]
      · simp [here]

theorem outgoing_eq_filter (node : String) :
    a.outgoing node = a.edges.filter fun edge => edge.start = node := by
  rw [edges, filter_start_rows, Table.filter_entries, outgoing, row]
  cases a.rows.get? node with
  | none => rfl
  | some row => simp

theorem incoming_eq_filter (node : String) :
    a.incoming node = a.edges.filter fun edge => edge.stop = node := by
  rw [edges, List.filter_flatMap, incoming, List.filterMap_eq_flatMap_toList]
  simp only [filter_stop_rowEdges]

/-- An edge is listed if it is stored under its own ends. -/
theorem mem_edges_iff (edge : Edge) :
    edge ∈ a.edges ↔ a.edgeData? edge.start edge.stop = some edge.toEdgeData := by
  obtain ⟨data, start, stop⟩ := edge
  have leaves : ⟨data, start, stop⟩ ∈ a.edges ↔ ⟨data, start, stop⟩ ∈ a.outgoing start := by
    simp [outgoing_eq_filter, List.mem_filter]
  rw [leaves, edgeData?, Table.get?_eq_some_iff, outgoing, rowEdges, List.mem_map]
  constructor
  · rintro ⟨entry, member, same⟩
    cases same
    exact member
  · intro member
    exact ⟨_, member, rfl⟩

theorem mem_incoming_iff (edge : Edge) (stop : String) :
    edge ∈ a.incoming stop ↔
      edge.stop = stop ∧ a.edgeData? edge.start stop = some edge.toEdgeData := by
  rw [incoming_eq_filter, List.mem_filter, mem_edges_iff, decide_eq_true_eq, and_comm]
  exact and_congr_right fun same => by rw [same]

/-- No two ways into a node start alike. -/
theorem incoming_distinct (stop : String) :
    (a.incoming stop).Pairwise fun first second => first.start ≠ second.start := by
  unfold incoming
  apply List.Pairwise.filterMap _ _ a.rows.sorted
  intro first second before left leftFound right rightFound same
  obtain ⟨_, _, rfl⟩ := Option.map_eq_some_iff.mp leftFound
  obtain ⟨_, _, rfl⟩ := Option.map_eq_some_iff.mp rightFound
  have equal : first.1 = second.1 := same
  exact String.lt_irrefl second.1 (equal ▸ before)

theorem nodup_edges : a.edges.Nodup := by
  rw [edges, List.nodup_flatMap]
  refine ⟨fun entry _ => nodup_rowEdges entry.1 entry.2, a.rows.sorted.imp ?_⟩
  -- The edges of two rows differ in where they start.
  intro first second before edge inFirst inSecond
  have equal : first.1 = second.1 :=
    (start_of_mem_rowEdges inFirst).symm.trans (start_of_mem_rowEdges inSecond)
  exact String.lt_irrefl second.1 (equal ▸ before)

theorem edgeCount_eq_length : a.edgeCount = a.edges.length := by
  rw [edgeCount, Table.values, List.foldl_map, edges, List.length_flatMap, List.sum_eq_foldl_nat,
    List.foldl_map]
  simp only [rowEdges, List.length_map, Table.size]

/-! ### The entry -/

theorem entryTarget?_eq : a.entryTarget? =
    a.hiddenNodes.head?.bind fun entry => (a.row entry).keys.head? := by
  rw [entryTarget?]
  cases a.hiddenNodes.head? with
  | none => rfl
  | some entry =>
      rw [Option.bind_some, ← stops_eq_keys, List.head?_map]
      cases first : (a.outgoing entry).head? <;> simp [first]

variable {a}

theorem hasEdge_of_entryTarget? {target : String} (entry : a.entryTarget? = some target) :
    ∃ start, a.hasEdge start target = true := by
  rw [entryTarget?_eq] at entry
  obtain ⟨start, -, first⟩ := Option.bind_eq_some_iff.mp entry
  exact ⟨start, (Table.mem_keys_iff _ _).mp (List.mem_of_head? first)⟩

end Automaton

end OneCounter
