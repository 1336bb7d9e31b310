import OneCounter.Proofs.Edits

/-!
What holds of every store that is built by edits. Main statement: its records are under the names
that they hold, its edges join nodes that it has, no row is empty, its initial node is one of its
nodes, and all ways to look at its edges agree. An edit that is refused leaves everything as it is,
and what it is refused for is so.
-/

namespace OneCounter

/-! ### Refused edits -/

/-- What an error says is so. -/
def AutomatonError.Applies (a : Automaton) : AutomatonError → Prop
  | noInitialNode => a.initial? = none ∨ a.entryTarget? = none
  | unknownNode name => a.hasNode name = false
  | unknownEdge start stop => a.hasEdge start stop = false
  | deltaOverflow => ∃ edge ∈ a.edges, edge.overflows = true

namespace Automaton

variable {a : Automaton} {error : AutomatonError}

theorem applies_of_updateNode {name : String} {f : NodeData → NodeData}
    (refused : a.updateNode name f = .error error) : error.Applies a := by
  unfold updateNode at refused
  split at refused
  · cases refused
  · next unknown =>
      obtain rfl := Except.error.inj refused
      exact Bool.eq_false_iff.mpr unknown

theorem applies_of_updateEdge {start stop : String} {f : EdgeData → EdgeData}
    (refused : a.updateEdge start stop f = .error error) : error.Applies a := by
  unfold updateEdge at refused
  split at refused
  · cases refused
  · next unknown =>
      obtain rfl := Except.error.inj refused
      exact Bool.eq_false_iff.mpr unknown

theorem applies_of_resolveInitial (refused : a.resolveInitial = .error error) :
    error.Applies a := by
  unfold resolveInitial at refused
  split at refused
  · cases refused
  · next missing =>
      obtain rfl := Except.error.inj refused
      exact Or.inr missing

/-- A cycle whose change overflows passes over an edge whose change does. -/
theorem exists_overflow_of_cycle {nodes : List String} (past : Loop.overflows a nodes = true) :
    ∃ edge ∈ a.edges, edge.overflows = true := by
  obtain ⟨data, step, large⟩ := List.any_eq_true.mp past
  obtain ⟨⟨start, stop⟩, _, found⟩ := List.mem_filterMap.mp step
  exact ⟨⟨data, start, stop⟩, (mem_edges_iff a _).mpr found, large⟩

theorem applies_of_discoverLoops (refused : a.discoverLoops = .error error) :
    error.Applies a := by
  unfold discoverLoops at refused
  split at refused
  · next unresolved =>
      obtain rfl := Except.error.inj refused
      exact Or.inl unresolved
  · split at refused
    · next past =>
        obtain rfl := Except.error.inj refused
        obtain ⟨nodes, _, overflows⟩ := List.any_eq_true.mp past
        exact exists_overflow_of_cycle overflows
    · cases refused

end Automaton

namespace Edit

variable {a : Automaton} {error : AutomatonError} {edit : Edit}

theorem applies_of_refused (refused : edit.apply a = .error error) : error.Applies a := by
  cases edit with
  | setNodeLabel name label => exact Automaton.applies_of_updateNode refused
  | setCondition name condition? => exact Automaton.applies_of_updateNode refused
  | hide name => exact Automaton.applies_of_updateNode refused
  | setEdgeLabel start stop label => exact Automaton.applies_of_updateEdge refused
  | setOperation start stop operation? => exact Automaton.applies_of_updateEdge refused
  | resolveInitial => exact Automaton.applies_of_resolveInitial refused
  | discoverLoops => exact Automaton.applies_of_discoverLoops refused
  -- All other edits are never refused.
  | _ => cases refused

end Edit

/-! ### All views agree -/

namespace Store

/-- Nodes and edges hold the names that they are found under, edges join nodes, and every list of
edges is part of the list of all of them. -/
structure Coherent (s : Store) : Prop where
  node : ∀ name node, s.nodes.get? name = some node → node.name = name
  edge : ∀ start stop edge, s.edge? start stop = some edge →
    edge.start = start ∧ edge.stop = stop
  -- The graph has no loose ends.
  ends : ∀ edge ∈ s.edges, s.hasNode edge.start = true ∧ s.hasNode edge.stop = true
  filled : ∀ start row, s.rows.get? start = some row → row.isEmpty = false
  initial : ∀ name, s.initial? = some name → s.hasNode name = true
  -- Every edge is listed once, and the other lists are in the same order.
  listed : ∀ edge, edge ∈ s.edges ↔ s.edge? edge.start edge.stop = some edge
  once : s.edges.Nodup
  outgoing : ∀ node, s.outgoing node = s.edges.filter fun edge => edge.start = node
  incoming : ∀ node, s.incoming node = s.edges.filter fun edge => edge.stop = node
  count : s.edgeCount = s.edges.length

variable {s : Store}

namespace Filed

theorem mem_edges_iff (filed : s.Filed) (edge : Edge) :
    edge ∈ s.edges ↔ s.edge? edge.start edge.stop = some edge := by
  rw [← filed.edges_automaton, Automaton.mem_edges_iff, edgeData?_automaton,
    Option.map_eq_some_iff]
  constructor
  · rintro ⟨other, found, data⟩
    obtain ⟨starts, stops, -⟩ := filed.edge found
    have same : other = edge := by
      cases other
      cases edge
      cases data
      cases starts
      cases stops
      rfl
    rw [found, same]
  · intro found
    exact ⟨edge, found, rfl⟩

theorem coherent (filed : s.Filed) : s.Coherent where
  node _ _ found := filed.node found
  edge _ _ _ found := by
    obtain ⟨starts, stops, -⟩ := filed.edge found
    exact ⟨starts, stops⟩
  ends edge listed := (filed.edge ((filed.mem_edges_iff edge).mp listed)).2.2
  filled _ _ found := (filed.row found).filled
  initial _ resolved := filed.initial resolved
  listed := filed.mem_edges_iff
  once := filed.edges_automaton ▸ s.automaton.nodup_edges
  outgoing node := by
    rw [← filed.outgoing_automaton, ← filed.edges_automaton, Automaton.outgoing_eq_filter]
  incoming node := by
    rw [← filed.incoming_automaton, ← filed.edges_automaton, Automaton.incoming_eq_filter]
  count := by
    rw [← edgeCount_automaton, ← filed.edges_automaton, Automaton.edgeCount_eq_length]

end Filed

theorem build_coherent {name : String} {lower upper : Bound} {edits : List Edit} {s : Store}
    (built : (withBounds name lower upper).build edits = s) :
    s.Coherent ∧
      ∀ (edit : Edit) (error : AutomatonError), (edit.run.perform s).1 = .error error →
        (edit.run.perform s).2 = s ∧ error.Applies s.automaton := by
  have filed : s.Filed := built ▸ (filed_withBounds name lower upper).build edits
  refine ⟨filed.coherent, ?_⟩
  intro edit error refused
  obtain ⟨unchanged, described⟩ := (filed.outcome edit).of_refused refused
  exact ⟨unchanged, Edit.applies_of_refused described⟩

/-- Edges change their start: to a node that has an edge to the same end, to the node where they
start already, and from a node that is not there. -/
def relayEdits : List Edit :=
  [.addEdge "in" "a", .addEdge "a" "b", .addEdge "b" "a", .addEdge "c" "b", .hide "in",
    .setOperation "a" "b" (some ⟨.add, .clamp 2⟩), .resolveInitial, .moveStart "a" "c",
    .moveStart "c" "c", .moveStart "x" "y", .removeEdge "b" "a", .setCondition "y" none]

def relay : Store := (withBounds "relay" .negInf .posInf).build relayEdits

theorem relay_coherent :
    relay.initial? = some "a" ∧ relay.hasNode "a" = true ∧
      relay.outgoing "c" = relay.edges.filter (fun edge => edge.start = "c") ∧
      relay.outgoing "c" = [⟨⟨none, some ⟨.add, .clamp 2⟩⟩, "c", "b"⟩] ∧
      ((Edit.hide "y").run.perform relay).1 = .error (.unknownNode "y") ∧
      ((Edit.hide "y").run.perform relay).2 = relay := by
  have resolved : relay.initial? = some "a" := by decide +kernel
  have refused : ((Edit.hide "y").run.perform relay).1 = .error (.unknownNode "y") := by
    decide +kernel
  obtain ⟨coherent, unchanged⟩ := build_coherent (rfl : _ = relay)
  exact ⟨resolved, coherent.initial "a" resolved, coherent.outgoing "c", by decide +kernel,
    refused, (unchanged _ _ refused).1⟩

end Store

end OneCounter
