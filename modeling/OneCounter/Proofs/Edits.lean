import OneCounter.Proofs.Filing

/-!
Edits of a store and of the automaton that it describes. Main statement: as long as the records are
filed under the names that they hold, an edit of the store comes to what the same edit of the
automaton comes to. Either it is done, and the records are filed so again, or it is refused, and
nothing has changed. So all that is built is filed, in whatever order and with whatever names.
-/

namespace OneCounter

namespace Table

variable {α β : Type}

theorem map_insert (f : String → α → β) (table : Table α) (name : String) (value : α) :
    (table.insert name value).map f = (table.map f).insert name (f name value) := by
  apply eq_of_get?_eq
  intro other
  rw [get?_map, get?_insert, get?_insert, get?_map]
  by_cases same : other = name
  · simp [same]
  · simp [same]

theorem map_erase (f : String → α → β) (table : Table α) (name : String) :
    (table.erase name).map f = (table.map f).erase name := by
  apply eq_of_get?_eq
  intro other
  rw [get?_map, get?_erase, get?_erase, get?_map]
  split <;> rfl

theorem isEmpty_map (f : String → α → β) (table : Table α) :
    (table.map f).isEmpty = table.isEmpty := by
  simp [map, isEmpty]

theorem insert_of_get? {table : Table α} {name : String} {value : α}
    (found : table.get? name = some value) : table.insert name value = table := by
  apply eq_of_get?_eq
  intro other
  rw [get?_insert]
  split
  · next same => rw [same, found]
  · rfl

theorem erase_of_get? {table : Table α} {name : String} (missing : table.get? name = none) :
    table.erase name = table := by
  apply eq_of_get?_eq
  intro other
  rw [get?_erase]
  split
  · next same => rw [same, missing]
  · rfl

theorem modify_of_get? {table : Table α} {name : String} {value : α}
    (found : table.get? name = some value) (f : α → α) :
    table.modify name f = table.insert name (f value) := by
  rw [← modify_insert, insert_of_get? found]

end Table

/-- What can be done to an automaton while it is built. -/
inductive Edit where
  | addNode (name : String)
  | addEdge (start stop : String)
  | removeEdge (start stop : String)
  | moveStart (old new : String)
  | setNodeLabel (name label : String)
  | setCondition (name : String) (condition? : Option Instr)
  | hide (name : String)
  | setEdgeLabel (start stop label : String)
  | setOperation (start stop : String) (operation? : Option Instr)
  | setLower (bound : Bound)
  | setUpper (bound : Bound)
  | setStart (value : Count)
  | resolveInitial
  | discoverLoops
deriving DecidableEq

namespace Store.Editing

variable {α β : Type}

/-- What the work answers, and the store that it leaves behind. -/
def perform (work : Editing α) (s : Store) : Except AutomatonError α × Store :=
  Id.run (work.run.run s)

@[simp]
theorem perform_pure (value : α) (s : Store) : perform (pure value) s = (.ok value, s) := rfl

@[simp]
theorem perform_throw (error : AutomatonError) (s : Store) :
    perform (throw error : Editing α) s = (.error error, s) := rfl

@[simp]
theorem perform_get (s : Store) : perform get s = (.ok s, s) := rfl

@[simp]
theorem perform_modify (change : Store → Store) (s : Store) :
    perform (modify change) s = (.ok (), change s) := rfl

@[simp]
theorem perform_lift (result : Except AutomatonError α) (s : Store) :
    perform (liftM result) s = (result, s) := by
  cases result <;> rfl

theorem perform_bind (work : Editing α) (next : α → Editing β) (s : Store) :
    perform (work >>= next) s =
      match work.perform s with
      | (.ok value, t) => (next value).perform t
      | (.error error, t) => (.error error, t) := by
  simp only [perform, ExceptT.run_bind, StateT.run_bind, Id.run_bind]
  obtain ⟨answer, t⟩ := Id.run (work.run.run s)
  cases answer <;> rfl

end Store.Editing

namespace Edit

/-- The work on the records. -/
def run : Edit → Store.Editing Unit
  | addNode name => modify fun s => s.addNode name
  | addEdge start stop => modify fun s => s.addEdge start stop
  | removeEdge start stop => modify fun s => (s.removeEdge start stop).2
  | moveStart old new => modify fun s => s.moveStart old new
  | setNodeLabel name label => Store.setNodeLabel name label
  | setCondition name condition? => Store.setCondition name condition?
  | hide name => Store.hide name
  | setEdgeLabel start stop label => Store.setEdgeLabel start stop label
  | setOperation start stop operation? => Store.setOperation start stop operation?
  | setLower bound => modify fun s => { s with lower := bound }
  | setUpper bound => modify fun s => { s with upper := bound }
  | setStart value => modify fun s => { s with start := value }
  | resolveInitial => Store.resolveInitial
  | discoverLoops => Store.discoverLoops

/-- What an edit makes of an automaton, without records. -/
def apply : Edit → Automaton → Except AutomatonError Automaton
  | addNode name, a => .ok (a.addNode name)
  | addEdge start stop, a => .ok (a.addEdge start stop)
  | removeEdge start stop, a => .ok (a.removeEdge start stop)
  | moveStart old new, a => .ok (a.moveStart old new)
  | setNodeLabel name label, a => a.setNodeLabel name label
  | setCondition name condition?, a => a.setCondition name condition?
  | hide name, a => a.hide name
  | setEdgeLabel start stop label, a => a.setEdgeLabel start stop label
  | setOperation start stop operation?, a => a.setOperation start stop operation?
  | setLower bound, a => .ok { a with lower := bound }
  | setUpper bound, a => .ok { a with upper := bound }
  | setStart value, a => .ok { a with start := value }
  | resolveInitial, a => a.resolveInitial
  | discoverLoops, a => a.discoverLoops

end Edit

/-- One edit after the other. Those that are refused are passed over. -/
def Automaton.build (a : Automaton) (edits : List Edit) : Automaton :=
  edits.foldl (fun a edit => (edit.apply a).toOption.getD a) a

namespace Store

variable {s t : Store}

/-- One edit after the other, whatever they answer. -/
def build (s : Store) (edits : List Edit) : Store :=
  edits.foldl (fun s edit => (edit.run.perform s).2) s

/-! ### Edits that are never refused -/

theorem automaton_addNode (s : Store) (name : String) :
    (s.addNode name).automaton = s.automaton.addNode name := by
  rw [addNode, Automaton.addNode, hasNode_automaton]
  split
  · rfl
  · simp only [automaton, Table.map_insert]
    rfl

theorem automaton_putRow (s : Store) (start : String) {row : Table Edge}
    (filled : row.isEmpty = false) :
    ({ s with rows := s.rows.insert start row } : Store).automaton =
      s.automaton.setRow start (row.map fun _ edge => edge.toEdgeData) := by
  rw [Automaton.setRow, Table.isEmpty_map, filled]
  simp only [automaton, Table.map_insert, Bool.false_eq_true, ↓reduceIte]

theorem automaton_dropRow (s : Store) (start : String) :
    ({ s with rows := s.rows.erase start } : Store).automaton =
      s.automaton.setRow start .empty := by
  simp only [automaton, Table.map_erase]
  rfl

theorem get?_rows_of_edge? {start stop : String} {edge : Edge}
    (found : s.edge? start stop = some edge) : s.rows.get? start = some (s.row start) := by
  unfold edge? row at *
  cases present : s.rows.get? start with
  | none =>
      rw [present] at found
      cases found
  | some row => rfl

theorem automaton_addEdge (s : Store) (start stop : String) :
    (s.addEdge start stop).automaton = s.automaton.addEdge start stop := by
  simp only [addEdge, Automaton.addEdge, ← automaton_addNode]
  generalize (s.addNode start).addNode stop = t
  have lookup : (t.row start).contains stop = (t.edge? start stop).isSome := rfl
  rw [Automaton.hasEdge, edgeData?_automaton, Option.isSome_map, lookup]
  cases found : t.edge? start stop with
  | some edge =>
      -- The row is written as it was.
      simp only [Option.isSome_some, ↓reduceIte]
      rw [Table.insert_of_get? (get?_rows_of_edge? found)]
  | none =>
      have written : ((t.row start).insert stop (.between start stop)).get? stop =
          some (.between start stop) := by
        rw [Table.get?_insert, if_pos rfl]
      simp only [Option.isSome_none, Bool.false_eq_true, ↓reduceIte]
      rw [automaton_putRow t start (Table.isEmpty_eq_false_of_get? written), Table.map_insert,
        row_automaton]
      rfl

theorem automaton_removeEdge (s : Store) (start stop : String) :
    (s.removeEdge start stop).2.automaton = s.automaton.removeEdge start stop := by
  rw [removeEdge, Automaton.removeEdge, row_automaton, ← Table.map_erase, row]
  cases present : s.rows.get? start with
  | none =>
      refine Eq.trans ?_ (automaton_dropRow s start)
      rw [Table.erase_of_get? present]
  | some row =>
      rw [Option.getD_some]
      by_cases empty : (row.erase stop).isEmpty
      · simp only [if_pos empty]
        rw [(Table.isEmpty_iff _).mp empty]
        exact automaton_dropRow s start
      · simp only [if_neg empty]
        exact automaton_putRow s start (Bool.eq_false_iff.mpr empty)

theorem Filed.automaton_moveStart (filed : s.Filed) (old new : String) :
    (s.moveStart old new).automaton = s.automaton.moveStart old new := by
  have after := filed.moveStart old new
  rw [Automaton.moveStart, row_automaton, Table.isEmpty_map, Store.row]
  unfold Store.moveStart at *
  cases present : s.rows.get? old with
  | none => rfl
  | some moved =>
      simp only [present] at after
      simp only [Option.getD_some, (filed.row present).filled, Bool.false_eq_true, ↓reduceIte]
      rw [← automaton_dropRow, ← automaton_addNode, row_automaton]
      generalize Store.addNode { s with rows := s.rows.erase old } new = t at *
      -- What is written holds an edge, so the row is not dropped from the automaton either.
      have written := (after.row (by rw [Table.get?_insert, if_pos rfl])).filled
      rw [automaton_putRow t new written]
      congr 1
      -- The new start of an edge is no part of its data.
      apply Table.eq_of_get?_eq
      intro stop
      rw [Table.get?_map, Table.get?_foldl_insert_map moved fun edge => edge.withStart new,
        Table.get?_foldl_insert (moved.map fun _ edge => edge.toEdgeData).sorted]
      change _ = Option.or (Table.get? (moved.map fun _ edge => edge.toEdgeData) stop) _
      rw [Table.get?_map, Table.get?_map]
      cases moved.get? stop <;> rfl

/-! ### Edits that can be refused -/

/-- What an edit of a store comes to, next to what it makes of the automaton alone. It is done, and
then all records are filed and the edited automaton is described; or it is refused for the same
reason, and then the store is as it was. -/
inductive Outcome (s : Store) :
    Except AutomatonError Automaton → Except AutomatonError Unit × Store → Prop where
  | done {t : Store} (filed : t.Filed) : Outcome s (.ok t.automaton) (.ok (), t)
  | refused (error : AutomatonError) : Outcome s (.error error) (.error error, s)

theorem Outcome.of_eq {a : Automaton} (filed : t.Filed) (same : t.automaton = a) :
    s.Outcome (.ok a) (.ok (), t) :=
  same ▸ .done filed

section

variable {described : Except AutomatonError Automaton}
  {performed : Except AutomatonError Unit × Store}

theorem Outcome.filed (outcome : s.Outcome described performed) (before : s.Filed) :
    performed.2.Filed := by
  cases outcome with
  | done after => exact after
  | refused error => exact before

theorem Outcome.automaton_eq (outcome : s.Outcome described performed) :
    performed.2.automaton = described.toOption.getD s.automaton := by
  cases outcome with
  | done after => rfl
  | refused error => rfl

theorem Outcome.of_refused (outcome : s.Outcome described performed) {error : AutomatonError}
    (refused : performed.1 = .error error) : performed.2 = s ∧ described = .error error := by
  cases outcome with
  | done after => cases refused
  | refused reason => exact ⟨rfl, congrArg _ (Except.error.inj refused)⟩

end

theorem perform_updateNode (s : Store) (name : String) (change : Node → Node) :
    (updateNode name change).perform s =
      match s.nodes.get? name with
      | some node => (.ok (), { s with nodes := s.nodes.insert name (change node) })
      | none => (.error (.unknownNode name), s) := by
  simp only [updateNode, findNode, Editing.perform_bind, Editing.perform_get]
  cases s.nodes.get? name <;> simp

theorem perform_updateEdge (s : Store) (start stop : String) (change : Edge → Edge) :
    (updateEdge start stop change).perform s =
      match s.edge? start stop with
      | some edge =>
          (.ok (), { s with rows := s.rows.insert start ((s.row start).insert stop (change edge)) })
      | none => (.error (.unknownEdge start stop), s) := by
  simp only [updateEdge, findEdge, Editing.perform_bind, Editing.perform_get]
  cases s.edge? start stop <;> simp

theorem perform_firstOf {α : Type} (list : List α) (s : Store) :
    (firstOf list).perform s =
      match list.head? with
      | some first => (.ok first, s)
      | none => (.error .noInitialNode, s) := by
  cases list <;> simp [firstOf]

theorem perform_resolveInitial (s : Store) : resolveInitial.perform s =
    match s.hiddenNodes.head?.bind fun entry => (s.outgoing entry.name).head? with
    | some edge => (.ok (), { s with initial? := some edge.stop })
    | none => (.error .noInitialNode, s) := by
  simp only [resolveInitial, Editing.perform_bind, Editing.perform_get, perform_firstOf]
  cases s.hiddenNodes.head? with
  | none => rfl
  | some entry => cases first : (s.outgoing entry.name).head? <;> simp [first]

theorem perform_discoverLoops_of_none (missing : s.initial? = none) :
    discoverLoops.perform s = (.error .noInitialNode, s) := by
  simp [discoverLoops, Editing.perform_bind, missing]

theorem perform_discoverLoops {initial : String} (resolved : s.initial? = some initial) :
    discoverLoops.perform s =
      match s.loopsFrom initial with
      | .ok loops => (.ok (), { s with loops? := some loops })
      | .error error => (.error error, s) := by
  simp only [discoverLoops, Editing.perform_bind, Editing.perform_get, resolved,
    Editing.perform_lift]
  cases s.loopsFrom initial <;> simp [resolved]

theorem Filed.hiddenNodes_automaton (filed : s.Filed) :
    s.automaton.hiddenNodes = s.hiddenNodes.map Node.name := by
  simp only [Automaton.hiddenNodes, automaton, Store.hiddenNodes, Table.filter, Table.map,
    Table.keys, Table.values, List.filter_map, List.map_map]
  apply List.map_congr_left
  rintro ⟨name, node⟩ member
  have listed := List.mem_of_mem_filter member
  exact (filed.node ((Table.get?_eq_some_iff s.nodes name node).mpr listed)).symm

theorem Filed.entryTarget?_automaton (filed : s.Filed) : s.automaton.entryTarget? =
    (s.hiddenNodes.head?.bind fun entry => (s.outgoing entry.name).head?).map Edge.stop := by
  rw [Automaton.entryTarget?, filed.hiddenNodes_automaton, List.head?_map]
  cases s.hiddenNodes.head? with
  | none => rfl
  | some entry =>
      simp only [Option.map_some, Option.bind_some, filed.outgoing_automaton]
      change ((s.outgoing entry.name).head?.bind fun edge => some edge.stop) = _
      cases (s.outgoing entry.name).head? <;> rfl

theorem Filed.cyclesFrom_automaton (filed : s.Filed) (initial : String) :
    s.automaton.cyclesFrom initial = s.cyclesFrom initial := by
  simp only [Automaton.cyclesFrom, Automaton.findings, Automaton.explore, cyclesFrom,
    filed.outgoing_automaton, filed.edges_automaton]

/-- The first cycle that is out of range stops the reading of cycles. -/
theorem mapM_checked (a : Automaton) (cycles : List (List String)) :
    cycles.mapM (Loop.checked a) =
      if cycles.any (Loop.overflows a) then .error .deltaOverflow
      else .ok (cycles.map (Loop.ofNodes a)) := by
  induction cycles with
  | nil => rfl
  | cons nodes rest ih =>
      rw [List.mapM_cons, ih, Loop.checked]
      by_cases past : Loop.overflows a nodes
      · simp [past]
        rfl
      · by_cases later : rest.any (Loop.overflows a)
        · simp [past, later]
          rfl
        · simp [past, later]
          rfl

namespace Filed

/-- A change that leaves the name alone leaves the record where it belongs. -/
theorem updateNode (filed : s.Filed) (name : String) {change : Node → Node}
    {f : NodeData → NodeData} (named : ∀ node, (change node).name = node.name)
    (data : ∀ node, (change node).toNodeData = f node.toNodeData) :
    s.Outcome (s.automaton.updateNode name f) ((Store.updateNode name change).perform s) := by
  rw [perform_updateNode, Automaton.updateNode, hasNode_automaton, hasNode, Table.contains]
  cases found : s.nodes.get? name with
  | none => exact .refused _
  | some node =>
      refine .of_eq (filed.putNode ((named node).trans (filed.node found))) ?_
      have stored : s.automaton.nodes.get? name = some node.toNodeData := by
        rw [automaton, Table.get?_map, found]
        rfl
      rw [Automaton.mapNode, Table.modify_of_get? stored, ← data]
      simp only [automaton, Table.map_insert]

theorem updateEdge (filed : s.Filed) (start stop : String) {change : Edge → Edge}
    {f : EdgeData → EdgeData}
    (ends : ∀ edge, (change edge).start = edge.start ∧ (change edge).stop = edge.stop)
    (data : ∀ edge, (change edge).toEdgeData = f edge.toEdgeData) :
    s.Outcome (s.automaton.updateEdge start stop f)
      ((Store.updateEdge start stop change).perform s) := by
  rw [perform_updateEdge, Automaton.updateEdge, Automaton.hasEdge, edgeData?_automaton,
    Option.isSome_map]
  cases found : s.edge? start stop with
  | none => exact .refused _
  | some edge =>
      obtain ⟨starts, stops, known⟩ := filed.edge found
      refine .of_eq (filed.putEdge ⟨(ends edge).1.trans starts, (ends edge).2.trans stops⟩ known) ?_
      have storedRow : s.automaton.rows.get? start =
          some ((s.row start).map fun _ edge => edge.toEdgeData) := by
        rw [automaton, Table.get?_map, get?_rows_of_edge? found]
        rfl
      have stored : ((s.row start).map fun _ edge => edge.toEdgeData).get? stop =
          some edge.toEdgeData := by
        rw [Table.get?_map]
        exact congrArg _ found
      rw [Automaton.mapEdge, Table.modify_of_get? storedRow, Table.modify_of_get? stored, ← data]
      simp only [automaton, Table.map_insert]

/-- The initial node is where an edge leads to, so it is a node of the store. -/
theorem resolveInitial (filed : s.Filed) :
    s.Outcome s.automaton.resolveInitial (Store.resolveInitial.perform s) := by
  have target := filed.entryTarget?_automaton
  rw [perform_resolveInitial, Automaton.resolveInitial]
  cases first : s.hiddenNodes.head?.bind fun entry => (s.outgoing entry.name).head? with
  | none =>
      rw [target, first]
      exact .refused _
  | some edge =>
      rw [first] at target
      obtain ⟨start, leads⟩ := Automaton.hasEdge_of_entryTarget? target
      have known := (filed.wellFormed.ends leads).2
      rw [hasNode_automaton] at known
      rw [target]
      refine .of_eq (filed.congr rfl rfl ?_) rfl
      intro name resolved
      exact Option.some.inj resolved ▸ known

theorem discoverLoops (filed : s.Filed) :
    s.Outcome s.automaton.discoverLoops (Store.discoverLoops.perform s) := by
  obtain missing | ⟨initial, resolved⟩ := Option.eq_none_or_eq_some s.initial?
  · have unresolved : s.automaton.initial? = none := missing
    rw [perform_discoverLoops_of_none missing, Automaton.discoverLoops, unresolved]
    exact .refused _
  · have root : s.automaton.initial? = some initial := resolved
    rw [perform_discoverLoops resolved, Automaton.discoverLoops, root]
    simp only [loopsFrom, Automaton.loopsFrom, mapM_checked, filed.cyclesFrom_automaton]
    split
    · exact .refused _
    · exact .of_eq (filed.congr rfl rfl filed.initial) (by rw [← root]; rfl)

/-- What one edit can do. -/
theorem outcome (filed : s.Filed) (edit : Edit) :
    s.Outcome (edit.apply s.automaton) (edit.run.perform s) := by
  cases edit with
  | addNode name => exact .of_eq (filed.addNode name) (automaton_addNode s name)
  | addEdge start stop => exact .of_eq (filed.addEdge start stop) (automaton_addEdge s start stop)
  | removeEdge start stop =>
      exact .of_eq (filed.removeEdge start stop) (automaton_removeEdge s start stop)
  | moveStart old new => exact .of_eq (filed.moveStart old new) (filed.automaton_moveStart old new)
  | setNodeLabel name label => exact filed.updateNode name (fun _ => rfl) fun _ => rfl
  | setCondition name condition? => exact filed.updateNode name (fun _ => rfl) fun _ => rfl
  | hide name => exact filed.updateNode name (fun _ => rfl) fun _ => rfl
  | setEdgeLabel start stop label =>
      exact filed.updateEdge start stop (fun _ => ⟨rfl, rfl⟩) fun _ => rfl
  | setOperation start stop operation? =>
      exact filed.updateEdge start stop (fun _ => ⟨rfl, rfl⟩) fun _ => rfl
  | setLower bound => exact .of_eq (filed.congr rfl rfl filed.initial) rfl
  | setUpper bound => exact .of_eq (filed.congr rfl rfl filed.initial) rfl
  | setStart value => exact .of_eq (filed.congr rfl rfl filed.initial) rfl
  | resolveInitial => exact filed.resolveInitial
  | discoverLoops => exact filed.discoverLoops

theorem build (filed : s.Filed) (edits : List Edit) : (s.build edits).Filed := by
  induction edits generalizing s with
  | nil => exact filed
  | cons edit rest ih => exact ih ((filed.outcome edit).filed filed)

/-- Whether records are edited or the automaton alone, the same automaton comes out. -/
theorem automaton_build (filed : s.Filed) (edits : List Edit) :
    (s.build edits).automaton = s.automaton.build edits := by
  induction edits generalizing s with
  | nil => rfl
  | cons edit rest ih =>
      have outcome := filed.outcome edit
      refine (ih (outcome.filed filed)).trans ?_
      rw [outcome.automaton_eq]
      rfl

end Filed

end Store

end OneCounter
