import OneCounter.Proofs.CycleSearch
import OneCounter.Proofs.Dot.Reading
import OneCounter.Proofs.Dot.Rendering

/-!
Writing and reading back. Main statement: an automaton that has been read from a file is written
as a file that is read as the same automaton, up to the labels of edges with an operation, which
are not written.
-/

namespace OneCounter

/-- An operation is written in place of the label. -/
def EdgeData.written (data : EdgeData) : EdgeData :=
  { data with label? := if data.operation?.isSome then none else data.label? }

namespace Automaton

variable (a : Automaton)

/-- What is left of an automaton in a file. -/
def written : Automaton :=
  { a with rows := a.rows.map fun _ row => row.map fun _ data => data.written }

/-! ### The written automaton -/

theorem row_written (start : String) :
    a.written.row start = (a.row start).map fun _ data => data.written := by
  rw [row, written, Table.get?_map, row]
  cases a.rows.get? start <;> rfl

theorem edgeData?_written (start stop : String) :
    a.written.edgeData? start stop = (a.edgeData? start stop).map EdgeData.written := by
  rw [edgeData?, row_written, Table.get?_map]
  rfl

theorem graph_written : a.written.graph = a.graph := by
  apply Table.ext
  simp [graph, written, Table.map, Table.keys, Function.comp_def]

theorem wellFormed_written (wf : a.WellFormed) : a.written.WellFormed := by
  constructor
  · intro start stop edge
    rw [hasEdge, edgeData?_written, Option.isSome_map] at edge
    exact wf.ends edge
  · intro start row found
    rw [written, Table.get?_map] at found
    obtain ⟨before, present, rfl⟩ := Option.map_eq_some_iff.mp found
    simpa [Table.isEmpty, Table.map] using wf.filled present

theorem entryTarget?_written : a.written.entryTarget? = a.entryTarget? := by
  rw [entryTarget?_eq, entryTarget?_eq]
  simp only [row_written, Table.keys_map]
  rfl

theorem resolveInitial_written :
    a.written.resolveInitial = a.resolveInitial.map written := by
  rw [resolveInitial, resolveInitial, entryTarget?_written]
  cases a.entryTarget? <;> rfl

theorem steps_written (nodes : List String) :
    Loop.steps a.written nodes = (Loop.steps a nodes).map EdgeData.written := by
  simp only [Loop.steps, edgeData?_written, List.map_filterMap]

theorem ofNodes_written (nodes : List String) :
    Loop.ofNodes a.written nodes = Loop.ofNodes a nodes := by
  have sides : ∀ direction,
      Loop.sideOf a.written nodes direction = Loop.sideOf a nodes direction := by
    intro direction
    simp only [Loop.sideOf, steps_written, List.any_map]
    rfl
  rw [Loop.ofNodes, sides, sides]
  rfl

theorem overflows_written (nodes : List String) :
    Loop.overflows a.written nodes = Loop.overflows a nodes := by
  simp only [Loop.overflows, steps_written, List.any_map]
  rfl

theorem discoverLoops_written : a.written.discoverLoops = a.discoverLoops.map written := by
  -- Cycles depend on the graph only, and what is said of a loop on the operations only.
  have cycles : ∀ initial, a.written.cyclesFrom initial = a.cyclesFrom initial :=
    cyclesFrom_congr a.graph_written
  have initial : a.written.initial? = a.initial? := rfl
  have loops : Loop.ofNodes a.written = Loop.ofNodes a := funext a.ofNodes_written
  have overflows : Loop.overflows a.written = Loop.overflows a := funext a.overflows_written
  simp only [discoverLoops, loopsFrom, initial, cycles, loops, overflows]
  cases a.initial? with
  | none => rfl
  | some initial =>
      simp only
      split <;> rfl

theorem resolve_written : a.written.resolveInitial.bind discoverLoops =
    (a.resolveInitial.bind discoverLoops).map written := by
  rw [resolveInitial_written]
  cases a.resolveInitial with
  | error fault => rfl
  | ok resolved => exact discoverLoops_written resolved

end Automaton

namespace Dot

/-! ### Rereading nodes -/

/-- The draft with a node that it did not have. -/
def Draft.withNode (draft : Draft) (name : String) (data : NodeData) : Draft :=
  { draft with automaton :=
    { draft.automaton with nodes := draft.automaton.nodes.insert name data } }

namespace Draft

variable (draft : Draft) {name : String} {data : NodeData}

theorem mapNode_withNode (f : NodeData → NodeData) :
    { draft.withNode name data with
      automaton := (draft.withNode name data).automaton.mapNode name f } =
        draft.withNode name (f data) := by
  simp only [withNode, Automaton.mapNode, Table.modify_insert]

theorem applyAttribute_hide (attrs : List Attribute) :
    applyAttribute ⟨name, [], attrs⟩ (draft.withNode name data) ⟨"style", "invis"⟩ =
      draft.withNode name { data with hidden := true } := by
  have hides : hidesNode "invis" = true := by decide
  simp [applyAttribute, understands, isLabelKey, Statement.isEdge, hides, hideNode,
    mapNode_withNode]

theorem applyAttribute_shape (s : Statement) (shape : String) :
    draft.applyAttribute s ⟨"shape", shape⟩ = draft := by
  simp [applyAttribute, understands, isLabelKey]

theorem applyAttribute_guard (attrs : List Attribute) {condition : Instr}
    (guard : condition.isGuard = true) :
    applyAttribute ⟨name, [], attrs⟩ (draft.withNode name data) ⟨"xlabel", condition.text⟩ =
      draft.withNode name { data with condition? := some condition } := by
  have found := labelInstr?_text (Instr.readable_of_isGuard guard)
  simp [applyAttribute, isLabelKey, Statement.isEdge, labelNode, found, guard, mapNode_withNode]

theorem applyAttribute_label (attrs : List Attribute) {label : String} (plain : PlainLabel label) :
    applyAttribute ⟨name, [], attrs⟩ (draft.withNode name data) ⟨"label", label⟩ =
      draft.withNode name { data with label? := some label } := by
  simp [applyAttribute, isLabelKey, Statement.isEdge, labelNode, plain.2, mapNode_withNode]

theorem foldl_appearanceAttributes (a : Automaton) (attrs : List Attribute) :
    (appearanceAttributes a name data).foldl (applyAttribute ⟨name, [], attrs⟩)
      (draft.withNode name .plain) = draft.withNode name ⟨none, none, data.hidden⟩ := by
  unfold appearanceAttributes
  cases data.hidden with
  | true =>
      rw [if_pos rfl, List.foldl_cons, List.foldl_nil, applyAttribute_hide]
      rfl
  | false =>
      by_cases initial : a.isInitial name
      · simp [initial, applyAttribute_shape, NodeData.plain]
      · simp [initial, NodeData.plain]

theorem foldl_nodeAttributes (a : Automaton) (tidy : TidyNode name data) (attrs : List Attribute) :
    (nodeAttributes a name data).foldl (applyAttribute ⟨name, [], attrs⟩)
      (draft.withNode name .plain) = draft.withNode name data := by
  obtain ⟨label?, condition?, hidden⟩ := data
  have guard : (condition?.toList.map fun condition => Attribute.mk "xlabel" condition.text).foldl
      (applyAttribute ⟨name, [], attrs⟩) (draft.withNode name ⟨none, none, hidden⟩) =
        draft.withNode name ⟨none, condition?, hidden⟩ := by
    cases condition? with
    | none => rfl
    | some condition =>
        rw [Option.toList_some, List.map_singleton, List.foldl_cons, List.foldl_nil,
          applyAttribute_guard draft attrs (tidy.condition condition rfl)]
  have label : (label?.toList.map (Attribute.mk "label")).foldl
      (applyAttribute ⟨name, [], attrs⟩) (draft.withNode name ⟨none, condition?, hidden⟩) =
        draft.withNode name ⟨label?, condition?, hidden⟩ := by
    cases label? with
    | none => rfl
    | some label =>
        rw [Option.toList_some, List.map_singleton, List.foldl_cons, List.foldl_nil,
          applyAttribute_label draft attrs (tidy.label label rfl)]
  rw [nodeAttributes, List.foldl_append, List.foldl_append, foldl_appearanceAttributes, guard,
    label]

/-- A node with a default name is passed over if something is written about it. -/
def rereads (a : Automaton) (name : String) (data : NodeData) : Bool :=
  !(isDefaultsName name && !(nodeAttributes a name data).isEmpty)

theorem applyItem_node (a : Automaton) (tidy : TidyNode name data)
    (fresh : draft.automaton.nodes.get? name = none) :
    draft.applyItem (nodeItem name (nodeAttributes a name data)) =
      if rereads a name data then draft.withNode name data else draft := by
  cases passed : isDefaultsName name && !(nodeAttributes a name data).isEmpty with
  | true => simp [nodeItem, rereads, passed, applyItem]
  | false =>
      have added : draft.automaton.addNode name =
          { draft.automaton with nodes := draft.automaton.nodes.insert name .plain } := by
        simp [Automaton.addNode, Automaton.hasNode, Table.contains, fresh]
      have all := draft.foldl_nodeAttributes a tidy (nodeAttributes a name data)
      simp only [nodeItem, rereads, passed, Bool.not_false, if_true, Bool.false_eq_true, if_false,
        applyItem, applyStatement, Statement.nodes, Statement.pairs, List.zip_nil_right,
        List.foldl_nil, List.foldl_cons, added]
      exact all

theorem foldl_nodeItems (a : Automaton) {list : List (String × NodeData)}
    (sorted : list.Pairwise fun a b => a.1 < b.1) (tidy : ∀ entry ∈ list, TidyNode entry.1 entry.2)
    (fresh : ∀ entry ∈ list, draft.automaton.nodes.get? entry.1 = none) :
    (list.map fun entry => nodeItem entry.1 (nodeAttributes a entry.1 entry.2)).foldl applyItem
        draft =
      (list.filter fun entry => rereads a entry.1 entry.2).foldl
        (fun draft entry => draft.withNode entry.1 entry.2) draft := by
  induction list generalizing draft with
  | nil => rfl
  | cons head rest ih =>
      obtain ⟨before, tail⟩ := List.pairwise_cons.mp sorted
      obtain ⟨headTidy, restTidy⟩ := List.forall_mem_cons.mp tidy
      obtain ⟨headFresh, restFresh⟩ := List.forall_mem_cons.mp fresh
      rw [List.map_cons, List.foldl_cons, applyItem_node draft a headTidy headFresh,
        List.filter_cons]
      split
      · apply ih _ tail restTidy
        intro entry member
        -- The names increase, so a node is new when its line is read.
        have different : entry.1 ≠ head.1 := by
          intro same
          have after := before entry member
          rw [same] at after
          exact String.lt_irrefl _ after
        rw [withNode, Table.get?_insert, if_neg different]
        exact restFresh entry member
      · exact ih _ tail restTidy restFresh

theorem foldl_withNode (a : Automaton) (list : List (String × NodeData)) :
    list.foldl (fun draft entry => withNode draft entry.1 entry.2) ⟨a, [], []⟩ =
      ⟨{ a with nodes := list.foldl (fun table entry => table.insert entry.1 entry.2) a.nodes },
        [], []⟩ := by
  induction list generalizing a with
  | nil => rfl
  | cons head rest ih => exact ih _

/-- The automaton after the lines about the nodes. -/
def rereadNodes (title : String) (a : Automaton) : Automaton :=
  { Automaton.empty title with nodes := a.nodes.filter (rereads a) }

theorem foldl_nodeItems_empty (title : String) (a : Automaton)
    (tidy : ∀ entry ∈ a.nodes.entries, TidyNode entry.1 entry.2) :
    (nodeItems a).foldl applyItem (.empty title) = ⟨rereadNodes title a, [], []⟩ := by
  have nodes : (a.nodes.filter (rereads a)).entries.foldl
      (fun table entry => table.insert entry.1 entry.2) Table.empty =
        a.nodes.filter (rereads a) := by
    apply Table.eq_of_get?_eq
    intro other
    rw [Table.get?_foldl_insert (Table.sorted _), Table.get?_empty, Option.or_none]
    rfl
  rw [nodeItems, foldl_nodeItems _ a a.nodes.sorted tidy fun _ _ => rfl]
  exact (foldl_withNode _ _).trans (by rw [rereadNodes, ← nodes]; rfl)

/-! ### Rereading edges -/

theorem applyItem_edgeItem_eq (edge : Edge) : draft.applyItem (edgeItem edge) =
    (edgeLabel? .standard edge).toList.foldl
      (fun draft label => draft.labelEdge label (edge.start, edge.stop))
      { draft with
        automaton := ((draft.automaton.addNode edge.start).addNode edge.stop).addEdge edge.start
          edge.stop } := by
  simp only [edgeItem, edgeAttributes, applyItem, applyStatement]
  cases edgeLabel? .standard edge with
  | none => rfl
  | some label =>
      simp [applyAttribute, isLabelKey, Statement.isEdge, Statement.pairs, Statement.nodes]

/-- The line about an edge adds the edge and marks it with what is written of it. -/
theorem applyItem_edgeItem {edge : Edge} (tidy : TidyEdge edge.toEdgeData) :
    ∃ mark : EdgeData → EdgeData, mark .plain = edge.written ∧ mark edge.written = edge.written ∧
      draft.applyItem (edgeItem edge) =
        { draft with
          automaton := (((draft.automaton.addNode edge.start).addNode edge.stop).addEdge edge.start
            edge.stop).mapEdge edge.start edge.stop mark } := by
  rw [applyItem_edgeItem_eq]
  obtain ⟨⟨label?, operation?⟩, start, stop⟩ := edge
  cases operation? with
  | some operation =>
      obtain ⟨delta, readable⟩ := tidy.operation operation rfl
      refine ⟨fun data => { data with operation? := some operation }, rfl, rfl, ?_⟩
      simp [edgeLabel?, labelEdge, labelInstr?_text readable, delta]
  | none =>
      cases label? with
      | some label =>
          refine ⟨fun data => { data with label? := some label }, rfl, rfl, ?_⟩
          simp [edgeLabel?, Style.standard, labelEdge, (tidy.label label rfl).2]
      | none =>
          refine ⟨id, rfl, rfl, ?_⟩
          simp [edgeLabel?, Automaton.mapEdge_id]

end Draft

/-- The second automaton holds part of what is written of the first, and lacks plain nodes only. -/
structure PartOf (a b : Automaton) : Prop where
  node : ∀ {name data}, b.nodes.get? name = some data → a.nodes.get? name = some data
  missing : ∀ {name data}, a.nodes.get? name = some data → b.nodes.get? name = none → data = .plain
  edge : ∀ {start stop data}, b.edgeData? start stop = some data →
    a.written.edgeData? start stop = some data

namespace PartOf

variable {a b : Automaton}

theorem addNode (part : PartOf a b) {name : String} (known : a.hasNode name = true) :
    PartOf a (b.addNode name) := by
  obtain ⟨own, present⟩ := Option.isSome_iff_exists.mp known
  refine ⟨?_, ?_, ?_⟩
  · intro other data found
    rw [Automaton.get?_addNode] at found
    split at found
    · next same =>
        subst same
        cases before : b.nodes.get? other with
        | none =>
            rw [before, Option.getD_none] at found
            rw [present, part.missing present before, found]
        | some old =>
            rw [before, Option.getD_some] at found
            rw [part.node before, found]
    · exact part.node found
  · intro other data found gone
    rw [Automaton.get?_addNode] at gone
    split at gone
    · cases gone
    · exact part.missing found gone
  · intro start stop data found
    rw [Automaton.edgeData?_addNode] at found
    exact part.edge found

/-- An edge that is added and marked with what is written of it. -/
theorem addMarked (part : PartOf a b) (wf : a.WellFormed) {edge : Edge}
    (found : a.edgeData? edge.start edge.stop = some edge.toEdgeData) {mark : EdgeData → EdgeData}
    (plain : mark .plain = edge.written) (again : mark edge.written = edge.written) :
    PartOf a ((b.addEdge edge.start edge.stop).mapEdge edge.start edge.stop mark) := by
  have target : a.written.edgeData? edge.start edge.stop = some edge.written := by
    rw [Automaton.edgeData?_written, found]
    rfl
  obtain ⟨startKnown, stopKnown⟩ := wf.ends (Automaton.hasEdge_of_edgeData? found)
  have nodes := (part.addNode startKnown).addNode stopKnown
  refine ⟨?_, ?_, ?_⟩
  · intro name data present
    rw [Automaton.mapEdge, Automaton.nodes_addEdge] at present
    exact nodes.node present
  · intro name data present gone
    rw [Automaton.mapEdge, Automaton.nodes_addEdge] at gone
    exact nodes.missing present gone
  · intro start stop data present
    rw [Automaton.edgeData?_mapEdge] at present
    split at present
    · next here =>
        rw [Automaton.edgeData?_addEdge, if_pos ⟨rfl, rfl⟩, Option.map_some] at present
        rw [here.1, here.2, target, ← present]
        -- An edge that is already there has its mark, and marking it again changes nothing.
        cases before : b.edgeData? edge.start edge.stop with
        | none => rw [Option.getD_none, plain]
        | some old =>
            have same := Option.some.inj ((part.edge before).symm.trans target)
            rw [same, Option.getD_some, again]
    · next elsewhere =>
        rw [Automaton.edgeData?_addEdge, if_neg elsewhere] at present
        exact part.edge present

theorem nodes_eq (part : PartOf a b)
    (known : ∀ {name data}, a.nodes.get? name = some data → b.hasNode name = true) :
    b.nodes = a.nodes := by
  apply Table.eq_of_get?_eq
  intro name
  cases found : b.nodes.get? name with
  | some data => exact (part.node found).symm
  | none =>
      cases wanted : a.nodes.get? name with
      | none => rfl
      | some data =>
          have there := known wanted
          rw [Automaton.hasNode, Table.contains, found] at there
          cases there

theorem edgeData?_eq (part : PartOf a b)
    (present : ∀ edge ∈ a.edges, b.hasEdge edge.start edge.stop = true) (start stop : String) :
    b.edgeData? start stop = a.written.edgeData? start stop := by
  cases found : b.edgeData? start stop with
  | some data => exact (part.edge found).symm
  | none =>
      rw [Automaton.edgeData?_written]
      cases wanted : a.edgeData? start stop with
      | none => rfl
      | some data =>
          have there := present ⟨data, start, stop⟩ ((Automaton.mem_edges_iff a _).mpr wanted)
          rw [Automaton.hasEdge, found] at there
          cases there

end PartOf

/-- What the first automaton has, the second one has too. -/
def Grows (a b : Automaton) : Prop :=
  (∀ name, a.hasNode name = true → b.hasNode name = true) ∧
    ∀ start stop, a.hasEdge start stop = true → b.hasEdge start stop = true

theorem Grows.trans {a b c : Automaton} (first : Grows a b) (second : Grows b c) : Grows a c :=
  ⟨fun name known => second.1 name (first.1 name known),
    fun start stop known => second.2 start stop (first.2 start stop known)⟩

theorem grows_addNode (a : Automaton) (name : String) : Grows a (a.addNode name) := by
  constructor
  · intro other known
    rw [Automaton.hasNode_addNode, known, Bool.or_true]
  · intro start stop known
    rwa [Automaton.hasEdge, Automaton.edgeData?_addNode]

theorem grows_addEdge (a : Automaton) (start stop : String) : Grows a (a.addEdge start stop) := by
  constructor
  · intro other known
    rw [Automaton.hasNode_addEdge, known, Bool.or_true, Bool.or_true]
  · intro other next known
    rw [Automaton.hasEdge, Automaton.edgeData?_addEdge]
    split
    · rfl
    · exact known

theorem grows_mapEdge (a : Automaton) (start stop : String) (f : EdgeData → EdgeData) :
    Grows a (a.mapEdge start stop f) :=
  ⟨fun _ known => known, fun other next known => by rwa [Automaton.hasEdge_mapEdge]⟩

/-- One line about an edge. -/
theorem PartOf.applyEdge {a b : Automaton} (part : PartOf a b) (wf : a.WellFormed) {edge : Edge}
    (member : edge ∈ a.edges) (tidy : TidyEdge edge.toEdgeData) :
    ∃ c, Draft.applyItem ⟨b, [], []⟩ (edgeItem edge) = ⟨c, [], []⟩ ∧ PartOf a c ∧ Grows b c ∧
      c.hasEdge edge.start edge.stop = true := by
  have found := (Automaton.mem_edges_iff a edge).mp member
  obtain ⟨startKnown, stopKnown⟩ := wf.ends (Automaton.hasEdge_of_edgeData? found)
  obtain ⟨mark, plain, again, result⟩ := Draft.applyItem_edgeItem ⟨b, [], []⟩ tidy
  refine ⟨_, result, ((part.addNode startKnown).addNode stopKnown).addMarked wf found plain again,
    ?_, ?_⟩
  · exact (((grows_addNode _ _).trans (grows_addNode _ _)).trans (grows_addEdge _ _ _)).trans
      (grows_mapEdge _ _ _ _)
  · rw [Automaton.hasEdge_mapEdge, Automaton.hasEdge, Automaton.edgeData?_addEdge, if_pos ⟨rfl, rfl⟩]
    rfl

theorem PartOf.foldl_edges {a b : Automaton} (part : PartOf a b) (wf : a.WellFormed)
    {list : List Edge} (each : ∀ edge ∈ list, edge ∈ a.edges ∧ TidyEdge edge.toEdgeData) :
    ∃ c, (list.map edgeItem).foldl Draft.applyItem ⟨b, [], []⟩ = ⟨c, [], []⟩ ∧ PartOf a c ∧
      Grows b c ∧ ∀ edge ∈ list, c.hasEdge edge.start edge.stop = true := by
  induction list generalizing b with
  | nil => exact ⟨b, rfl, part, ⟨fun _ known => known, fun _ _ known => known⟩, by simp⟩
  | cons edge rest ih =>
      obtain ⟨⟨member, tidy⟩, others⟩ := List.forall_mem_cons.mp each
      obtain ⟨next, result, nextPart, grows, present⟩ := part.applyEdge wf member tidy
      obtain ⟨c, final, finalPart, more, all⟩ := ih nextPart others
      refine ⟨c, ?_, finalPart, grows.trans more, ?_⟩
      · rw [List.map_cons, List.foldl_cons, result, final]
      · exact List.forall_mem_cons.mpr ⟨more.2 _ _ present, all⟩

/-! ### The whole file -/

section

variable {title target : String} {base : Automaton} {loops? : Option (List Loop)}

theorem legible_completed (tidy : Tidy title base) : Legible (completed base target loops?) := by
  have named : base.name = title := by rw [tidy.frame]; rfl
  have known {name : String} (node : base.hasNode name = true) : Quotable name.toList := by
    obtain ⟨data, found⟩ := Option.isSome_iff_exists.mp node
    exact (tidy.node found).quotable
  refine ⟨named ▸ tidy.quotable, ?_, ?_⟩
  · intro entry member
    have fits := tidy.node ((Table.get?_eq_some_iff _ _ _).mpr member)
    exact ⟨fits.quotable, fun label present => (fits.label label present).1⟩
  · intro edge member
    have found := (Automaton.mem_edges_iff base edge).mp member
    obtain ⟨start, stop⟩ := tidy.wellFormed.ends (Automaton.hasEdge_of_edgeData? found)
    exact ⟨known start, known stop, fun label present => ((tidy.edge found).label label present).1⟩

/-- A node that is passed over is plain and the initial one, and so at the end of an edge. -/
theorem passed_over {name : String} {data : NodeData} (fits : TidyNode name data)
    (passed : Draft.rereads (completed base target loops?) name data = false) :
    data = .plain ∧ name = target := by
  simp only [Draft.rereads, Bool.not_eq_false', Bool.and_eq_true] at passed
  have plain := fits.defaults passed.1
  refine ⟨plain, ?_⟩
  by_contra different
  have other : (completed base target loops?).isInitial name = false := by
    simp [Automaton.isInitial, completed, Ne.symm different]
  rw [plain] at passed
  simp [nodeAttributes, appearanceAttributes, NodeData.plain, other] at passed

theorem partOf_rereadNodes (tidy : Tidy title base) :
    PartOf (completed base target loops?)
      (Draft.rereadNodes title (completed base target loops?)) := by
  refine ⟨?_, ?_, nofun⟩
  · intro name data found
    rw [Draft.rereadNodes, Table.get?_filter, Option.filter_eq_some_iff] at found
    exact found.1
  · intro name data found gone
    rw [Draft.rereadNodes, Table.get?_filter, found, Option.filter_some] at gone
    split at gone
    · cases gone
    · next passed => exact (passed_over (tidy.node found) (by simpa using passed)).1

theorem ofItems_eq (target : String) (loops? : Option (List Loop)) (tidy : Tidy title base) :
    ∃ b, Draft.ofItems title (automatonItems (completed base target loops?)) = ⟨b, [], []⟩ ∧
      PartOf (completed base target loops?) b ∧
      Grows (Draft.rereadNodes title (completed base target loops?)) b ∧
      ∀ edge ∈ base.edges, b.hasEdge edge.start edge.stop = true := by
  have wf : (completed base target loops?).WellFormed :=
    ⟨tidy.wellFormed.ends, tidy.wellFormed.filled⟩
  have each : ∀ edge ∈ base.edges,
      edge ∈ (completed base target loops?).edges ∧ TidyEdge edge.toEdgeData :=
    fun edge member => ⟨member, tidy.edge ((Automaton.mem_edges_iff base edge).mp member)⟩
  have nodes := Draft.foldl_nodeItems_empty title (completed base target loops?)
    fun _ member => tidy.node ((Table.get?_eq_some_iff _ _ _).mpr member)
  have all : Draft.ofItems title (automatonItems (completed base target loops?)) =
      (base.edges.map edgeItem).foldl Draft.applyItem
        ⟨Draft.rereadNodes title (completed base target loops?), [], []⟩ := by
    rw [← nodes, Draft.ofItems, automatonItems, List.foldl_append, List.foldl_append]
    rfl
  rw [all]
  exact (partOf_rereadNodes tidy).foldl_edges wf each

/-- A node without a line of its own is the initial one, which an edge from the entry brings
back. -/
theorem hasNode_of_rereadNodes {b : Automaton} (tidy : Tidy title base)
    (entry : base.entryTarget? = some target) (wf : b.WellFormed)
    (grows : Grows (Draft.rereadNodes title (completed base target loops?)) b)
    (present : ∀ edge ∈ base.edges, b.hasEdge edge.start edge.stop = true) {name : String}
    {data : NodeData} (known : base.nodes.get? name = some data) : b.hasNode name = true := by
  by_cases kept : Draft.rereads (completed base target loops?) name data = true
  · apply grows.1
    have here : (completed base target loops?).nodes.get? name = some data := known
    simp [Automaton.hasNode, Table.contains, Draft.rereadNodes, Table.get?_filter, here, kept]
  · obtain ⟨-, rfl⟩ := passed_over (tidy.node known) (by simpa using kept)
    obtain ⟨start, edge⟩ := Automaton.hasEdge_of_entryTarget? entry
    obtain ⟨own, found⟩ := Option.isSome_iff_exists.mp edge
    have there := present ⟨own, start, name⟩ ((Automaton.mem_edges_iff base _).mpr found)
    exact (wf.ends there).2

/-- What has been written is read as the same nodes and edges, with nothing left to split. -/
theorem ofItems_automatonItems (tidy : Tidy title base) (entry : base.entryTarget? = some target)
    (reread : TidyDraft title (.ofItems title (automatonItems (completed base target loops?)))) :
    Draft.ofItems title (automatonItems (completed base target loops?)) =
      ⟨base.written, [], []⟩ := by
  obtain ⟨b, result, part, grows, present⟩ := ofItems_eq target loops? tidy
  rw [result] at reread ⊢
  have same := reread.automaton
  have nodes : b.nodes = base.nodes :=
    part.nodes_eq fun known => hasNode_of_rereadNodes tidy entry same.wellFormed grows present known
  have rows : b.rows = base.written.rows :=
    Automaton.rows_eq_of_edgeData? same.wellFormed (base.wellFormed_written tidy.wellFormed)
      (part.edgeData?_eq present)
  have equal : b = base.written :=
    same.frame.eq_of_tables (tidy.frame.trans (rfl : base.Rebuilt base.written)) nodes rows
  rw [equal]

end

/-- Writing an automaton that was read from a file and reading it back gives the same automaton,
with the initial node, the bounds, the start and the loops, but for the labels of edges with an
operation. -/
theorem parse_render_of_parse {text : String} {a : Automaton} (parsed : parse text = .ok a) :
    parse (render .standard a) = .ok { a with
      rows := a.rows.map fun _ row => row.map fun _ data => data.written } := by
  obtain ⟨title, base, tidy, resolved⟩ := tidy_of_parse parsed
  obtain ⟨target, loops?, entry, rfl⟩ := completed_of_resolve resolved
  obtain ⟨lexemes, scanned, read⟩ := ofLexemes_render (legible_completed tidy)
  have named : (completed base target loops?).name = title := by
    rw [completed, tidy.frame]
    rfl
  obtain ⟨quotable, items⟩ := tidy_of_ofLexemes read (quotable_of_scan scanned)
  rw [named] at read quotable items
  have draft := ofItems_automatonItems tidy entry (tidyDraft_ofItems quotable items)
  have again : base.written.resolveInitial.bind Automaton.discoverLoops =
      .ok (completed base target loops?).written := by
    rw [base.resolve_written, resolved]
    rfl
  have split : (Document.draft ⟨title, automatonItems (completed base target loops?),
      none⟩).split.automaton = base.written := by
    rw [Document.draft, draft]
    rfl
  simp only [parse, scanned, read, bind, Except.bind]
  simp only [Document.automaton, split, again]
  rfl

/-- A file with quotes in the name of the graph, a default name for the initial node, a guard on
an edge, and a label beside an operation. -/
def sampleFile : String :=
  "digraph \"say \\\"hi\\\"\" \x7b entry [style=invis]; entry -> node; " ++
  "node -> b [label=up, xlabel=\"+2\"]; b [label=\"<=9\"]; b -> node [label=\">=5\"] \x7d"

theorem sampleFile_rereads : ∃ a, parse sampleFile = .ok a ∧
    a.initial? = some "node" ∧ a.hasEdge "b" "_0" = true ∧
    parse (render .standard a) = .ok { a with
      rows := a.rows.map fun _ row => row.map fun _ data => data.written } := by
  have facts : (parse sampleFile).toOption.any
      (fun a => a.initial? = some "node" && a.hasEdge "b" "_0") = true := by decide +kernel
  cases parsed : parse sampleFile with
  | error fault =>
      rw [parsed] at facts
      cases facts
  | ok a =>
      rw [parsed] at facts
      have both : a.initial? = some "node" ∧ a.hasEdge "b" "_0" = true := by
        simpa [Except.toOption] using facts
      exact ⟨a, rfl, both.1, both.2, parse_render_of_parse parsed⟩

end Dot

end OneCounter
