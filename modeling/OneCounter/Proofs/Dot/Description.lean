import Mathlib.Data.List.Induction
import OneCounter.Proofs.Dot.Reading

/-!
What a document describes, said of its statements alone: the nodes they name, the edges of their
chains, and what labels give to both. Where labels compete the last one counts, but guards of an
edge and deltas of a node are all kept, in the order in which they are given. Main statement: the
draft of a document holds just what the document describes.
-/

namespace OneCounter

namespace Dot

/-! ### Labels -/

/-- The guards among some labels. -/
def guardsOf (labels : List String) : List Instr :=
  (labels.filterMap labelInstr?).filter Instr.isGuard

/-- The deltas among some labels. -/
def deltasOf (labels : List String) : List Instr :=
  (labels.filterMap labelInstr?).filter fun instr => !instr.isGuard

/-- The labels that are no instructions. -/
def textsOf (labels : List String) : List String :=
  labels.filter fun label => (labelInstr? label).isNone

section Labels

variable (labels more : List String)

theorem guardsOf_append : guardsOf (labels ++ more) = guardsOf labels ++ guardsOf more := by
  simp [guardsOf]

theorem deltasOf_append : deltasOf (labels ++ more) = deltasOf labels ++ deltasOf more := by
  simp [deltasOf]

theorem textsOf_append : textsOf (labels ++ more) = textsOf labels ++ textsOf more := by
  simp [textsOf]

/-- A label is a guard, a delta, or a text of its own. -/
theorem label_cases (label : String) :
    (∃ guard, labelInstr? label = some guard ∧ guard.isGuard = true ∧
      guardsOf [label] = [guard] ∧ deltasOf [label] = [] ∧ textsOf [label] = []) ∨
    (∃ delta, labelInstr? label = some delta ∧ delta.isGuard = false ∧
      guardsOf [label] = [] ∧ deltasOf [label] = [delta] ∧ textsOf [label] = []) ∨
    (labelInstr? label = none ∧
      guardsOf [label] = [] ∧ deltasOf [label] = [] ∧ textsOf [label] = [label]) := by
  cases read : labelInstr? label with
  | none => simp [guardsOf, deltasOf, textsOf, read]
  | some instr =>
      cases kind : instr.isGuard with
      | true => simp [guardsOf, deltasOf, textsOf, read, kind]
      | false => simp [guardsOf, deltasOf, textsOf, read, kind]

end Labels

namespace Statement

/-- The labels of a statement, under either of their keys. -/
def labels (s : Statement) : List String :=
  (s.attributes.filter fun attr => isLabelKey attr.key).map Attribute.value

/-- Whether this is a statement about the node alone. -/
def isAbout (s : Statement) (name : String) : Bool := !s.isEdge && s.first == name

def hides (s : Statement) : Bool :=
  s.attributes.any fun attr => attr.key == "style" && hidesNode attr.value

section Attributes

variable (s : Statement) (attrs : List Attribute)

@[simp]
theorem pairs_attributes : pairs { s with attributes := attrs } = s.pairs := rfl

@[simp]
theorem isEdge_attributes : isEdge { s with attributes := attrs } = s.isEdge := rfl

@[simp]
theorem isAbout_attributes (name : String) :
    isAbout { s with attributes := attrs } name = s.isAbout name := rfl

end Attributes

end Statement

/-- The statements of a document in their order. -/
abbrev Script := List Statement

namespace Script

/-- The nodes that the statements name. -/
def names (script : Script) : List String := script.flatMap Statement.nodes

/-- The edges of the chains. -/
def links (script : Script) : List (String × String) := script.flatMap Statement.pairs

/-- The labels given to a node. -/
def nodeLabels (script : Script) (name : String) : List String :=
  (script.filter fun s => s.isAbout name).flatMap Statement.labels

/-- The labels given to an edge: those of every chain that it is part of. -/
def linkLabels (script : Script) (start stop : String) : List String :=
  (script.filter fun s => s.pairs.contains (start, stop)).flatMap Statement.labels

def nodeData (script : Script) (name : String) : NodeData where
  label? := (textsOf (script.nodeLabels name)).getLast?
  condition? := (guardsOf (script.nodeLabels name)).getLast?
  hidden := script.any fun s => s.isAbout name && s.hides

def linkData (script : Script) (start stop : String) : EdgeData where
  label? := (textsOf (script.linkLabels start stop)).getLast?
  operation? := (deltasOf (script.linkLabels start stop)).getLast?

/-- The deltas given to a node. -/
def nodeDeltas (script : Script) (name : String) : List Instr := deltasOf (script.nodeLabels name)

/-- The guards given to an edge. -/
def linkGuards (script : Script) (start stop : String) : List Instr :=
  guardsOf (script.linkLabels start stop)

/-- Every guard of an edge with the edge. -/
def guardJobs (script : Script) : List (String × String × Instr) :=
  script.flatMap fun s =>
    (guardsOf s.labels).flatMap fun guard => s.pairs.map fun pair => (pair.1, pair.2, guard)

/-- Every delta of a node with the node. -/
def deltaJobs (script : Script) : List (String × Instr) :=
  script.flatMap fun s =>
    if s.isEdge then [] else (deltasOf s.labels).map fun delta => (s.first, delta)

section Append

variable (done : Script) (s : Statement) (name start stop : String)

theorem names_append : names (done ++ [s]) = done.names ++ s.nodes := by
  simp [names]

theorem links_append : links (done ++ [s]) = done.links ++ s.pairs := by
  simp [links]

theorem nodeLabels_append : nodeLabels (done ++ [s]) name =
    done.nodeLabels name ++ if s.isAbout name then s.labels else [] := by
  cases about : s.isAbout name <;> simp [nodeLabels, about]

theorem linkLabels_append : linkLabels (done ++ [s]) start stop =
    done.linkLabels start stop ++ if (start, stop) ∈ s.pairs then s.labels else [] := by
  by_cases part : (start, stop) ∈ s.pairs
  · simp [linkLabels, part]
  · simp [linkLabels, part]

theorem guardJobs_append : guardJobs (done ++ [s]) = done.guardJobs ++
    (guardsOf s.labels).flatMap fun guard => s.pairs.map fun pair => (pair.1, pair.2, guard) := by
  simp [guardJobs]

theorem deltaJobs_append : deltaJobs (done ++ [s]) = done.deltaJobs ++
    if s.isEdge then [] else (deltasOf s.labels).map fun delta => (s.first, delta) := by
  simp [deltaJobs]

end Append

theorem nodeData_of_notMem {script : Script} {name : String} (unnamed : name ∉ script.names) :
    script.nodeData name = .plain := by
  have apart : ∀ s ∈ script, s.isAbout name = false := by
    intro s member
    by_contra about
    have both : s.isEdge = false ∧ s.first = name := by simpa [Statement.isAbout] using about
    exact unnamed (List.mem_flatMap.mpr ⟨s, member, both.2 ▸ List.mem_cons_self⟩)
  have labels : script.nodeLabels name = [] := by
    rw [nodeLabels, List.filter_eq_nil_iff.mpr (by simpa using apart), List.flatMap_nil]
  have hidden : (script.any fun s => s.isAbout name && s.hides) = false := by
    rw [List.any_eq_false]
    intro s member
    simp [apart s member]
  rw [nodeData, labels, hidden]
  rfl

theorem linkData_of_notMem {script : Script} {start stop : String}
    (unlinked : (start, stop) ∉ script.links) : script.linkData start stop = .plain := by
  have apart : ∀ s ∈ script, (start, stop) ∉ s.pairs := fun s member part =>
    unlinked (List.mem_flatMap.mpr ⟨s, member, part⟩)
  have labels : script.linkLabels start stop = [] := by
    rw [linkLabels, List.filter_eq_nil_iff.mpr (by simpa using apart), List.flatMap_nil]
  rw [linkData, labels]
  rfl

end Script

end Dot

/-! ### Nodes and edges added one after the other -/

namespace Automaton

variable (a : Automaton) (pairs : List (String × String)) (start stop : String)

theorem get?_foldl_addNode (names : List String) (name : String) :
    (names.foldl addNode a).nodes.get? name =
      if name ∈ names then some ((a.nodes.get? name).getD .plain) else a.nodes.get? name := by
  induction names generalizing a with
  | nil => rfl
  | cons first rest ih =>
      rw [List.foldl_cons, ih, get?_addNode]
      by_cases here : name = first
      · simp [here]
      · simp [here]

theorem edgeData?_foldl_addNode (names : List String) :
    (names.foldl addNode a).edgeData? start stop = a.edgeData? start stop := by
  induction names generalizing a with
  | nil => rfl
  | cons first rest ih => rw [List.foldl_cons, ih, edgeData?_addNode]

theorem nodes_addNode_of_hasNode {name : String} (known : a.hasNode name = true) :
    (a.addNode name).nodes = a.nodes := by
  rw [nodes_addNode, if_pos known]

/-- Edges between nodes that are there add no nodes. -/
theorem nodes_foldl_addEdge
    (known : ∀ pair ∈ pairs, a.hasNode pair.1 = true ∧ a.hasNode pair.2 = true) :
    (pairs.foldl (fun a pair => a.addEdge pair.1 pair.2) a).nodes = a.nodes := by
  induction pairs generalizing a with
  | nil => rfl
  | cons first rest ih =>
      obtain ⟨⟨starts, stops⟩, others⟩ := List.forall_mem_cons.mp known
      have start := a.nodes_addNode_of_hasNode starts
      have same : (a.addEdge first.1 first.2).nodes = a.nodes := by
        rw [nodes_addEdge, nodes_addNode_of_hasNode, start]
        rwa [hasNode, start]
      rw [List.foldl_cons, ih, same]
      intro pair member
      rw [hasNode, hasNode, same]
      exact others pair member

theorem edgeData?_foldl_addEdge :
    (pairs.foldl (fun a pair => a.addEdge pair.1 pair.2) a).edgeData? start stop =
      if (start, stop) ∈ pairs then some ((a.edgeData? start stop).getD .plain)
      else a.edgeData? start stop := by
  induction pairs generalizing a with
  | nil => rfl
  | cons first rest ih =>
      rw [List.foldl_cons, ih, edgeData?_addEdge]
      by_cases here : start = first.1 ∧ stop = first.2
      · simp [here]
      · have other : (start, stop) ≠ first := fun same => here ⟨same ▸ rfl, same ▸ rfl⟩
        simp [here, other]

theorem nodes_foldl_mapEdge (f : EdgeData → EdgeData) :
    (pairs.foldl (fun a pair => a.mapEdge pair.1 pair.2 f) a).nodes = a.nodes := by
  induction pairs generalizing a with
  | nil => rfl
  | cons first rest ih => rw [List.foldl_cons, ih, mapEdge]

/-- An edge may be named more than once, which makes no difference if the second change does
not. -/
theorem edgeData?_foldl_mapEdge {f : EdgeData → EdgeData} (settles : ∀ data, f (f data) = f data) :
    (pairs.foldl (fun a pair => a.mapEdge pair.1 pair.2 f) a).edgeData? start stop =
      if (start, stop) ∈ pairs then (a.edgeData? start stop).map f
      else a.edgeData? start stop := by
  induction pairs generalizing a with
  | nil => rfl
  | cons first rest ih =>
      rw [List.foldl_cons, ih, edgeData?_mapEdge]
      by_cases here : start = first.1 ∧ stop = first.2
      · simp [here, Function.comp_def, settles]
      · have other : (start, stop) ≠ first := fun same => here ⟨same ▸ rfl, same ▸ rfl⟩
        simp [here, other]

end Automaton

namespace Dot

namespace Draft

variable (draft : Draft) {label : String} (pairs : List (String × String))

theorem foldl_labelEdge_guard {guard : Instr} (read : labelInstr? label = some guard)
    (kind : guard.isGuard = true) : pairs.foldl (labelEdge label) draft =
      { draft with
        guarded := draft.guarded ++ pairs.map fun pair => (pair.1, pair.2, guard) } := by
  induction pairs generalizing draft with
  | nil => simp
  | cons first rest ih =>
      rw [List.foldl_cons, ih]
      simp [labelEdge, read, kind]

theorem foldl_labelEdge_map {f : EdgeData → EdgeData} (maps : ∀ (draft : Draft) pair,
      draft.labelEdge label pair =
        { draft with automaton := draft.automaton.mapEdge pair.1 pair.2 f }) :
    pairs.foldl (labelEdge label) draft = { draft with
      automaton := pairs.foldl (fun a pair => a.mapEdge pair.1 pair.2 f) draft.automaton } := by
  induction pairs generalizing draft with
  | nil => rfl
  | cons first rest ih => rw [List.foldl_cons, ih, maps, List.foldl_cons]

/-- The draft with the nodes and edges of a statement, before its attributes. -/
def sketch (s : Statement) : Draft :=
  { draft with
    automaton := s.pairs.foldl (fun a pair => a.addEdge pair.1 pair.2)
      (s.nodes.foldl Automaton.addNode draft.automaton) }

/-- The draft holds what the statements describe. -/
structure Describes (draft : Draft) (script : Script) : Prop where
  nodes : ∀ name, draft.automaton.nodes.get? name =
    if name ∈ script.names then some (script.nodeData name) else none
  edges : ∀ start stop, draft.automaton.edgeData? start stop =
    if (start, stop) ∈ script.links then some (script.linkData start stop) else none
  guarded : draft.guarded = script.guardJobs
  moving : draft.moving = script.deltaJobs

end Draft

/-! ### One more attribute -/

namespace Attribute

/-- The label in an attribute, if it is one. -/
def labels (attr : Attribute) : List String := if isLabelKey attr.key then [attr.value] else []

def hides (attr : Attribute) : Bool := attr.key == "style" && hidesNode attr.value

end Attribute

namespace Script

variable (done : Script) (s : Statement) (attrs : List Attribute) (attr : Attribute)
  (name start stop : String)

/-- The statements with one more, of which some attributes have been read. -/
def upTo : Script := done ++ [{ s with attributes := attrs }]

theorem labels_snoc : Statement.labels { s with attributes := attrs ++ [attr] } =
    Statement.labels { s with attributes := attrs } ++ attr.labels := by
  cases key : isLabelKey attr.key <;> simp [Statement.labels, Attribute.labels, key]

theorem names_upTo : (done.upTo s attrs).names = done.names ++ s.nodes := names_append done _

theorem links_upTo : (done.upTo s attrs).links = done.links ++ s.pairs := links_append done _

theorem nodeLabels_snoc : (done.upTo s (attrs ++ [attr])).nodeLabels name =
    (done.upTo s attrs).nodeLabels name ++ if s.isAbout name then attr.labels else [] := by
  cases about : s.isAbout name <;> simp [upTo, nodeLabels_append, labels_snoc, about]

theorem linkLabels_snoc : (done.upTo s (attrs ++ [attr])).linkLabels start stop =
    (done.upTo s attrs).linkLabels start stop ++
      if (start, stop) ∈ s.pairs then attr.labels else [] := by
  by_cases part : (start, stop) ∈ s.pairs
  · simp [upTo, linkLabels_append, labels_snoc, part]
  · simp [upTo, linkLabels_append, part]

theorem nodeData_snoc_of_isAbout (about : s.isAbout name = true) :
    (done.upTo s (attrs ++ [attr])).nodeData name =
      { label? := (textsOf attr.labels).getLast?.or ((done.upTo s attrs).nodeData name).label?
        condition? :=
          (guardsOf attr.labels).getLast?.or ((done.upTo s attrs).nodeData name).condition?
        hidden := ((done.upTo s attrs).nodeData name).hidden || attr.hides } := by
  rw [nodeData, nodeLabels_snoc, if_pos about, textsOf_append, guardsOf_append,
    List.getLast?_append, List.getLast?_append]
  simp [nodeData, upTo, about, Statement.hides, Attribute.hides, Bool.or_assoc]

theorem nodeData_snoc_of_not_isAbout (other : s.isAbout name = false) :
    (done.upTo s (attrs ++ [attr])).nodeData name = (done.upTo s attrs).nodeData name := by
  rw [nodeData, nodeLabels_snoc, other]
  simp [nodeData, upTo, other]

theorem linkData_snoc : (done.upTo s (attrs ++ [attr])).linkData start stop =
    if (start, stop) ∈ s.pairs then
      { label? := (textsOf attr.labels).getLast?.or ((done.upTo s attrs).linkData start stop).label?
        operation? := (deltasOf attr.labels).getLast?.or
          ((done.upTo s attrs).linkData start stop).operation? }
    else (done.upTo s attrs).linkData start stop := by
  rw [linkData, linkLabels_snoc, textsOf_append, deltasOf_append, List.getLast?_append,
    List.getLast?_append]
  split
  · rfl
  · rfl

theorem guardJobs_snoc : (done.upTo s (attrs ++ [attr])).guardJobs =
    (done.upTo s attrs).guardJobs ++
      (guardsOf attr.labels).flatMap fun guard =>
        s.pairs.map fun pair => (pair.1, pair.2, guard) := by
  simp [upTo, guardJobs_append, labels_snoc, guardsOf_append]

theorem deltaJobs_snoc : (done.upTo s (attrs ++ [attr])).deltaJobs =
    (done.upTo s attrs).deltaJobs ++
      if s.isEdge then [] else (deltasOf attr.labels).map fun delta => (s.first, delta) := by
  cases edge : s.isEdge <;> simp [upTo, deltaJobs_append, labels_snoc, deltasOf_append, edge]

end Script

/-! ### Statement by statement -/

namespace Draft.Describes

variable {draft : Draft} {done : Script} {s : Statement} {attrs : List Attribute}
  {attr : Attribute}

theorem empty (title : String) : (Draft.empty title).Describes [] :=
  ⟨fun _ => rfl, fun _ _ => rfl, rfl, rfl⟩

theorem sketch (describes : draft.Describes done) (s : Statement) :
    (draft.sketch s).Describes (done.upTo s []) := by
  have named := Automaton.get?_foldl_addNode draft.automaton s.nodes
  refine ⟨?_, ?_, ?_, ?_⟩
  · have known : ∀ pair ∈ s.pairs,
        (s.nodes.foldl Automaton.addNode draft.automaton).hasNode pair.1 = true ∧
          (s.nodes.foldl Automaton.addNode draft.automaton).hasNode pair.2 = true := by
      intro pair member
      obtain ⟨start, stop⟩ := List.of_mem_zip member
      have stop : pair.2 ∈ s.nodes := List.mem_cons_of_mem _ stop
      simp [Automaton.hasNode, Table.contains, named, start, stop]
    intro name
    have same : (done.upTo s []).nodeData name = done.nodeData name := by
      simp [Script.nodeData, Script.upTo, Script.nodeLabels_append, Statement.labels,
        Statement.hides]
    rw [Draft.sketch, Automaton.nodes_foldl_addEdge _ _ known, named, describes.nodes,
      Script.names_upTo, same]
    by_cases old : name ∈ done.names
    · simp [old]
    · simp [old, Script.nodeData_of_notMem]
  · intro start stop
    have same : (done.upTo s []).linkData start stop = done.linkData start stop := by
      simp [Script.linkData, Script.upTo, Script.linkLabels_append, Statement.labels]
    rw [Draft.sketch, Automaton.edgeData?_foldl_addEdge, Automaton.edgeData?_foldl_addNode,
      describes.edges, Script.links_upTo, same]
    by_cases old : (start, stop) ∈ done.links
    · simp [old]
    · simp [old, Script.linkData_of_notMem]
  · rw [Draft.sketch, describes.guarded, Script.upTo, Script.guardJobs_append]
    simp [Statement.labels, guardsOf]
  · rw [Draft.sketch, describes.moving, Script.upTo, Script.deltaJobs_append]
    simp [Statement.labels, deltasOf]

/-- An attribute of an edge statement changes the edges of the chain, and no nodes. -/
theorem ofEdge {other : Draft} (describes : draft.Describes (done.upTo s attrs))
    (edge : s.isEdge = true) (nodes : other.automaton.nodes = draft.automaton.nodes)
    (edges : ∀ start stop, other.automaton.edgeData? start stop =
      if (start, stop) ∈ s.pairs then (draft.automaton.edgeData? start stop).map fun data =>
        ⟨(textsOf attr.labels).getLast?.or data.label?,
          (deltasOf attr.labels).getLast?.or data.operation?⟩
      else draft.automaton.edgeData? start stop)
    (guarded : other.guarded = draft.guarded ++ (guardsOf attr.labels).flatMap fun guard =>
      s.pairs.map fun pair => (pair.1, pair.2, guard))
    (moving : other.moving = draft.moving) :
    other.Describes (done.upTo s (attrs ++ [attr])) := by
  have apart : ∀ name, s.isAbout name = false := by simp [Statement.isAbout, edge]
  refine ⟨?_, ?_, ?_, ?_⟩
  · intro name
    rw [nodes, describes.nodes, Script.names_upTo, Script.names_upTo,
      Script.nodeData_snoc_of_not_isAbout _ _ _ _ _ (apart name)]
  · intro start stop
    rw [edges, describes.edges, Script.links_upTo, Script.links_upTo, Script.linkData_snoc]
    by_cases part : (start, stop) ∈ s.pairs
    · simp [part]
    · simp [part]
  · rw [guarded, describes.guarded, Script.guardJobs_snoc]
  · rw [moving, describes.moving, Script.deltaJobs_snoc, edge]
    simp

/-- An attribute of a node statement changes its node, and no edges. -/
theorem ofNode {other : Draft} (describes : draft.Describes (done.upTo s attrs))
    (single : s.isEdge = false) (nodes : ∀ name, other.automaton.nodes.get? name =
      if name = s.first then (draft.automaton.nodes.get? name).map fun data =>
        ⟨(textsOf attr.labels).getLast?.or data.label?,
          (guardsOf attr.labels).getLast?.or data.condition?, data.hidden || attr.hides⟩
      else draft.automaton.nodes.get? name)
    (rows : other.automaton.rows = draft.automaton.rows) (guarded : other.guarded = draft.guarded)
    (moving : other.moving = draft.moving ++ (deltasOf attr.labels).map fun delta =>
      (s.first, delta)) :
    other.Describes (done.upTo s (attrs ++ [attr])) := by
  have unlinked : s.pairs = [] := by
    have alone : s.others = [] := by simpa [Statement.isEdge] using single
    rw [Statement.pairs, alone, List.zip_nil_right]
  refine ⟨?_, ?_, ?_, ?_⟩
  · intro name
    rw [nodes, describes.nodes, Script.names_upTo, Script.names_upTo]
    by_cases here : name = s.first
    · have about : s.isAbout name = true := by simp [Statement.isAbout, single, here]
      rw [Script.nodeData_snoc_of_isAbout _ _ _ _ _ about]
      simp [here, Statement.nodes]
    · have other : s.isAbout name = false := by
        simp [Statement.isAbout, Ne.symm here]
      rw [Script.nodeData_snoc_of_not_isAbout _ _ _ _ _ other, if_neg here]
  · intro start stop
    have same : other.automaton.edgeData? start stop = draft.automaton.edgeData? start stop := by
      rw [Automaton.edgeData?, Automaton.row, rows]
      rfl
    rw [same, describes.edges, Script.links_upTo, Script.links_upTo, Script.linkData_snoc, unlinked]
    simp
  · rw [guarded, describes.guarded, Script.guardJobs_snoc, unlinked]
    simp
  · rw [moving, describes.moving, Script.deltaJobs_snoc, single]
    simp

theorem labelEdges (describes : draft.Describes (done.upTo s attrs)) (edge : s.isEdge = true)
    (key : isLabelKey attr.key = true) :
    (s.pairs.foldl (labelEdge attr.value) draft).Describes (done.upTo s (attrs ++ [attr])) := by
  have label : attr.labels = [attr.value] := by rw [Attribute.labels, if_pos key]
  rcases label_cases attr.value with ⟨guard, read, kind, guards, deltas, texts⟩ |
    ⟨delta, read, kind, guards, deltas, texts⟩ | ⟨read, guards, deltas, texts⟩
  · rw [foldl_labelEdge_guard draft s.pairs read kind]
    refine describes.ofEdge edge rfl ?_ ?_ rfl
    · intro start stop
      simp [label, texts, deltas]
    · simp [label, guards]
  · rw [foldl_labelEdge_map (f := fun data => { data with operation? := some delta }) draft s.pairs
      (by simp [labelEdge, read, kind])]
    refine describes.ofEdge edge (Automaton.nodes_foldl_mapEdge _ _ _) ?_ ?_ rfl
    · intro start stop
      refine (Automaton.edgeData?_foldl_mapEdge _ s.pairs start stop fun _ => ?_).trans ?_
      · rfl
      · simp [label, texts, deltas]
    · simp [label, guards]
  · rw [foldl_labelEdge_map (f := fun data => { data with label? := some attr.value }) draft s.pairs
      (by simp [labelEdge, read])]
    refine describes.ofEdge edge (Automaton.nodes_foldl_mapEdge _ _ _) ?_ ?_ rfl
    · intro start stop
      refine (Automaton.edgeData?_foldl_mapEdge _ s.pairs start stop fun _ => ?_).trans ?_
      · rfl
      · simp [label, texts, deltas]
    · simp [label, guards]

theorem hides_eq_false_of_isLabelKey (key : isLabelKey attr.key = true) : attr.hides = false := by
  have either : attr.key = "label" ∨ attr.key = "xlabel" := by simpa [isLabelKey] using key
  rcases either with same | same <;> simp [Attribute.hides, same]

theorem labelNode (describes : draft.Describes (done.upTo s attrs)) (single : s.isEdge = false)
    (key : isLabelKey attr.key = true) :
    (draft.labelNode attr.value s.first).Describes (done.upTo s (attrs ++ [attr])) := by
  have label : attr.labels = [attr.value] := by rw [Attribute.labels, if_pos key]
  have shows := hides_eq_false_of_isLabelKey key
  rcases label_cases attr.value with ⟨guard, read, kind, guards, deltas, texts⟩ |
    ⟨delta, read, kind, guards, deltas, texts⟩ | ⟨read, guards, deltas, texts⟩
  · simp only [Draft.labelNode, read, kind, if_true]
    refine describes.ofNode single ?_ rfl rfl ?_
    · intro name
      simp [Automaton.mapNode, Table.get?_modify, label, texts, guards, shows]
    · simp [label, deltas]
  · simp only [Draft.labelNode, read, kind, Bool.false_eq_true, if_false]
    refine describes.ofNode single ?_ rfl rfl ?_
    · intro name
      simp [label, texts, guards, shows]
    · simp [label, deltas]
  · simp only [Draft.labelNode, read]
    refine describes.ofNode single ?_ rfl rfl ?_
    · intro name
      simp [Automaton.mapNode, Table.get?_modify, label, texts, guards, shows]
    · simp [label, deltas]

/-- An attribute that is no label matters only if it hides the node of its statement. -/
theorem applyOther (describes : draft.Describes (done.upTo s attrs))
    (key : isLabelKey attr.key = false) :
    (draft.applyAttribute s attr).Describes (done.upTo s (attrs ++ [attr])) := by
  have none : attr.labels = [] := by simp [Attribute.labels, key]
  cases edge : s.isEdge with
  | true =>
      have still : draft.applyAttribute s attr = draft := by
        simp [applyAttribute, understands, key, edge]
      rw [still]
      refine describes.ofEdge edge rfl ?_ ?_ rfl
      · intro start stop
        simp [none, textsOf, deltasOf]
      · simp [none, guardsOf]
  | false =>
      cases hides : attr.hides with
      | true =>
          have hidden : draft.applyAttribute s attr = draft.hideNode s.first := by
            rw [Attribute.hides] at hides
            simp [applyAttribute, understands, key, edge, hides]
          rw [hidden]
          refine describes.ofNode edge ?_ rfl rfl ?_
          · intro name
            simp [hideNode, Automaton.mapNode, Table.get?_modify, none, textsOf, guardsOf, hides]
          · simp [hideNode, none, deltasOf]
      | false =>
          have still : draft.applyAttribute s attr = draft := by
            rw [Attribute.hides] at hides
            simp [applyAttribute, understands, key, edge, hides]
          rw [still]
          refine describes.ofNode edge ?_ rfl rfl ?_
          · intro name
            simp [none, textsOf, guardsOf, hides]
          · simp [none, deltasOf]

theorem applyAttribute (describes : draft.Describes (done.upTo s attrs)) (attr : Attribute) :
    (draft.applyAttribute s attr).Describes (done.upTo s (attrs ++ [attr])) := by
  cases key : isLabelKey attr.key with
  | false => exact describes.applyOther key
  | true =>
      rw [Draft.applyAttribute, if_pos key]
      split
      · next edge => exact describes.labelEdges edge key
      · next single => exact describes.labelNode (by simpa using single) key

theorem applyStatement (describes : draft.Describes done) (s : Statement) :
    (draft.applyStatement s).Describes (done ++ [s]) := by
  -- By induction on the attributes read so far.
  have upTo : ∀ attrs : List Attribute,
      (attrs.foldl (Draft.applyAttribute s) (draft.sketch s)).Describes (done.upTo s attrs) := by
    intro attrs
    induction attrs using List.reverseRecOn with
    | nil => exact describes.sketch s
    | append_singleton attrs attr ih =>
        rw [List.foldl_append]
        exact ih.applyAttribute attr
  exact upTo s.attributes

end Draft.Describes

namespace Script

variable {script : Script}

theorem mem_names_of_mem_links {start stop : String} (linked : (start, stop) ∈ script.links) :
    start ∈ script.names ∧ stop ∈ script.names := by
  obtain ⟨s, member, part⟩ := List.mem_flatMap.mp linked
  obtain ⟨starts, stops⟩ := List.of_mem_zip part
  exact ⟨List.mem_flatMap.mpr ⟨s, member, starts⟩,
    List.mem_flatMap.mpr ⟨s, member, List.mem_cons_of_mem _ stops⟩⟩

theorem mem_links_of_mem_guardJobs {job : String × String × Instr}
    (listed : job ∈ script.guardJobs) : (job.1, job.2.1) ∈ script.links := by
  obtain ⟨s, member, inner⟩ := List.mem_flatMap.mp listed
  obtain ⟨guard, _, inner⟩ := List.mem_flatMap.mp inner
  obtain ⟨pair, part, rfl⟩ := List.mem_map.mp inner
  exact List.mem_flatMap.mpr ⟨s, member, part⟩

theorem mem_links_of_mem_linkGuards {start stop : String} {guard : Instr}
    (given : guard ∈ script.linkGuards start stop) : (start, stop) ∈ script.links := by
  obtain ⟨read, _⟩ := List.mem_filter.mp given
  obtain ⟨label, listed, _⟩ := List.mem_filterMap.mp read
  obtain ⟨s, kept, _⟩ := List.mem_flatMap.mp listed
  obtain ⟨member, part⟩ := List.mem_filter.mp kept
  exact List.mem_flatMap.mpr ⟨s, member, by simpa using part⟩

theorem mem_names_of_mem_deltaJobs {job : String × Instr} (listed : job ∈ script.deltaJobs) :
    job.1 ∈ script.names := by
  obtain ⟨s, member, inner⟩ := List.mem_flatMap.mp listed
  split at inner
  · cases inner
  · obtain ⟨delta, _, rfl⟩ := List.mem_map.mp inner
    exact List.mem_flatMap.mpr ⟨s, member, List.mem_cons_self⟩

end Script

/-! ### Documents -/

def Item.statement? : Item → Option Statement
  | .statement s => some s
  | .graphAttribute .. | .defaults .. => none

def Document.script (document : Document) : Script := document.items.filterMap Item.statement?

/-- What has been read of a document before anything is split is what its statements describe. -/
theorem Document.draft_describes (document : Document) :
    document.draft.Describes document.script := by
  have upTo : ∀ items : List Item,
      (Draft.ofItems document.name items).Describes (items.filterMap Item.statement?) := by
    intro items
    induction items using List.reverseRecOn with
    | nil => exact Draft.Describes.empty document.name
    | append_singleton items item ih =>
        rw [Draft.ofItems, List.foldl_append, List.filterMap_append]
        cases item with
        | statement s => exact ih.applyStatement s
        | graphAttribute key value => exact (List.append_nil (items.filterMap _)).symm ▸ ih
        | defaults attrs => exact (List.append_nil (items.filterMap _)).symm ▸ ih
  exact upTo document.items

end Dot

end OneCounter
