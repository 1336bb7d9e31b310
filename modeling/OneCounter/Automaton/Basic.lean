import OneCounter.Bound
import OneCounter.Instr
import OneCounter.Loop
import OneCounter.Table

/-!
One-counter automata: named nodes, at most one edge from a node to another, guards on nodes
and deltas on edges. The counter starts at a value and stays within a closed range. A hidden
node marks the entry and takes no part in the analysis.
-/

namespace OneCounter

structure NodeData where
  label? : Option String
  condition? : Option Instr
  hidden : Bool
deriving DecidableEq

structure EdgeData where
  label? : Option String
  operation? : Option Instr
deriving DecidableEq

structure Edge extends EdgeData where
  start : String
  stop : String
deriving DecidableEq

structure Automaton where
  name : String
  nodes : Table NodeData
  /-- The edges by their start, then by their end. -/
  rows : Table (Table EdgeData)
  initial? : Option String
  lower : Bound
  upper : Bound
  start : Count
  /-- The loops as they were when last looked for. -/
  loops? : Option (List Loop)
deriving DecidableEq

/-- Why an automaton cannot be used as asked. -/
inductive AutomatonError where
  | noInitialNode
  | unknownNode (name : String)
  | unknownEdge (start stop : String)
  /-- The change that an edge makes is past the range of the counter. -/
  | deltaOverflow
deriving DecidableEq

def AutomatonError.message : AutomatonError → String
  | .noInitialNode =>
      "no initial node was found, make sure that there is a node with an incoming edge " ++
        "originating from an invisible node"
  | .unknownNode name => "unknown node `" ++ name ++ "`"
  | .unknownEdge start stop => "unknown edge `" ++ start ++ " -> " ++ stop ++ "`"
  | .deltaOverflow => "attempt to negate with overflow"

def NodeData.plain : NodeData := ⟨none, none, false⟩

def EdgeData.plain : EdgeData := ⟨none, none⟩

/-- The name, and the condition in brackets. -/
def NodeData.text (name : String) (data : NodeData) : String :=
  match data.condition? with
  | some condition => name ++ " [" ++ condition.text ++ "]"
  | none => name

namespace EdgeData

/-- The change of the counter along the edge. -/
def delta (data : EdgeData) : Count := (data.operation?.bind Instr.delta?).getD 0

def overflows (data : EdgeData) : Bool := data.operation?.any Instr.overflows

/-- The change of the counter along the edge, if it is in range. -/
def checkedDelta (data : EdgeData) : Except AutomatonError Count :=
  if data.overflows then .error .deltaOverflow else .ok data.delta

end EdgeData

def Edge.text (edge : Edge) : String :=
  match edge.operation?, edge.label? with
  | some operation, _ => edge.start ++ " -> " ++ operation.text ++ " -> " ++ edge.stop
  | none, some label => edge.start ++ " -> " ++ label ++ " -> " ++ edge.stop
  | none, none => edge.start ++ " -> " ++ edge.stop

namespace Automaton

def withBounds (name : String) (lower upper : Bound) : Automaton :=
  ⟨name, .empty, .empty, none, lower, upper, 0, none⟩

/-- No nodes, an unbounded counter that starts at zero. -/
def empty (name : String) : Automaton := withBounds name .negInf .posInf

/-! ### Nodes -/

def hasNode (a : Automaton) (name : String) : Bool := a.nodes.contains name

/-- A node that is there already stays as it is. -/
def addNode (a : Automaton) (name : String) : Automaton :=
  if a.hasNode name then a else { a with nodes := a.nodes.insert name .plain }

def condition? (a : Automaton) (name : String) : Option Instr :=
  (a.nodes.get? name).bind NodeData.condition?

def nodeLabel? (a : Automaton) (name : String) : Option String :=
  (a.nodes.get? name).bind NodeData.label?

/-- Unknown nodes are not hidden. -/
def isHidden (a : Automaton) (name : String) : Bool := (a.nodes.get? name).any NodeData.hidden

def isInitial (a : Automaton) (name : String) : Bool := a.initial? = some name

/-- The nodes that take part in the analysis. -/
def visible (a : Automaton) : List String := (a.nodes.filter fun _ data => !data.hidden).keys

def hiddenNodes (a : Automaton) : List String := (a.nodes.filter fun _ data => data.hidden).keys

def mapNode (a : Automaton) (name : String) (f : NodeData → NodeData) : Automaton :=
  { a with nodes := a.nodes.modify name f }

def updateNode (a : Automaton) (name : String) (f : NodeData → NodeData) :
    Except AutomatonError Automaton :=
  if a.hasNode name then .ok (a.mapNode name f) else .error (.unknownNode name)

def setNodeLabel (a : Automaton) (name label : String) : Except AutomatonError Automaton :=
  a.updateNode name fun data => { data with label? := some label }

def setCondition (a : Automaton) (name : String) (condition? : Option Instr) :
    Except AutomatonError Automaton :=
  a.updateNode name fun data => { data with condition? := condition? }

def hide (a : Automaton) (name : String) : Except AutomatonError Automaton :=
  a.updateNode name fun data => { data with hidden := true }

/-! ### Edges -/

def row (a : Automaton) (start : String) : Table EdgeData := (a.rows.get? start).getD .empty

def edgeData? (a : Automaton) (start stop : String) : Option EdgeData := (a.row start).get? stop

def edge? (a : Automaton) (start stop : String) : Option Edge :=
  (a.edgeData? start stop).map fun data => ⟨data, start, stop⟩

def hasEdge (a : Automaton) (start stop : String) : Bool := (a.edgeData? start stop).isSome

def rowEdges (start : String) (row : Table EdgeData) : List Edge :=
  row.entries.map fun entry => ⟨entry.2, start, entry.1⟩

/-- All edges, by start and then by end. -/
def edges (a : Automaton) : List Edge :=
  a.rows.entries.flatMap fun entry => rowEdges entry.1 entry.2

def edgeCount (a : Automaton) : Nat := a.rows.values.foldl (fun total row => total + row.size) 0

def outgoing (a : Automaton) (start : String) : List Edge := rowEdges start (a.row start)

/-- The ways into a node, by where they start. -/
def incoming (a : Automaton) (stop : String) : List Edge :=
  a.rows.entries.filterMap fun entry =>
    (entry.2.get? stop).map fun data => ⟨data, entry.1, stop⟩

/-- Stores the edges that leave a node; a node that none leaves has no row. -/
def setRow (a : Automaton) (start : String) (row : Table EdgeData) : Automaton :=
  if row.isEmpty then { a with rows := a.rows.erase start }
  else { a with rows := a.rows.insert start row }

/-- Adds what is missing of the two nodes and the edge. -/
def addEdge (a : Automaton) (start stop : String) : Automaton :=
  let a := (a.addNode start).addNode stop
  if a.hasEdge start stop then a else a.setRow start ((a.row start).insert stop .plain)

def removeEdge (a : Automaton) (start stop : String) : Automaton :=
  a.setRow start ((a.row start).erase stop)

/-- Lets the edges that leave `old` leave `new` instead, in place of edges of `new` to the
same nodes. -/
def moveStart (a : Automaton) (old new : String) : Automaton :=
  let moved := a.row old
  if moved.isEmpty then a
  else
    let a := (a.setRow old .empty).addNode new
    a.setRow new (moved.entries.foldl (fun row entry => row.insert entry.1 entry.2) (a.row new))

def mapEdge (a : Automaton) (start stop : String) (f : EdgeData → EdgeData) : Automaton :=
  { a with rows := a.rows.modify start fun row => row.modify stop f }

def updateEdge (a : Automaton) (start stop : String) (f : EdgeData → EdgeData) :
    Except AutomatonError Automaton :=
  if a.hasEdge start stop then .ok (a.mapEdge start stop f)
  else .error (.unknownEdge start stop)

def setEdgeLabel (a : Automaton) (start stop label : String) : Except AutomatonError Automaton :=
  a.updateEdge start stop fun data => { data with label? := some label }

def setOperation (a : Automaton) (start stop : String) (operation? : Option Instr) :
    Except AutomatonError Automaton :=
  a.updateEdge start stop fun data => { data with operation? := operation? }

/-! ### The initial node -/

/-- The first hidden node is the entry, and the first node that it leads to the initial one. -/
def entryTarget? (a : Automaton) : Option String := do
  let entry ← a.hiddenNodes.head?
  let edge ← (a.outgoing entry).head?
  return edge.stop

def resolveInitial (a : Automaton) : Except AutomatonError Automaton :=
  match a.entryTarget? with
  | some target => .ok { a with initial? := some target }
  | none => .error .noInitialNode

/-- The loops found, none if they have not been looked for. -/
def loops (a : Automaton) : List Loop := a.loops?.getD []

def marker (a : Automaton) (name : String) (data : NodeData) : String :=
  if data.hidden then " (invisible)" else if a.isInitial name then " (initial)" else ""

def text (a : Automaton) : String :=
  "automaton " ++ a.name ++ " (counter in [" ++ a.lower.text ++ ", " ++ a.upper.text ++
    "], starts at " ++ a.start.text ++ ")\nnodes:\n" ++
  String.join (a.nodes.entries.map fun entry =>
    "  " ++ entry.2.text entry.1 ++ a.marker entry.1 entry.2 ++ "\n") ++
  "edges:\n" ++ String.join (a.edges.map fun edge => "  " ++ edge.text ++ "\n")

end Automaton

end OneCounter
