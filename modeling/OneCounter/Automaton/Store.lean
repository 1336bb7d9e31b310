import OneCounter.Automaton.Loops

/-!
How an automaton is kept while it is built. Nodes and edges are records that hold their own names,
filed under names: nodes by their name, edges by their start and then by their end. Edits write
records and rows; some of them can be refused, and say why. What is analysed is the automaton that
is read off the records.
-/

namespace OneCounter

structure Node extends NodeData where
  name : String
deriving DecidableEq

def Node.named (name : String) : Node := ⟨.plain, name⟩

namespace Edge

def between (start stop : String) : Edge := ⟨.plain, start, stop⟩

/-- The same edge, but from another node. -/
def withStart (edge : Edge) (start : String) : Edge := { edge with start := start }

end Edge

structure Store where
  name : String
  nodes : Table Node
  rows : Table (Table Edge)
  initial? : Option String
  lower : Bound
  upper : Bound
  start : Count
  loops? : Option (List Loop)
deriving DecidableEq

namespace Store

def withBounds (name : String) (lower upper : Bound) : Store :=
  ⟨name, .empty, .empty, none, lower, upper, 0, none⟩

/-- The automaton that the records describe. It goes by the names that they are filed under. -/
def automaton (s : Store) : Automaton where
  name := s.name
  nodes := s.nodes.map fun _ node => node.toNodeData
  rows := s.rows.map fun _ row => row.map fun _ edge => edge.toEdgeData
  initial? := s.initial?
  lower := s.lower
  upper := s.upper
  start := s.start
  loops? := s.loops?

/-! ### Looking up -/

def hasNode (s : Store) (name : String) : Bool := s.nodes.contains name

def hiddenNodes (s : Store) : List Node := s.nodes.values.filter fun node => node.hidden

def row (s : Store) (start : String) : Table Edge := (s.rows.get? start).getD .empty

def edge? (s : Store) (start stop : String) : Option Edge := (s.row start).get? stop

def edges (s : Store) : List Edge := s.rows.values.flatMap Table.values

def edgeCount (s : Store) : Nat := s.rows.values.foldl (fun total row => total + row.size) 0

def outgoing (s : Store) (start : String) : List Edge := (s.row start).values

def incoming (s : Store) (stop : String) : List Edge :=
  s.rows.values.filterMap fun row => row.get? stop

def cyclesFrom (s : Store) (initial : String) : List (List String) :=
  (Automaton.search (fun node => (s.outgoing node).map Edge.stop) (s.edges.length + 1) []
    [(initial, [])]).filterMap Finding.cycle?

/-- The cycles read as loops, unless the change along an edge is out of range. -/
def loopsFrom (s : Store) (initial : String) : Except AutomatonError (List Loop) :=
  (s.cyclesFrom initial).mapM (Loop.checked s.automaton)

/-! ### Edits that are never refused -/

/-- A node that is there already stays as it is. -/
def addNode (s : Store) (name : String) : Store :=
  if s.hasNode name then s else { s with nodes := s.nodes.insert name (.named name) }

/-- Adds what is missing of the two nodes, the row and the edge. -/
def addEdge (s : Store) (start stop : String) : Store :=
  let s := (s.addNode start).addNode stop
  let row := s.row start
  { s with
    rows := s.rows.insert start
      (if row.contains stop then row else row.insert stop (.between start stop)) }

/-- The edge that was there, and what is left. A row that has become empty goes too. -/
def removeEdge (s : Store) (start stop : String) : Option Edge × Store :=
  match s.rows.get? start with
  | none => (none, s)
  | some row =>
      let rest := row.erase stop
      (row.get? stop,
        { s with rows := if rest.isEmpty then s.rows.erase start else s.rows.insert start rest })

/-- Takes the row of a node away and puts each of its edges, with its new start, into the row of
another node, in place of an edge to the same end. -/
def moveStart (s : Store) (old new : String) : Store :=
  match s.rows.get? old with
  | none => s
  | some moved =>
      let s := addNode { s with rows := s.rows.erase old } new
      { s with
        rows := s.rows.insert new (moved.entries.foldl
          (fun row entry => row.insert entry.1 (entry.2.withStart new)) (s.row new)) }

/-! ### Edits that can be refused -/

/-- Work on a store that can stop with an error. The store stays as the work has left it. -/
abbrev Editing := ExceptT AutomatonError (StateM Store)

def findNode (name : String) : Editing Node := do
  match (← get).nodes.get? name with
  | some node => return node
  | none => throw (.unknownNode name)

def findEdge (start stop : String) : Editing Edge := do
  match (← get).edge? start stop with
  | some edge => return edge
  | none => throw (.unknownEdge start stop)

/-- Writes a changed record back to where it was found. -/
def updateNode (name : String) (change : Node → Node) : Editing Unit := do
  let node ← findNode name
  modify fun s => { s with nodes := s.nodes.insert name (change node) }

def updateEdge (start stop : String) (change : Edge → Edge) : Editing Unit := do
  let edge ← findEdge start stop
  modify fun s =>
    { s with rows := s.rows.insert start ((s.row start).insert stop (change edge)) }

def setNodeLabel (name label : String) : Editing Unit :=
  updateNode name fun node => { node with label? := some label }

def setCondition (name : String) (condition? : Option Instr) : Editing Unit :=
  updateNode name fun node => { node with condition? := condition? }

def hide (name : String) : Editing Unit :=
  updateNode name fun node => { node with hidden := true }

def setEdgeLabel (start stop label : String) : Editing Unit :=
  updateEdge start stop fun edge => { edge with label? := some label }

def setOperation (start stop : String) (operation? : Option Instr) : Editing Unit :=
  updateEdge start stop fun edge => { edge with operation? := operation? }

/-- The first of a list that may be empty for want of an initial node. -/
def firstOf {α : Type} : List α → Editing α
  | [] => throw .noInitialNode
  | first :: _ => return first

/-- The first hidden node is the entry, and its first edge leads to the initial node. -/
def resolveInitial : Editing Unit := do
  let s ← get
  let entry ← firstOf s.hiddenNodes
  let edge ← firstOf (s.outgoing entry.name)
  modify fun s => { s with initial? := some edge.stop }

def discoverLoops : Editing Unit := do
  let s ← get
  match s.initial? with
  | none => throw .noInitialNode
  | some initial => do
      let loops ← s.loopsFrom initial
      modify fun s => { s with loops? := some loops }

end Store

end OneCounter
