import OneCounter.Automaton.Loops
import OneCounter.Dot.Document

/-!
From statements to an automaton. Guards belong to nodes and deltas to edges, so an edge with a
guard and a node with a delta are noted while the statements are read, and split afterwards
with a fresh node.
-/

namespace OneCounter.Dot

/-- What has been read: the graph, the edges with a guard, and the nodes with a delta. -/
structure Draft where
  automaton : Automaton
  guarded : List (String × String × Instr)
  moving : List (String × Instr)
deriving DecidableEq

/-- Up to the first line break, which may be written as a backslash and an `n`. -/
def lineChars : List Char → List Char
  | [] => []
  | '\n' :: _ => []
  | '\\' :: 'n' :: _ => []
  | c :: rest => c :: lineChars rest

/-- A label with an instruction on its first line stands for that. -/
def labelInstr? (label : String) : Option Instr :=
  (Instr.parse (String.ofList (lineChars label.toList))).toOption

def isLabelKey (key : String) : Bool := key == "label" || key == "xlabel"

/-- The parts of a text between commas. -/
def commaParts (text : List Char) : List (List Char) := text.splitOn ','

def hidesNode (style : String) : Bool :=
  (commaParts style.toList).any fun part => Text.trim part == "invis".toList

namespace Draft

def empty (name : String) : Draft := ⟨.empty name, [], []⟩

def labelEdge (label : String) (draft : Draft) (pair : String × String) : Draft :=
  match labelInstr? label with
  | some instr =>
      if instr.isGuard then { draft with guarded := draft.guarded ++ [(pair.1, pair.2, instr)] }
      else
        { draft with
          automaton := draft.automaton.mapEdge pair.1 pair.2 fun data =>
            { data with operation? := some instr } }
  | none =>
      { draft with
        automaton := draft.automaton.mapEdge pair.1 pair.2 fun data =>
          { data with label? := some label } }

def labelNode (label : String) (draft : Draft) (name : String) : Draft :=
  match labelInstr? label with
  | some instr =>
      if instr.isGuard then
        { draft with
          automaton := draft.automaton.mapNode name fun data =>
            { data with condition? := some instr } }
      else { draft with moving := draft.moving ++ [(name, instr)] }
  | none =>
      { draft with
        automaton := draft.automaton.mapNode name fun data => { data with label? := some label } }

def hideNode (draft : Draft) (name : String) : Draft :=
  { draft with automaton := draft.automaton.mapNode name fun data => { data with hidden := true } }

/-- Whether an attribute of the statement means something. -/
def understands (s : Statement) (attr : Attribute) : Bool :=
  isLabelKey attr.key || (attr.key == "style" && !s.isEdge && hidesNode attr.value)

def applyAttribute (s : Statement) (draft : Draft) (attr : Attribute) : Draft :=
  if isLabelKey attr.key then
    if s.isEdge then s.pairs.foldl (labelEdge attr.value) draft
    else draft.labelNode attr.value s.first
  else if understands s attr then draft.hideNode s.first
  else draft

/-- Adds the nodes and edges of a statement, then its attributes in turn. -/
def applyStatement (draft : Draft) (s : Statement) : Draft :=
  let automaton := s.pairs.foldl (fun a pair => a.addEdge pair.1 pair.2)
    (s.nodes.foldl Automaton.addNode draft.automaton)
  s.attributes.foldl (applyAttribute s) { draft with automaton := automaton }

def applyItem (draft : Draft) : Item → Draft
  | .statement s => draft.applyStatement s
  | .graphAttribute .. | .defaults .. => draft

def ofItems (name : String) (items : List Item) : Draft := items.foldl applyItem (empty name)

end Draft

/-- A fresh node put into an edge for its guard, or after a node for its delta. -/
inductive Split where
  | edge (start stop fresh : String) (guard : Instr)
  | node (name fresh : String) (delta : Instr)
deriving DecidableEq

/-- An automaton while it is split, with the number of the next fresh name. -/
structure Splitting where
  automaton : Automaton
  next : Nat
  splits : List Split
deriving DecidableEq

namespace Splitting

def freshName (n : Nat) : String := String.ofList ('_' :: Nat.toDigits 10 n)

/-- The first number from `n` on whose name is not taken, among the next `fuel` ones. -/
def firstFree (a : Automaton) : Nat → Nat → Nat
  | 0, n => n
  | fuel + 1, n => if a.hasNode (freshName n) then firstFree a fuel (n + 1) else n

/-- There are not more names taken than nodes. -/
def free (w : Splitting) : Nat := firstFree w.automaton w.automaton.nodes.size w.next

/-- Puts a fresh node with the guard into an edge. The second half keeps the operation. An
edge that has been split already is passed over. -/
def splitEdge (w : Splitting) (job : String × String × Instr) : Splitting :=
  let (start, stop, guard) := job
  match w.automaton.edgeData? start stop with
  | none => w
  | some data =>
      let fresh := freshName w.free
      { automaton :=
          ((((w.automaton.removeEdge start stop).addEdge start fresh).addEdge fresh stop).mapNode
            fresh fun node => { node with condition? := some guard }).mapEdge
              fresh stop fun edge => { edge with operation? := data.operation? }
        next := w.free + 1
        splits := w.splits ++ [.edge start stop fresh guard] }

/-- Lets the edges of a node leave a fresh node, to which one edge with the delta leads. -/
def splitNode (w : Splitting) (job : String × Instr) : Splitting :=
  let (name, delta) := job
  let fresh := freshName w.free
  { automaton :=
      ((w.automaton.moveStart name fresh).addEdge name fresh).mapEdge
        name fresh fun edge => { edge with operation? := some delta }
    next := w.free + 1
    splits := w.splits ++ [.node name fresh delta] }

end Splitting

/-- Splits the edges with a guard, then the nodes with a delta. -/
def Draft.split (draft : Draft) : Splitting :=
  draft.moving.foldl Splitting.splitNode
    (draft.guarded.foldl Splitting.splitEdge ⟨draft.automaton, 0, []⟩)

end OneCounter.Dot
