import OneCounter.Automaton.Cycles

/-!
Loops of an automaton: each cycle is read against the edges and guards of its nodes.
-/

namespace OneCounter

namespace Operator

/-- The guards that bar the way in a direction. -/
def bars : Direction → Operator → Bool
  | .up, op => op = .atMost || op = .equal
  | .down, op => op = .atLeast || op = .equal

end Operator

namespace Direction

/-- Whether the first value is met before the second on the way. -/
def nearer : Direction → Count → Count → Bool
  | up, a, b => a < b
  | down, a, b => b < a

/-- Whether a change of the counter goes this way. -/
def follows (direction : Direction) (delta : Count) : Bool := direction.nearer 0 delta

end Direction

namespace Loop

/-- The first of the nearest limits on the way. -/
def tightest (direction : Direction) (limits : List Limit) : Option Limit :=
  limits.foldl
    (fun best? limit => match best? with
      | none => some limit
      | some best => if direction.nearer limit.value best.value then some limit else some best)
    none

def limits (a : Automaton) (direction : Direction) (nodes : List String) : List Limit :=
  (predecessors nodes).filterMap fun pair =>
    match a.condition? pair.2 with
    | some guard =>
        if guard.op.bars direction then some ⟨guard.constant, pair.2, pair.1⟩ else none
    | none => none

/-- The edges between consecutive nodes of a cycle. A pair without an edge contributes none. -/
def steps (a : Automaton) (nodes : List String) : List EdgeData :=
  (successors nodes).filterMap fun pair => a.edgeData? pair.1 pair.2

def sideOf (a : Automaton) (nodes : List String) (direction : Direction) : Side :=
  ⟨(steps a nodes).any fun step => direction.follows step.delta,
    tightest direction (limits a direction nodes), false⟩

/-- Reads a list of nodes as a cycle, whether it is one or not. -/
def ofNodes (a : Automaton) (nodes : List String) : Loop :=
  ⟨nodes, sideOf a nodes .up, sideOf a nodes .down⟩

def overflows (a : Automaton) (nodes : List String) : Bool :=
  (steps a nodes).any EdgeData.overflows

/-- Reads a list of nodes as a cycle, unless the change along an edge is out of range. -/
def checked (a : Automaton) (nodes : List String) : Except AutomatonError Loop :=
  if overflows a nodes then .error .deltaOverflow else .ok (ofNodes a nodes)

end Loop

namespace Automaton

def loopsFrom (a : Automaton) (initial : String) : List Loop :=
  (a.cyclesFrom initial).map (Loop.ofNodes a)

def discoverLoops (a : Automaton) : Except AutomatonError Automaton :=
  match a.initial? with
  | none => .error .noInitialNode
  | some initial =>
      if (a.cyclesFrom initial).any (Loop.overflows a) then .error .deltaOverflow
      else .ok { a with loops? := some (a.loopsFrom initial) }

/-- Looks for loops unless that has been done. -/
def ensureLoops (a : Automaton) : Except AutomatonError Automaton :=
  if a.loops?.isSome then .ok a else a.discoverLoops

end Automaton

end OneCounter
