import OneCounter.Count

/-!
Loops: cycles of an automaton together with how they move the counter. In each direction a
loop either moves the counter or not, and either has a tightest guard against it or none.
-/

namespace OneCounter

inductive Direction where
  | up
  | down
deriving DecidableEq

def Direction.text : Direction → String
  | up => "Up"
  | down => "Down"

/-- A guard on a loop: its constant, the node that carries it, and the node before that. -/
structure Limit where
  value : Count
  node : String
  preceding : String
deriving DecidableEq

/-- A loop in one direction: whether some edge moves the counter that way, the tightest guard
against it, and whether an analysis has seen it grow that way. -/
structure Side where
  moves : Bool
  limit? : Option Limit
  grown : Bool
deriving DecidableEq

structure Loop where
  nodes : List String
  rising : Side
  falling : Side
deriving DecidableEq

namespace Loop

def side (l : Loop) : Direction → Side
  | .up => l.rising
  | .down => l.falling

/-- The loop with marks for the directions that it has grown in. -/
def mark (l : Loop) (up down : Bool) : Loop :=
  { l with
    rising := { l.rising with grown := up }
    falling := { l.falling with grown := down } }

/-- The loop as it is when it is found. -/
def unmarked (l : Loop) : Loop := l.mark false false

/-- Each node of a cycle with its successor; the last node is followed by the first. -/
def successors (nodes : List String) : List (String × String) :=
  nodes.zip (nodes.tail ++ nodes.head?.toList)

/-- Each node of a cycle with its predecessor in front; the first node is preceded by the
last. -/
def predecessors (nodes : List String) : List (String × String) :=
  (nodes.getLast?.toList ++ nodes.dropLast).zip nodes

def edges (l : Loop) : List (String × String) := successors l.nodes

def text (l : Loop) : String :=
  String.join (l.nodes.map (· ++ " -> ")) ++ l.nodes.head?.getD ""

end Loop

end OneCounter
