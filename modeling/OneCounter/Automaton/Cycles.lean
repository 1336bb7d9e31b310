import OneCounter.Automaton.Basic

/-!
The search for cycles from the initial node. Nodes are explored in the order in which they
were first met. Each waits with the trail that led to it; one that is met again while it
waits keeps its place and takes the newer trail. An edge back onto the trail closes a cycle,
and an edge to an explored node off the trail is passed over.
-/

namespace OneCounter

/-- What became of an edge to an explored node. -/
inductive Finding where
  | closed (start stop : String) (cycle : List String)
  | skipped (start stop : String)
deriving DecidableEq

def Finding.cycle? : Finding → Option (List String)
  | closed _ _ cycle => some cycle
  | skipped _ _ => none

namespace Automaton

/-- Nodes that wait to be explored, each with the trail to it, latest node first. -/
abbrev Frontier := List (String × List String)

def enqueue (node : String) (trail : List String) : Frontier → Frontier
  | [] => [(node, trail)]
  | waiting :: rest =>
      if waiting.1 = node then (node, trail) :: rest else waiting :: enqueue node trail rest

/-- The part of the trail from `stop` on, in the order of travel. -/
def closedCycle (stop : String) (trail : List String) : List String :=
  stop :: (trail.takeWhile (· ≠ stop)).reverse

def finding? (visited trail : List String) (start stop : String) : Option Finding :=
  if stop ∉ visited then none
  else if stop ∈ trail then some (.closed start stop (closedCycle stop trail))
  else some (.skipped start stop)

/-- Explores the frontier until it is empty, at most `fuel` nodes. The nodes that edges lead to
from a node are its `stops`. -/
def search (stops : String → List String) : Nat → List String → Frontier → List Finding
  | 0, _, _ => []
  | _ + 1, _, [] => []
  | fuel + 1, explored, (node, path) :: rest =>
      let visited := node :: explored
      let trail := node :: path
      let fresh := (stops node).filter (· ∉ visited)
      (stops node).filterMap (finding? visited trail node) ++
        search stops fuel visited
          (fresh.foldl (fun frontier stop => enqueue stop trail frontier) rest)

def explore (a : Automaton) : Nat → List String → Frontier → List Finding :=
  search fun node => (a.outgoing node).map Edge.stop

/-- Every node that is explored, the first apart, is the end of an edge of its own, so the
number of edges bounds the search. -/
def findings (a : Automaton) (initial : String) : List Finding :=
  a.explore (a.edges.length + 1) [] [(initial, [])]

def cyclesFrom (a : Automaton) (initial : String) : List (List String) :=
  (a.findings initial).filterMap Finding.cycle?

def cycles (a : Automaton) : Except AutomatonError (List (List String)) :=
  match a.initial? with
  | some initial => .ok (a.cyclesFrom initial)
  | none => .error .noInitialNode

end Automaton

end OneCounter
