import OneCounter.Instr
import OneCounter.Region
import OneCounter.Table

/-!
Arrivals: the counter values with which a node is entered, for each origin they come from.
-/

namespace OneCounter

namespace Region

/-- The values that a guard accepts. Deltas accept every value. -/
def obey (guard : Instr) (r : Region) : Region :=
  match guard.op with
  | .atMost => r.clipAbove guard.constant
  | .atLeast => r.clipBelow guard.constant
  | .equal => r.onlyPoint guard.constant
  | .add | .sub => r

/-- The values within the closed range from `lower` to `upper` that the guard accepts. -/
def restrict (lower upper : Bound) (guard? : Option Instr) (r : Region) : Region :=
  let inside := r.rescale lower upper
  match guard? with
  | some guard => (inside.obey guard).clean
  | none => inside.clean

end Region

abbrev Arrivals := Table Region

namespace Arrivals

/-- Joins values from an origin with those that came from there before. The first values from
an origin are kept as they are. -/
def receive (arrivals : Arrivals) (origin : String) (values : Region) : Arrivals :=
  match arrivals.get? origin with
  | some known => arrivals.insert origin (known.union values)
  | none => arrivals.insert origin values

/-- Restricts the values from one origin. -/
def restrict (arrivals : Arrivals) (origin : String) (lower upper : Bound)
    (guard? : Option Instr) : Arrivals :=
  arrivals.modify origin (Region.restrict lower upper guard?)

/-- Whether some origin contributes a value. -/
def isReachable (arrivals : Arrivals) : Bool := arrivals.values.any (!·.isEmpty)

def line (origin : String) (values : Region) : String := origin ++ ": " ++ values.text

def text (arrivals : Arrivals) : String :=
  String.join (arrivals.entries.map fun entry => line entry.1 entry.2 ++ "\n")

end Arrivals

end OneCounter
