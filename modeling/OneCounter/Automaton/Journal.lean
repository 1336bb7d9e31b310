import OneCounter.Automaton.Loops
import OneCounter.Event

/-!
Messages about the initial node and the search for loops.
-/

namespace OneCounter

def Finding.event : Finding → Event
  | closed start stop cycle => .cycleClosed start stop cycle
  | skipped start stop => .edgeSkipped start stop

namespace Automaton

def entryEvents (a : Automaton) (entry : String) : List Event :=
  match (a.outgoing entry).map Edge.stop with
  | [] => []
  | [target] => [.initialNode target]
  | target :: _ :: _ => [.severalSuccessors entry target, .initialNode target]

def resolveInitialEvents (a : Automaton) : List Event :=
  match a.hiddenNodes with
  | [] => []
  | [entry] => a.entryEvents entry
  | entry :: other :: _ => .severalEntries entry other :: a.entryEvents entry

def cyclesEvents (a : Automaton) : List Event :=
  match a.initial? with
  | none => []
  | some initial =>
      (a.findings initial).map Finding.event ++ [.cyclesFound (a.cyclesFrom initial).length initial]

def discoverLoopsEvents (a : Automaton) : List Event :=
  match a.initial? with
  | none => []
  | some initial => a.cyclesEvents ++ [.loopsFound (a.cyclesFrom initial).length a.name]

end Automaton

end OneCounter
