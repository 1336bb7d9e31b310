import OneCounter.Region
import OneCounter.Instr
import OneCounter.Loop
import OneCounter.Text.Quoted

/-!
Messages about the course of the work, each with its severity.
-/

namespace OneCounter

inductive Level where
  | warn
  | info
  | debug
  | trace
deriving DecidableEq

namespace Level

def text : Level → String
  | warn => "WARN"
  | info => "INFO"
  | debug => "DEBUG"
  | trace => "TRACE"

/-- Lower numbers are more severe. -/
def rank : Level → Nat
  | warn => 0
  | info => 1
  | debug => 2
  | trace => 3

/-- Whether a log kept at `limit` shows messages of this level. -/
def shownAt (level limit : Level) : Bool := level.rank ≤ limit.rank

end Level

inductive Event where
  | severalEntries (used ignored : String)
  | severalSuccessors (entry used : String)
  | initialNode (name : String)
  | cycleClosed (start stop : String) (cycle : List String)
  | edgeSkipped (start stop : String)
  | cyclesFound (count : Nat) (initial : String)
  | loopsFound (count : Nat) (automaton : String)
  | startOutOfRange (value : Count) (initial : String)
  | solving (automaton : String) (nodes loops threshold : Nat)
  | nodeIgnored (name : String)
  | roundStarted (number : Nat) (automaton : String)
  | pulled (start stop : String) (values : Region)
  | accelerated (loop : Loop) (direction : Direction) (node origin : String) (values : Region)
  | fixpoint (automaton : String) (rounds : Nat)
  | growth (loop : Loop) (up down : Nat)
  | gaveUp (automaton : String) (rounds : Nat)
  | reading (path : String)
  | graphAttributeSkipped (key value : String)
  | attributeIgnored (key value : String)
  | edgeSplit (start stop fresh : String) (guard : Instr)
  | nodeSplit (node fresh : String) (delta : Instr)

namespace Event

def level : Event → Level
  | severalEntries .. | severalSuccessors .. | startOutOfRange .. | nodeIgnored .. | gaveUp .. =>
      .warn
  | solving .. | fixpoint .. => .info
  | initialNode .. | cyclesFound .. | loopsFound .. | roundStarted .. | accelerated .. |
    reading .. | edgeSplit .. | nodeSplit .. => .debug
  | cycleClosed .. | edgeSkipped .. | pulled .. | growth .. | graphAttributeSkipped .. |
    attributeIgnored .. => .trace

def text : Event → String
  | severalEntries used ignored =>
      s!"Multiple entry markers, using '{used}' and ignoring '{ignored}'"
  | severalSuccessors entry used =>
      s!"Entry marker '{entry}' has several successors, using '{used}'"
  | initialNode name => s!"Initial node: {name}"
  | cycleClosed start stop cycle =>
      "Cycle closed by " ++ start ++ " -> " ++ stop ++ ": [" ++
        ", ".intercalate (cycle.map Text.quoted) ++ "]"
  | edgeSkipped start stop => s!"Skipping edge {start} -> {stop} into an explored branch"
  | cyclesFound count initial => s!"Found {count} cycle(s) from '{initial}'"
  | loopsFound count automaton => s!"Found {count} loop(s) in '{automaton}'"
  | startOutOfRange value initial =>
      "Initial value " ++ value.text ++ " of '" ++ initial ++ "' is out of range"
  | solving automaton nodes loops threshold =>
      s!"Solving '{automaton}': {nodes} node(s), {loops} loop(s), " ++
        s!"acceleration threshold {threshold}"
  | nodeIgnored name => s!"Ignoring interval for unknown node '{name}'"
  | roundStarted number automaton => s!"Round {number} of '{automaton}'"
  | pulled start stop values => start ++ " -> " ++ stop ++ ": " ++ values.text
  | accelerated loop direction node origin values =>
      "Accelerated loop " ++ loop.text ++ " " ++ direction.text ++ ": " ++ node ++ "[" ++ origin ++
        "] = " ++ values.text
  | fixpoint automaton rounds => s!"Fixpoint for '{automaton}' reached after {rounds} round(s)"
  | growth loop up down => "Loop " ++ loop.text ++ s!": up {up} down {down}"
  | gaveUp automaton rounds => s!"No fixpoint for '{automaton}' after {rounds} rounds"
  | reading path => s!"Reading automaton from {path}"
  | graphAttributeSkipped key value => s!"Skipping graph attribute {key}={value}"
  | attributeIgnored key value => s!"Ignoring attribute {key}={value}"
  | edgeSplit start stop fresh guard =>
      s!"Splitting {start} -> {stop} at {fresh} for guard " ++ guard.text
  | nodeSplit node fresh delta => s!"Splitting node {node} at {fresh} for delta " ++ delta.text

/-- The severity and the text. -/
def line (event : Event) : String := event.level.text ++ " " ++ event.text

end Event

end OneCounter
