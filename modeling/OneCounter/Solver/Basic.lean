import OneCounter.Arrivals
import OneCounter.Automaton.Loops

/-!
The state of the reachability analysis. For every visible node and every origin it holds the
counter values found so far, beside a snapshot of them from the start of the round, and for
every loop how long it has been growing in each direction.
-/

namespace OneCounter

structure Settings where
  /-- Growing rounds before a loop is accelerated. -/
  threshold? : Option Nat
  /-- Rounds after which a run gives up. -/
  maxRounds? : Option Nat
deriving DecidableEq

/-- The growth of a loop in one direction: the rounds in a row up to now, and whether there
ever was one. -/
structure Gauge where
  streak : Nat
  grown : Bool
deriving DecidableEq

/-- Before the first round. What was seen of the loop earlier still counts. -/
def Gauge.ofSide (side : Side) : Gauge := ⟨0, side.grown⟩

def Gauge.advance (gauge : Gauge) (grows : Bool) : Gauge :=
  if grows then ⟨gauge.streak + 1, true⟩ else ⟨0, gauge.grown⟩

structure Tracker where
  loop : Loop
  rising : Gauge
  falling : Gauge
deriving DecidableEq

/-- The gauges take the marks of the loop over. -/
def Tracker.ofLoop (l : Loop) : Tracker := ⟨l.unmarked, .ofSide l.rising, .ofSide l.falling⟩

/-- The loop with what has been seen of it up to now. -/
def Tracker.marked (tracker : Tracker) : Loop :=
  tracker.loop.mark tracker.rising.grown tracker.falling.grown

def Tracker.gauge (tracker : Tracker) : Direction → Gauge
  | .up => tracker.rising
  | .down => tracker.falling

/-- Arrivals of the visible nodes. -/
abbrev Reach := Table Arrivals

/-- The values at a node from an origin. -/
def Reach.values? (reach : Reach) (node origin : String) : Option Region :=
  (reach.get? node).bind (·.get? origin)

structure Solver where
  automaton : Automaton
  settings : Settings
  threshold : Nat
  live : Reach
  snapshot : Reach
  trackers : List Tracker
  /-- Rounds that changed the state. -/
  rounds : Nat
  finished : Bool
deriving DecidableEq

namespace Automaton

/-- The value that the counter starts with, if the initial node admits it. -/
def seed (a : Automaton) (initial : String) : Region :=
  (Region.point (.finite a.start)).restrict a.lower a.upper (a.condition? initial)

/-- No arrivals at any visible node. -/
def noArrivals (a : Automaton) : Reach :=
  (a.nodes.filter fun _ data => !data.hidden).map fun _ _ => .empty

/-- Whether the counter can start at all. -/
def admitsStart (a : Automaton) (initial : String) : Bool :=
  !a.isHidden initial && !(a.seed initial).isEmpty

/-- The starting value arrives at the initial node from the node itself. -/
def firstArrivals (a : Automaton) (initial : String) : Reach :=
  if a.admitsStart initial then
    a.noArrivals.modify initial (·.receive initial (a.seed initial))
  else a.noArrivals

def defaultThreshold (a : Automaton) : Nat := a.nodes.size * (4 * a.nodes.size + 4)

end Automaton

namespace Solver

def ofAutomaton (a : Automaton) (initial : String) (settings : Settings) : Solver where
  automaton := a
  settings := settings
  threshold := settings.threshold?.getD a.defaultThreshold
  live := a.firstArrivals initial
  snapshot := a.firstArrivals initial
  trackers := a.loops.map Tracker.ofLoop
  rounds := 0
  finished := false

/-- The solver before its first round. The initial node has to be known; loops are looked for
unless that has been done. -/
def start (a : Automaton) (settings : Settings) : Except AutomatonError Solver :=
  match a.initial? with
  | none => .error .noInitialNode
  | some initial => do
      let a ← a.ensureLoops
      return ofAutomaton a initial settings

/-- The automaton that the solver hands out, with its loops marked. -/
def solved (s : Solver) : Automaton :=
  { s.automaton with loops? := some (s.trackers.map Tracker.marked) }

def isReachable (s : Solver) (node : String) : Bool :=
  (s.live.get? node).any Arrivals.isReachable

/-- Adds values to a visible node by hand, cut to the range of the counter. Other nodes are
passed over. -/
def addValues (s : Solver) (node origin : String) (values : Region) : Solver :=
  { s with
    live := s.live.modify node fun arrivals =>
      (arrivals.receive origin values).restrict origin s.automaton.lower s.automaton.upper none }

def nodeText (node : String) (arrivals : Arrivals) : String :=
  if arrivals.isReachable then
    node ++ ":\n" ++ String.join (arrivals.entries.map fun entry =>
      "  " ++ Arrivals.line entry.1 entry.2 ++ "\n")
  else node ++ ": unreachable\n"

def text (s : Solver) : String :=
  String.join (s.live.entries.map fun entry => nodeText entry.1 entry.2)

end Solver

end OneCounter
