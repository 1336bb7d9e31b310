import OneCounter.Automaton.Journal
import OneCounter.Solver.Round

/-!
Messages about the rounds of the analysis.
-/

namespace OneCounter

namespace Solver

def startEvents (a : Automaton) (settings : Settings) : List Event :=
  match a.initial? with
  | none => []
  | some initial =>
      let searching := if a.loops?.isSome then [] else a.discoverLoopsEvents
      let refused :=
        if a.admitsStart initial then [] else [.startOutOfRange a.start initial]
      match a.ensureLoops with
      | .error _ => searching
      | .ok a =>
          searching ++ refused ++
            [.solving a.name a.nodes.size a.loops.length
              (settings.threshold?.getD a.defaultThreshold)]

def addValuesEvents (s : Solver) (node : String) : List Event :=
  if s.live.contains node then [] else [.nodeIgnored node]

def pullEvents (s : Solver) : List Event :=
  s.live.keys.flatMap fun node =>
    (s.sources node).filterMap fun edge =>
      (edge.incoming? s.snapshot).map fun values => .pulled edge.start node values

def jumpEvents (s : Solver) : List Event :=
  (s.jumps s.propagate s.due).map fun jump =>
    .accelerated jump.loop jump.direction jump.node jump.origin jump.values

/-- A loop that has stopped growing is not mentioned. -/
def growthEvents (s : Solver) (reach : Reach) : List Event :=
  s.trackers.filterMap fun tracker =>
    (tracker.loop.growth? s.snapshot reach).map fun _ =>
      let updated := tracker.update s.snapshot reach
      .growth tracker.loop updated.rising.streak updated.falling.streak

def roundEvents (s : Solver) : List Event :=
  if s.finished then []
  else
    let reach := s.next
    .roundStarted (s.rounds + 1) s.automaton.name :: s.pullEvents ++ s.jumpEvents ++
      (if reach = s.snapshot then [.fixpoint s.automaton.name s.rounds]
        else s.growthEvents reach)

def runEventsFor : Nat → Solver → List Event
  | 0, _ => []
  | fuel + 1, s =>
      if s.finished then []
      else if s.exhausted then [.gaveUp s.automaton.name s.rounds]
      else s.roundEvents ++ runEventsFor fuel s.round

def runEvents (s : Solver) : List Event := runEventsFor s.horizon s

end Solver

end OneCounter
