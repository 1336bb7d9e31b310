import OneCounter.Solver.Basic

/-!
Rounds of the analysis. A round takes the values of the snapshot one edge further, lets loops
that have grown long enough jump to their limit, and compares the result with the snapshot.
-/

namespace OneCounter

namespace Region

/-- Moves the outermost end of one direction. -/
def stretch (direction : Direction) (limit : Bound) (closed : Bool) (r : Region) : Region :=
  match direction with
  | .up => r.setSup limit closed
  | .down => r.setInf limit closed

end Region

namespace Edge

/-- The values of one arrival after the edge has been passed. -/
def carry (edge : Edge) (values : Region) : Region :=
  match Region.ofDelta? edge.delta with
  | some step => values + step
  | none => values

/-- All values that the snapshot has at the start of the edge, carried along it. -/
def incoming? (edge : Edge) (snapshot : Reach) : Option Region :=
  match snapshot.get? edge.start with
  | none => none
  | some arrivals =>
      match (arrivals.values.filter (!·.isEmpty)).map edge.carry with
      | [] => none
      | first :: rest => some (rest.foldl Region.union first)

end Edge

/-- A loop's outermost end set to its limit: the values that replace those at `node` from
`origin`. -/
structure Jump where
  loop : Loop
  direction : Direction
  node : String
  origin : String
  values : Region
deriving DecidableEq

/-- Where a loop jumps to in a direction. -/
structure Target where
  node : String
  origin : String
  limit : Bound
  closed : Bool
deriving DecidableEq

def Direction.infinity : Direction → Bound
  | up => .posInf
  | down => .negInf

/-- The node of the tightest guard, entered along the loop; without a guard the end of the
first edge. -/
def Loop.target? (l : Loop) (direction : Direction) : Option Target :=
  match (l.side direction).limit? with
  | some limit => some ⟨limit.node, limit.preceding, .finite limit.value, true⟩
  | none =>
      match l.nodes with
      | [] => none
      | [only] => some ⟨only, only, direction.infinity, false⟩
      | first :: second :: _ => some ⟨second, first, direction.infinity, false⟩

def Jump.apply (reach : Reach) (jump : Jump) : Reach :=
  reach.modify jump.node (·.insert jump.origin jump.values)

/-- How the values along one edge of a loop have grown in a round, by direction. -/
structure Growth where
  up : Bool
  down : Bool
deriving DecidableEq

/-- Values that are new count as growth in the directions of the loop. Without values, or if
they do not include the old ones, there is no growth to speak of. -/
def Loop.edgeGrowth? (l : Loop) (before after : Reach) (edge : String × String) : Option Growth :=
  match (after.values? edge.2 edge.1).filter (!·.isEmpty),
      (before.values? edge.2 edge.1).filter (!·.isEmpty) with
  | some new, some old =>
      if new.expands old then some ⟨new.extendsAbove old, new.extendsBelow old⟩ else none
  | some _, none => some ⟨l.rising.moves, l.falling.moves⟩
  | none, _ => none

/-- The growth of a loop all of whose edges have kept their values. -/
def Loop.growth? (l : Loop) (before after : Reach) : Option Growth :=
  (l.edges.mapM (l.edgeGrowth? before after)).map fun growths =>
    ⟨growths.any Growth.up, growths.any Growth.down⟩

def Tracker.update (before after : Reach) (tracker : Tracker) : Tracker :=
  match tracker.loop.growth? before after with
  | some growth =>
      { tracker with
        rising := tracker.rising.advance growth.up
        falling := tracker.falling.advance growth.down }
  | none =>
      { tracker with
        rising := tracker.rising.advance false
        falling := tracker.falling.advance false }

namespace Solver

/-- The edges that take part in the analysis of a node. -/
def sources (s : Solver) (node : String) : List Edge :=
  (s.automaton.incoming node).filter fun edge => !s.automaton.isHidden edge.start

/-- Adds what one edge brings to its end. -/
def pullEdge (s : Solver) (arrivals : Arrivals) (edge : Edge) : Arrivals :=
  match edge.incoming? s.snapshot with
  | none => arrivals
  | some values =>
      (arrivals.receive edge.start values).restrict edge.start s.automaton.lower
        s.automaton.upper (s.automaton.condition? edge.stop)

/-- Adds what all edges bring to a node. -/
def pull (s : Solver) (node : String) (arrivals : Arrivals) : Arrivals :=
  (s.sources node).foldl s.pullEdge arrivals

/-- Pulls at every visible node. What is pulled comes from the snapshot, so the nodes do not
affect each other. -/
def propagate (s : Solver) : Reach := s.live.map s.pull

/-- The jump of a loop, if it has ever grown in the direction and moves the counter there. -/
def jump? (s : Solver) (reach : Reach) (tracker : Tracker) (direction : Direction) :
    Option Jump := do
  guard ((tracker.gauge direction).grown && (tracker.loop.side direction).moves)
  let target ← tracker.loop.target? direction
  let values ← reach.values? target.node target.origin
  guard !values.isEmpty
  return ⟨tracker.loop, direction, target.node, target.origin,
    (values.stretch direction target.limit target.closed).restrict s.automaton.lower
      s.automaton.upper none⟩

/-- The loops that have grown for as many rounds as the threshold, each downward before
upward. -/
def due (s : Solver) : List (Tracker × Direction) :=
  s.trackers.flatMap fun tracker =>
    ([.down, .up].filter fun direction => s.threshold ≤ (tracker.gauge direction).streak).map
      fun direction => (tracker, direction)

/-- The jumps of the loops in turn, each on the values that the ones before it have left. -/
def jumps (s : Solver) (reach : Reach) : List (Tracker × Direction) → List Jump
  | [] => []
  | (tracker, direction) :: rest =>
      match s.jump? reach tracker direction with
      | none => jumps s reach rest
      | some jump => jump :: jumps s (jump.apply reach) rest

def accelerate (s : Solver) (reach : Reach) : Reach := (s.jumps reach s.due).foldl Jump.apply reach

/-- What a round makes of the values. -/
def next (s : Solver) : Reach := s.accelerate s.propagate

/-- One round. A round that ends with the values of the snapshot finishes the analysis, and
nothing happens after that. -/
def round (s : Solver) : Solver :=
  if s.finished then s
  else
    let reach := s.next
    if reach = s.snapshot then { s with live := reach, finished := true }
    else
      { s with
        live := reach
        snapshot := reach
        trackers := s.trackers.map (Tracker.update s.snapshot reach)
        rounds := s.rounds + 1 }

/-- Whether some edge between visible nodes changes the counter by more than its range. -/
def overflows (s : Solver) : Bool :=
  s.automaton.edges.any fun edge =>
    edge.overflows && !s.automaton.isHidden edge.start && !s.automaton.isHidden edge.stop

/-- One round, unless the change along an edge is out of range. -/
def advance (s : Solver) : Except AutomatonError Solver :=
  if !s.finished && s.overflows then .error .deltaOverflow else .ok s.round

/-- Whether a run gives up here. -/
def exhausted (s : Solver) : Bool := s.settings.maxRounds?.any (· ≤ s.rounds)

def stopped (s : Solver) : Bool := s.finished || s.exhausted

/-- At most `fuel` rounds. -/
def runFor : Nat → Solver → Solver
  | 0, s => s
  | fuel + 1, s => if s.stopped then s else runFor fuel s.round

/-- More rounds than there are ways for all the values to grow: the ends of a set are open or
closed at one of fewer than `2 ^ 65` places, so it can grow fewer than `2 ^ 68` times. -/
def horizon (s : Solver) : Nat := (s.live.size * s.live.size + 1) * Nat.pow 2 68

/-- Rounds until the analysis is finished or the settings make it give up. -/
def run (s : Solver) : Except AutomatonError Solver :=
  if !s.stopped && s.overflows then .error .deltaOverflow else .ok (runFor s.horizon s)

end Solver

end OneCounter
