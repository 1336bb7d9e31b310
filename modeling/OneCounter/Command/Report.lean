import OneCounter.Command.Options
import OneCounter.Dot.Reader
import OneCounter.Dot.Writer
import OneCounter.Solver.Round

/-!
What the command line does with a file: it solves the automaton in it, writes the solved
automaton if asked to, and reports about the nodes.
-/

namespace OneCounter.Command

/-- The report on one node, closed by an empty line. -/
def nodeReport (s : Solver) (node : String) : String :=
  match (s.live.get? node).filter Arrivals.isReachable with
  | some arrivals =>
      s!"The node {node} was found to be reachable with the following reaches:\n" ++
        arrivals.text ++ "\n"
  | none => s!"The node {node} was found to be not reachable\n\n"

/-- The report on the node asked for, or on all visible nodes. -/
def report (s : Solver) (node? : Option String) : String :=
  String.join ((node?.elim s.automaton.visible ([·])).map (nodeReport s))

structure Result where
  report : String
  /-- A path and what is to be written there before the report is given. -/
  written? : Option (String × String)

def Options.configure (options : Options) (a : Automaton) : Automaton :=
  { a with lower := options.lower, upper := options.upper, start := options.start }

def Options.settings (options : Options) : Settings := ⟨options.threshold?, options.maxRounds?⟩

def Options.solve (options : Options) (a : Automaton) : Except AutomatonError Solver := do
  (← Solver.start (options.configure a) options.settings).run

/-- The work on the contents of the file, `none` if it is not there. -/
def Options.run (options : Options) (contents? : Option ByteArray) :
    Except Dot.ReadError Result := do
  let a ← Dot.read contents?
  let s ← (options.solve a).mapError Dot.ReadError.automaton
  return ⟨report s options.node?, options.dot?.map fun path => (path, Dot.renderSolved .standard s)⟩

end OneCounter.Command
