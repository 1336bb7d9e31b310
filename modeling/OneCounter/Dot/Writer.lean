import OneCounter.Solver.Basic

/-!
Writing an automaton as a graph file, by itself or with the values that the analysis has found
at its nodes.
-/

namespace OneCounter.Dot

structure Style where
  rankdir : String
  nodeShape : String
  initialShape : String
  unreachableStyle : String
  showLabels : Bool
deriving DecidableEq

def Style.standard : Style := ⟨"LR", "circle", "doublecircle", "dashed", true⟩

def quoteChars : List Char → List Char
  | [] => []
  | '"' :: rest => '\\' :: '"' :: quoteChars rest
  | c :: rest => c :: quoteChars rest

/-- In double quotes, with a backslash before each quote of the text. -/
def quote (text : String) : String :=
  String.ofList ('"' :: quoteChars text.toList ++ ['"'])

/-- The name of a node and on further lines its arrivals. -/
def solvedLabel (name : String) (arrivals : Arrivals) : String :=
  name ++ String.join (arrivals.entries.map fun entry =>
    "\\n" ++ Arrivals.line entry.1 entry.2)

/-- Hidden nodes and the initial one look different. -/
def appearance (style : Style) (a : Automaton) (name : String) (data : NodeData) : List String :=
  if data.hidden then ["style=invis"]
  else if a.isInitial name then ["shape=" ++ style.initialShape]
  else []

def guardAttribute (data : NodeData) : List String :=
  data.condition?.toList.map fun condition => "xlabel=" ++ quote condition.text

def labelAttribute (style : Style) (label? : Option String) : List String :=
  if style.showLabels then label?.toList.map fun label => "label=" ++ quote label else []

/-- The arrivals take the place of the label. -/
def solvedAttributes (style : Style) (name : String) (arrivals : Arrivals) : List String :=
  ("label=" ++ quote (solvedLabel name arrivals)) ::
    (if arrivals.isReachable then [] else ["style=" ++ style.unreachableStyle])

def nodeLine (name : String) (attributes : List String) : String :=
  if attributes.isEmpty then quote name ++ ";\n"
  else quote name ++ " [" ++ ", ".intercalate attributes ++ "];\n"

/-- An operation takes the place of the label. -/
def edgeLabel? (style : Style) (edge : Edge) : Option String :=
  match edge.operation?, edge.label? with
  | some operation, _ => some operation.text
  | none, some label => if style.showLabels then some label else none
  | none, none => none

def edgeLine (style : Style) (edge : Edge) : String :=
  quote edge.start ++ " -> " ++ quote edge.stop ++
    match edgeLabel? style edge with
    | some label => " [label=" ++ quote label ++ "];\n"
    | none => ";\n"

/-- The file, given what each node says besides its appearance and its guard. -/
def renderWith (style : Style) (a : Automaton) (extra : String → NodeData → List String) : String :=
  "digraph " ++ quote a.name ++ " \x7b\n" ++
  "rankdir=" ++ style.rankdir ++ ";\n" ++
  "node [shape=" ++ style.nodeShape ++ "];\n" ++
  String.join (a.nodes.entries.map fun entry =>
    nodeLine entry.1 (appearance style a entry.1 entry.2 ++ guardAttribute entry.2 ++
      extra entry.1 entry.2)) ++
  String.join (a.edges.map (edgeLine style)) ++
  "\x7d\n"

def render (style : Style) (a : Automaton) : String :=
  renderWith style a fun _ data => labelAttribute style data.label?

def renderSolved (style : Style) (s : Solver) : String :=
  renderWith style s.automaton fun name data =>
    if data.hidden then labelAttribute style data.label?
    else solvedAttributes style name ((s.live.get? name).getD .empty)

end OneCounter.Dot
