import OneCounter.Dot.Token

/-!
Graph files as lists of items. A node statement names one node, an edge statement a chain of
nodes; both may have attributes. Items that say nothing about the automaton are kept apart.
-/

namespace OneCounter.Dot

structure Attribute where
  key : String
  value : String
deriving DecidableEq

/-- The nodes of a chain, one for a node statement, and the attributes after them. -/
structure Statement where
  first : String
  others : List String
  attributes : List Attribute
deriving DecidableEq

namespace Statement

def nodes (s : Statement) : List String := s.first :: s.others

def isEdge (s : Statement) : Bool := !s.others.isEmpty

/-- The edges of the chain. -/
def pairs (s : Statement) : List (String × String) := s.nodes.zip s.others

end Statement

inductive Item where
  | graphAttribute (key value : String)
  | defaults (attributes : List Attribute)
  | statement (s : Statement)
deriving DecidableEq

/-- The items up to the end of the graph, or up to a fault. -/
structure Document where
  name : String
  items : List Item
  fault? : Option ReadError
deriving DecidableEq

/-- Faults carry the line of the token they occur at; past the last token, the line of that. -/
def unexpected (lastLine : Nat) : List Lexeme → ReadError
  | [] => .unexpectedToken lastLine "end of input"
  | lexeme :: _ => .unexpectedToken lexeme.line lexeme.token.text

/-- The further nodes of a chain, and the tokens after them. -/
def chain (lastLine : Nat) : List Lexeme → Except ReadError (List String × List Lexeme)
  | ⟨_, .arrow⟩ :: ⟨_, .id name⟩ :: rest =>
      (chain lastLine rest).map fun result => (name :: result.1, result.2)
  | ⟨_, .arrow⟩ :: rest => .error (unexpected lastLine rest)
  | rest => .ok ([], rest)

/-- Any number of attribute blocks, from outside or from inside one, and the tokens after
them. -/
def attributes (lastLine : Nat) :
    Bool → List Lexeme → Except ReadError (List Attribute × List Lexeme)
  | false, ⟨_, .leftBracket⟩ :: rest => attributes lastLine true rest
  | false, rest => .ok ([], rest)
  | true, ⟨_, .rightBracket⟩ :: rest => attributes lastLine false rest
  | true, ⟨_, .comma⟩ :: rest => attributes lastLine true rest
  | true, ⟨_, .semicolon⟩ :: rest => attributes lastLine true rest
  | true, ⟨_, .id key⟩ :: ⟨_, .equals⟩ :: ⟨_, .id value⟩ :: rest =>
      (attributes lastLine true rest).map fun result => (⟨key, value⟩ :: result.1, result.2)
  | true, ⟨_, .id _⟩ :: ⟨_, .equals⟩ :: rest => .error (unexpected lastLine rest)
  | true, ⟨_, .id _⟩ :: rest => .error (unexpected lastLine rest)
  | true, rest => .error (unexpected lastLine rest)

/-- A node or edge statement after its first node. -/
def statement (lastLine : Nat) (first : String) (input : List Lexeme) :
    Except ReadError (Statement × List Lexeme) := do
  let (others, afterNodes) ← chain lastLine input
  let (attributes, rest) ← attributes lastLine false afterNodes
  return (⟨first, others, attributes⟩, rest)

theorem chain_length {lastLine : Nat} {input rest : List Lexeme} {names : List String}
    (parsed : chain lastLine input = .ok (names, rest)) : rest.length ≤ input.length := by
  fun_induction chain lastLine input generalizing names rest with
  | case1 _ name _ tail ih =>
      cases inner : chain lastLine tail with
      | error => simp [inner, Except.map] at parsed
      | ok result =>
          have := ih inner
          simp only [inner, Except.map, Except.ok.injEq, Prod.mk.injEq] at parsed
          simp only [List.length_cons, ← parsed.2]
          omega
  | case2 => simp at parsed
  | case3 => simp at parsed; simp [parsed]

theorem attributes_length {lastLine : Nat} {inside : Bool} {input rest : List Lexeme}
    {found : List Attribute}
    (parsed : attributes lastLine inside input = .ok (found, rest)) :
    rest.length ≤ input.length := by
  fun_induction attributes lastLine inside input generalizing found rest with
  | case1 _ tail ih => exact Nat.le_succ_of_le (ih parsed)
  | case2 => simp at parsed; simp [parsed]
  | case3 _ tail ih => exact Nat.le_succ_of_le (ih parsed)
  | case4 _ tail ih => exact Nat.le_succ_of_le (ih parsed)
  | case5 _ tail ih => exact Nat.le_succ_of_le (ih parsed)
  | case6 _ key _ _ value tail ih =>
      cases inner : attributes lastLine true tail with
      | error => simp [inner, Except.map] at parsed
      | ok result =>
          have := ih inner
          simp only [inner, Except.map, Except.ok.injEq, Prod.mk.injEq] at parsed
          simp only [List.length_cons, ← parsed.2]
          omega
  | case7 => simp at parsed
  | case8 => simp at parsed
  | case9 => simp at parsed

theorem statement_length {lastLine : Nat} {first : String} {input rest : List Lexeme}
    {found : Statement} (parsed : statement lastLine first input = .ok (found, rest)) :
    rest.length ≤ input.length := by
  unfold statement at parsed
  cases nodes : chain lastLine input with
  | error => simp [nodes, bind, Except.bind] at parsed
  | ok names =>
      cases block : attributes lastLine false names.2 with
      | error => simp [nodes, block, bind, Except.bind] at parsed
      | ok result =>
          simp [nodes, block, bind, Except.bind, pure, Except.pure] at parsed
          have := chain_length nodes
          have := attributes_length block
          rw [← parsed.2]
          omega

def isDefaultsName (name : String) : Bool := name == "node" || name == "edge" || name == "graph"

/-- The items up to the closing brace, or up to the end if it is missing. -/
def items (lastLine : Nat) : List Lexeme → List Item × Option ReadError
  | [] => ([], none)
  | ⟨_, .rightBrace⟩ :: _ => ([], none)
  | ⟨_, .semicolon⟩ :: rest => items lastLine rest
  | ⟨_, .comma⟩ :: rest => items lastLine rest
  | ⟨_, .id key⟩ :: ⟨_, .equals⟩ :: ⟨_, .id value⟩ :: rest =>
      let more := items lastLine rest
      (.graphAttribute key value :: more.1, more.2)
  | ⟨_, .id _⟩ :: ⟨_, .equals⟩ :: rest => ([], some (unexpected lastLine rest))
  | ⟨_, .id name⟩ :: ⟨line, .leftBracket⟩ :: rest =>
      if isDefaultsName name then
        match _ : attributes lastLine true rest with
        | .ok (found, after) =>
            let more := items lastLine after
            (.defaults found :: more.1, more.2)
        | .error fault => ([], some fault)
      else
        match _ : statement lastLine name (⟨line, .leftBracket⟩ :: rest) with
        | .ok (found, after) =>
            let more := items lastLine after
            (.statement found :: more.1, more.2)
        | .error fault => ([], some fault)
  | ⟨_, .id name⟩ :: rest =>
      match _ : statement lastLine name rest with
      | .ok (found, after) =>
          let more := items lastLine after
          (.statement found :: more.1, more.2)
      | .error fault => ([], some fault)
  | rest => ([], some (unexpected lastLine rest))
termination_by input => input.length
decreasing_by
  · simp
  · simp
  · simp only [List.length_cons]
    omega
  · have := attributes_length (by assumption)
    simp only [List.length_cons]
    omega
  · have := statement_length (by assumption)
    simp only [List.length_cons] at this ⊢
    omega
  · have := statement_length (by assumption)
    simp only [List.length_cons]
    omega

/-- The line of the last token, 1 if there is none. -/
def lastLine (input : List Lexeme) : Nat := (input.getLast?.map Lexeme.line).getD 1

/-- The keyword of a graph, which may be called strict. -/
def keyword (input : List Lexeme) : Except ReadError (List Lexeme) :=
  let body := match input with
    | ⟨_, .id "strict"⟩ :: rest => rest
    | _ => input
  match body with
  | ⟨_, .id "digraph"⟩ :: rest => .ok rest
  | ⟨_, .id "graph"⟩ :: rest => .ok rest
  | _ => .error (.missingHeader ((body.head?.map Lexeme.line).getD (lastLine input)))

/-- The name of the graph, which may be missing, and the opening brace. -/
def header (input : List Lexeme) : Except ReadError (String × List Lexeme) := do
  let body ← keyword input
  let (name, rest) := match body with
    | ⟨_, .id name⟩ :: rest => (name, rest)
    | _ => ("automaton", body)
  match rest with
  | ⟨_, .leftBrace⟩ :: rest => return (name, rest)
  | _ => throw (unexpected (lastLine input) rest)

def Document.ofLexemes (input : List Lexeme) : Except ReadError Document := do
  let (name, rest) ← header input
  let body := Dot.items (lastLine input) rest
  return ⟨name, body.1, body.2⟩

end OneCounter.Dot
