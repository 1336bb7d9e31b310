import OneCounter.Automaton.Journal
import OneCounter.Dot.Draft

/-!
Reading an automaton from a graph file: tokens, items, the draft of the automaton with its
splits, and last the initial node and the loops.
-/

namespace OneCounter.Dot

def Document.draft (document : Document) : Draft := .ofItems document.name document.items

/-- The automaton of a document without faults. -/
def Document.automaton (document : Document) : Except ReadError Automaton :=
  match document.fault? with
  | some fault => .error fault
  | none =>
      let a := document.draft.split.automaton
      (a.resolveInitial.bind Automaton.discoverLoops).mapError .automaton

def parse (text : String) : Except ReadError Automaton := do
  let lexemes ← tokenize text
  let document ← Document.ofLexemes lexemes
  document.automaton

/-- The automaton in the bytes of a file, `none` for a file that is not there. -/
def read (contents? : Option ByteArray) : Except ReadError Automaton :=
  match contents? with
  | none => .error .missingFile
  | some bytes =>
      match String.fromUTF8? bytes with
      | none => .error .notUtf8
      | some text => parse text

/-! ### Messages -/

def Item.events : Item → List Event
  | graphAttribute key value => [.graphAttributeSkipped key value]
  | defaults _ => []
  | statement s =>
      (s.attributes.filter fun attr => !Draft.understands s attr).map
        fun attr => .attributeIgnored attr.key attr.value

def Split.event : Split → Event
  | edge start stop fresh guard => .edgeSplit start stop fresh guard
  | node name fresh delta => .nodeSplit name fresh delta

/-- Messages about the initial node, and about the loops if there is one. -/
def resolvingEvents (a : Automaton) : List Event :=
  a.resolveInitialEvents ++
    match a.resolveInitial with
    | .ok a => a.discoverLoopsEvents
    | .error _ => []

/-- A fault keeps the messages about the items before it. -/
def Document.events (document : Document) : List Event :=
  document.items.flatMap Item.events ++
    match document.fault? with
    | some _ => []
    | none =>
        document.draft.split.splits.map Split.event ++
          resolvingEvents document.draft.split.automaton

def parseEvents (text : String) : List Event :=
  match tokenize text >>= Document.ofLexemes with
  | .ok document => document.events
  | .error _ => []

end OneCounter.Dot
