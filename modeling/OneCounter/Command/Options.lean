import OneCounter.Bound

/-!
The arguments of the command line: one file, and options that stand before or after it. An
option takes its value from behind an equals sign or from the next argument.
-/

namespace OneCounter.Command

structure Options where
  file : String
  node? : Option String
  start : Count
  lower : Bound
  upper : Bound
  threshold? : Option Nat
  maxRounds? : Option Nat
  dot? : Option String
  debug : Bool

/-- Why the arguments do not lead to an analysis. -/
inductive Stop where
  | help
  | badArguments
deriving DecidableEq

def Stop.exitCode : Stop → UInt32
  | help => 0
  | badArguments => 2

/-- The options given so far. -/
structure Given where
  file? : Option String := none
  node? : Option String := none
  start? : Option Count := none
  lower? : Option Bound := none
  upper? : Option Bound := none
  threshold? : Option Nat := none
  maxRounds? : Option Nat := none
  dot? : Option String := none
  debug : Bool := false

/-- The options that take a value. -/
inductive Key where
  | node
  | start
  | lower
  | upper
  | threshold
  | maxRounds
  | dot
deriving DecidableEq

def Key.ofName? : String → Option Key
  | "node" => some .node
  | "start" => some .start
  | "low" => some .lower
  | "high" => some .upper
  | "threshold" => some .threshold
  | "max-rounds" => some .maxRounds
  | "dot" => some .dot
  | _ => none

/-- Counter values may start with a minus sign, so their options take any next argument. -/
def Key.takesAny : Key → Bool
  | .start | .lower | .upper => true
  | _ => false

/-- A natural number of 64 bits, which may have a plus sign. -/
def readSize? (text : String) : Option Nat :=
  let digits := match text.toList with
    | '+' :: rest => rest
    | other => other
  (Text.readNat? digits).filter (· ≤ 18446744073709551615)

/-- A path is not empty. -/
def readPath? (text : String) : Option String := if text = "" then none else some text

/-- Fills a place that is still free with a value that could be read. -/
def fill {α : Type} (old? new? : Option α) : Except Stop (Option α) :=
  match old?, new? with
  | none, some value => .ok (some value)
  | _, _ => .error .badArguments

namespace Given

def setFile (given : Given) (value : String) : Except Stop Given := do
  return { given with file? := ← fill given.file? (readPath? value) }

def setValue (given : Given) (key : Key) (value : String) : Except Stop Given := do
  match key with
  | .node => return { given with node? := ← fill given.node? (some value) }
  | .start => return { given with start? := ← fill given.start? (Count.parse? value.toList) }
  | .lower => return { given with lower? := ← fill given.lower? (Bound.parse value).toOption }
  | .upper => return { given with upper? := ← fill given.upper? (Bound.parse value).toOption }
  | .threshold => return { given with threshold? := ← fill given.threshold? (readSize? value) }
  | .maxRounds => return { given with maxRounds? := ← fill given.maxRounds? (readSize? value) }
  | .dot => return { given with dot? := ← fill given.dot? (readPath? value) }

/-- A flag or a question, which take no value. -/
def setFlag (given : Given) (name : String) : Except Stop Given :=
  if name = "debug" && !given.debug then .ok { given with debug := true }
  else if name = "help" || name = "version" then .error .help
  else .error .badArguments

def options (given : Given) : Except Stop Options :=
  match given.file? with
  | none => .error .badArguments
  | some file =>
      .ok
        { file := file
          node? := given.node?
          start := given.start?.getD 0
          lower := given.lower?.getD .negInf
          upper := given.upper?.getD .posInf
          threshold? := given.threshold?
          maxRounds? := given.maxRounds?
          dot? := given.dot?
          debug := given.debug }

end Given

/-- How an argument looks before it is known where it stands. -/
inductive Argument where
  /-- Two dashes alone end the options. -/
  | endOfOptions
  | long (name : String) (value? : Option String)
  | short (letters : List Char)
  | plain (text : String)

/-- Divides at the first equals sign. -/
def splitValue (text : List Char) : String × Option String :=
  match text.span (· ≠ '=') with
  | (name, []) => (String.ofList name, none)
  | (name, _ :: value) => (String.ofList name, some (String.ofList value))

def Argument.ofString (text : String) : Argument :=
  match text.toList with
  | ['-', '-'] => .endOfOptions
  | '-' :: '-' :: body => .long (splitValue body).1 (splitValue body).2
  | ['-'] => .plain text
  | '-' :: letters => .short letters
  | _ => .plain text

/-- The letters for help and for the version. -/
def shortStop : List Char → Stop
  | 'h' :: _ | 'V' :: _ => .help
  | _ => .badArguments

/-- The next argument as the value of an option. -/
def acceptsValue (key : Key) (text : String) : Bool :=
  key.takesAny ||
    match Argument.ofString text with
    | .plain _ => true
    | _ => false

/-- Takes the arguments in turn; the first fault or question ends it. -/
def collect (given : Given) : List String → Except Stop Given
  | [] => .ok given
  | argument :: rest =>
      match Argument.ofString argument with
      | .endOfOptions => rest.foldlM Given.setFile given
      | .plain text => do collect (← given.setFile text) rest
      | .short letters => .error (shortStop letters)
      | .long name value? =>
          match Key.ofName? name, value? with
          | some key, some value => do collect (← given.setValue key value) rest
          | some key, none =>
              match rest with
              | [] => .error .badArguments
              | value :: rest =>
                  if acceptsValue key value then do collect (← given.setValue key value) rest
                  else .error .badArguments
          | none, some _ => .error .badArguments
          | none, none => do collect (← given.setFlag name) rest

def Options.parse (arguments : List String) : Except Stop Options := do
  (← collect {} arguments).options

end OneCounter.Command
