import OneCounter.Count
import OneCounter.Text.Blank

/-!
Instructions: guards test the counter, deltas change it. Both are an operator and a constant,
and are written one after the other, as in `<=200` or `+2`.
-/

namespace OneCounter

inductive Operator where
  | atLeast
  | atMost
  | equal
  | add
  | sub
deriving DecidableEq

structure Instr where
  op : Operator
  constant : Count
deriving DecidableEq

/-- Why a text is no instruction. -/
inductive InstrError where
  | empty
  | unsupportedOperator (text : String)
  | invalidConstant (text : String)
deriving DecidableEq

def InstrError.message : InstrError → String
  | .empty => "empty expression"
  | .unsupportedOperator text => "unsupported operator `" ++ text ++ "`"
  | .invalidConstant text => "invalid constant `" ++ text ++ "`"

namespace Operator

def text : Operator → String
  | atLeast => ">="
  | atMost => "<="
  | equal => "="
  | add => "+"
  | sub => "-"

def isGuard : Operator → Bool
  | atLeast | atMost | equal => true
  | add | sub => false

def isDelta (op : Operator) : Bool := !op.isGuard

def parse (input : String) : Except InstrError Operator :=
  match [atLeast, atMost, equal, add, sub].find? (·.text == input) with
  | some op => .ok op
  | none => .error (.unsupportedOperator input)

end Operator

namespace Instr

def isGuard (instr : Instr) : Bool := instr.op.isGuard

/-- The change of the counter that a delta makes. The negative of the least counter value is
past the range and saturates. -/
def delta? (instr : Instr) : Option Count :=
  match instr.op with
  | .add => some instr.constant
  | .sub => some (-instr.constant)
  | _ => none

/-- Whether the change is past the range: only the subtraction of the least counter value. -/
def overflows (instr : Instr) : Bool := instr.op = .sub && instr.constant = .least

def isPositive (instr : Instr) : Bool := instr.delta?.any fun change => 0 < change

def isNegative (instr : Instr) : Bool := instr.delta?.any fun change => change < 0

/-- The counter after a delta. Guards leave it as it is. -/
def apply (instr : Instr) (value : Count) : Count := value + instr.delta?.getD 0

/-- Whether a guard accepts the value. Deltas accept every value. -/
def holds (instr : Instr) (value : Count) : Bool :=
  match instr.op with
  | .atLeast => instr.constant ≤ value
  | .atMost => value ≤ instr.constant
  | .equal => value = instr.constant
  | .add | .sub => true

def text (instr : Instr) : String := instr.op.text ++ instr.constant.text

/-- Divides a text before its constant: at the first digit, or at the first sign that is not
the first character. -/
def splitConstant : List Char → List Char × List Char
  | [] => ([], [])
  | first :: rest =>
      if first.isDigit then ([], first :: rest)
      else
        let (op, constant) := rest.span fun c => !(c.isDigit || c == '+' || c == '-')
        (first :: op, constant)

/-- Reads an instruction with white space around its parts. The constant of a delta has to be
non-negative. -/
def parse (input : String) : Except InstrError Instr := do
  let body := Text.trim input.toList
  if body.isEmpty then throw .empty
  let (front, back) := splitConstant body
  let op ← Operator.parse (String.ofList (Text.trim front))
  let digits := Text.trim back
  match Count.parse? digits with
  | none => throw (.invalidConstant (String.ofList digits))
  | some constant =>
      if op.isDelta && constant < 0 then throw (.invalidConstant constant.text)
      else return ⟨op, constant⟩

end Instr

end OneCounter
