import OneCounter.Count
import OneCounter.Text.Blank

/-!
Ends of intervals: a counter value, or an infinity on either side of all of them.
-/

namespace OneCounter

inductive Bound where
  | negInf
  | finite (value : Count)
  | posInf
deriving DecidableEq

namespace Bound

instance : OfNat Bound 0 := ⟨finite 0⟩

instance : Inhabited Bound := ⟨0⟩

protected def lt : Bound → Bound → Prop
  | negInf, negInf => False
  | negInf, _ => True
  | finite a, finite b => a < b
  | finite _, posInf => True
  | _, _ => False

instance : LT Bound := ⟨Bound.lt⟩

instance : LE Bound := ⟨fun a b => ¬ b < a⟩

instance decLt : (a b : Bound) → Decidable (a < b)
  | negInf, negInf => isFalse id
  | negInf, finite _ => isTrue trivial
  | negInf, posInf => isTrue trivial
  | finite a, finite b => inferInstanceAs (Decidable (a < b))
  | finite _, posInf => isTrue trivial
  | finite _, negInf => isFalse id
  | posInf, negInf => isFalse id
  | posInf, finite _ => isFalse id
  | posInf, posInf => isFalse id

instance (a b : Bound) : Decidable (a ≤ b) := inferInstanceAs (Decidable (¬ b < a))

/-- Finite sums saturate; the sum of the two infinities is the upper one. -/
protected def add : Bound → Bound → Bound
  | finite a, finite b => finite (a + b)
  | posInf, _ | _, posInf => posInf
  | _, _ => negInf

/-- Finite differences saturate; an infinity less itself is zero. -/
protected def sub : Bound → Bound → Bound
  | finite a, finite b => finite (a - b)
  | negInf, negInf | posInf, posInf => 0
  | posInf, _ | _, negInf => posInf
  | _, _ => negInf

protected def neg : Bound → Bound
  | negInf => posInf
  | finite a => finite (-a)
  | posInf => negInf

instance : Add Bound := ⟨Bound.add⟩

instance : Sub Bound := ⟨Bound.sub⟩

instance : Neg Bound := ⟨Bound.neg⟩

def isFinite : Bound → Bool
  | finite _ => true
  | _ => false

def value? : Bound → Option Count
  | finite a => some a
  | _ => none

def text : Bound → String
  | negInf => "-inf"
  | finite a => a.text
  | posInf => "inf"

/-- A text that is no bound, without the white space around it. -/
structure ParseError where
  text : String
deriving DecidableEq

def ParseError.message (error : ParseError) : String :=
  "invalid bound `" ++ error.text ++ "`, expected an integer, `inf` or `-inf`"

/-- Reads an infinity or a signed decimal of the counter range, with white space around it. -/
def parse (input : String) : Except ParseError Bound :=
  let body := Text.trim input.toList
  let word := String.ofList body
  if word ∈ ["inf", "+inf", "infinity", "+infinity"] then .ok posInf
  else if word ∈ ["-inf", "-infinity"] then .ok negInf
  else match Count.parse? body with
    | some value => .ok (finite value)
    | none => .error ⟨word⟩

end Bound

end OneCounter
