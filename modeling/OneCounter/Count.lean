import OneCounter.Text.Decimal

/-!
Counter values. A counter holds an integer of the signed 64-bit range, and its arithmetic
saturates: a result past either end of the range becomes that end.
-/

namespace OneCounter

structure Count where
  toInt : Int
  least_le : -9223372036854775808 ≤ toInt
  le_greatest : toInt ≤ 9223372036854775807
deriving DecidableEq

namespace Count

def least : Count := ⟨-9223372036854775808, by decide, by decide⟩

def greatest : Count := ⟨9223372036854775807, by decide, by decide⟩

/-- The counter value closest to an integer. -/
def clamp (n : Int) : Count :=
  ⟨max (-9223372036854775808) (min n 9223372036854775807), by omega, by omega⟩

/-- The integer as a counter value, if it is one. -/
def ofInt? (n : Int) : Option Count :=
  if inside : -9223372036854775808 ≤ n ∧ n ≤ 9223372036854775807 then
    some ⟨n, inside.1, inside.2⟩
  else none

instance : OfNat Count 0 := ⟨⟨0, by decide, by decide⟩⟩

instance : Inhabited Count := ⟨0⟩

instance : LT Count := ⟨fun a b => a.toInt < b.toInt⟩

instance : LE Count := ⟨fun a b => a.toInt ≤ b.toInt⟩

instance (a b : Count) : Decidable (a < b) := inferInstanceAs (Decidable (a.toInt < b.toInt))

instance (a b : Count) : Decidable (a ≤ b) := inferInstanceAs (Decidable (a.toInt ≤ b.toInt))

instance : Add Count := ⟨fun a b => clamp (a.toInt + b.toInt)⟩

instance : Sub Count := ⟨fun a b => clamp (a.toInt - b.toInt)⟩

instance : Neg Count := ⟨fun a => clamp (-a.toInt)⟩

def text (a : Count) : String := String.ofList (Text.decimal a.toInt)

/-- Reads a signed decimal of the counter range. -/
def parse? (text : List Char) : Option Count := (Text.readInt? text).bind ofInt?

@[ext]
theorem ext {a b : Count} (same : a.toInt = b.toInt) : a = b := by
  cases a; cases b; cases same; rfl

theorem toInt_clamp (n : Int) :
    (clamp n).toInt = max (-9223372036854775808) (min n 9223372036854775807) := rfl

theorem clamp_toInt (a : Count) : clamp a.toInt = a := by
  apply ext
  have := a.least_le
  have := a.le_greatest
  rw [toInt_clamp]
  omega

theorem ofInt?_toInt (a : Count) : ofInt? a.toInt = some a := by
  simp [ofInt?, a.least_le, a.le_greatest]

theorem lt_iff (a b : Count) : a < b ↔ a.toInt < b.toInt := Iff.rfl

theorem le_iff (a b : Count) : a ≤ b ↔ a.toInt ≤ b.toInt := Iff.rfl

theorem toInt_zero : (0 : Count).toInt = 0 := rfl

theorem toInt_add (a b : Count) : (a + b).toInt = (clamp (a.toInt + b.toInt)).toInt := rfl

theorem toInt_sub (a b : Count) : (a - b).toInt = (clamp (a.toInt - b.toInt)).toInt := rfl

theorem toInt_neg (a : Count) : (-a).toInt = (clamp (-a.toInt)).toInt := rfl

end Count

end OneCounter
