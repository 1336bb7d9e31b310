/-!
Decimal integers: how they are written and which texts are read as one. Reading accepts a
sign of either kind and leading zeros; what is written reads back.
-/

namespace OneCounter.Text

/-- Digits without leading zeros, after a minus sign for a negative number. -/
def decimal : Int → List Char
  | .ofNat n => Nat.toDigits 10 n
  | .negSucc n => '-' :: Nat.toDigits 10 (n + 1)

/-- One or more digits. -/
def readNat? (text : List Char) : Option Nat :=
  if text ≠ [] ∧ text.all Char.isDigit then some (Nat.ofDigitChars 10 text 0) else none

/-- An optional sign and one or more digits. -/
def readInt? : List Char → Option Int
  | '+' :: digits => (readNat? digits).map Int.ofNat
  | '-' :: digits => (readNat? digits).map fun n => -Int.ofNat n
  | digits => (readNat? digits).map Int.ofNat

theorem readNat?_toDigits (n : Nat) : readNat? (Nat.toDigits 10 n) = some n := by
  have digits : (Nat.toDigits 10 n).all Char.isDigit = true :=
    List.all_eq_true.mpr fun _ member =>
      Nat.isDigit_of_mem_toDigits (by decide) (by decide) member
  simp [readNat?, Nat.toDigits_ne_nil, digits, Nat.ofDigitChars_ten_toDigits]

theorem readInt?_of_isDigit {first : Char} (rest : List Char) (digit : first.isDigit = true) :
    readInt? (first :: rest) = (readNat? (first :: rest)).map Int.ofNat := by
  unfold readInt?
  split
  · next same => injection same with same; subst same; simp at digit
  · next same => injection same with same; subst same; simp at digit
  · rfl

theorem readInt?_decimal (n : Int) : readInt? (decimal n) = some n := by
  cases n with
  | ofNat n =>
      have whole := readNat?_toDigits n
      cases digits : Nat.toDigits 10 n with
      | nil => exact absurd digits Nat.toDigits_ne_nil
      | cons first rest =>
          have digit : first.isDigit = true :=
            Nat.isDigit_of_mem_toDigits (b := 10) (n := n) (by decide) (by decide)
              (by simp [digits])
          rw [digits] at whole
          rw [decimal, digits, readInt?_of_isDigit rest digit, whole]
          rfl
  | negSucc n =>
      simp only [decimal, readInt?, readNat?_toDigits, Option.map_some]
      rfl

end OneCounter.Text
