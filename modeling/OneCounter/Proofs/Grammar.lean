import Mathlib.Data.List.Basic
import Mathlib.Data.List.Induction
import Mathlib.Data.List.TakeDrop
import Mathlib.Data.List.TakeWhile
import Mathlib.Data.Nat.Digits.Defs
import OneCounter.Instr

/-!
The grammar of instructions. A text spells an instruction if it consists of the operator and a
numeral, with white space allowed before, between and after them. Main statement: the texts that can
be read are those that spell an instruction whose constant is a counter value, and not negative if
it is a delta.
-/

namespace OneCounter

namespace Text

/-! ### White space -/

def Blank (text : List Char) : Prop := ∀ c ∈ text, isBlank c = true

theorem blank_nil : Blank [] := by simp [Blank]

theorem Blank.append {left right : List Char} (first : Blank left) (second : Blank right) :
    Blank (left ++ right) :=
  List.forall_mem_append.mpr ⟨first, second⟩

theorem blank_takeWhile (text : List Char) : Blank (text.takeWhile isBlank) :=
  fun _ => List.mem_takeWhile_imp

/-- A text is what is left of it after trimming, with white space around. -/
theorem exists_eq_trim (text : List Char) :
    ∃ lead tail, Blank lead ∧ Blank tail ∧ text = lead ++ trim text ++ tail := by
  have front := (List.takeWhile_append_dropWhile (p := isBlank) (l := text)).symm
  have back := (List.takeWhile_append_dropWhile (p := isBlank)
    (l := (text.dropWhile isBlank).reverse)).symm
  have rest := congrArg List.reverse back
  rw [List.reverse_reverse, List.reverse_append] at rest
  refine ⟨text.takeWhile isBlank, ((text.dropWhile isBlank).reverse.takeWhile isBlank).reverse,
    blank_takeWhile text, ?_, ?_⟩
  · intro c member
    exact blank_takeWhile _ c (List.mem_reverse.mp member)
  · rw [trim, List.append_assoc, ← rest]
    exact front

/-- White space around a text is trimmed away. -/
theorem trim_padded {lead body tail : List Char} (before : Blank lead) (after : Blank tail) :
    trim (lead ++ body ++ tail) = trim body := by
  have nothing : tail.dropWhile isBlank = [] := List.dropWhile_eq_nil_iff.mpr after
  rw [trim, List.append_assoc, List.dropWhile_append_of_pos before, List.dropWhile_append]
  split
  · next empty =>
      rw [List.isEmpty_iff] at empty
      rw [nothing, trim, empty]
  · rw [List.reverse_append, List.dropWhile_append_of_pos
      fun c member => after c (List.mem_reverse.mp member), trim]

/-! ### Numerals -/

/-- One or more decimal digits. -/
structure Digits (text : List Char) : Prop where
  nonempty : text ≠ []
  digits : ∀ c ∈ text, c.isDigit = true

/-- What decimal digits stand for: the last one counts once, the one before it ten times. -/
def amount (text : List Char) : ℕ :=
  Nat.ofDigits 10 (text.reverse.map fun c => c.toNat - '0'.toNat)

/-- An optional sign that is directly followed by one or more digits, and its value. -/
inductive Numeral : List Char → ℤ → Prop where
  | unsigned {text : List Char} (digits : Digits text) : Numeral text (amount text)
  | plus {text : List Char} (digits : Digits text) : Numeral ('+' :: text) (amount text)
  | minus {text : List Char} (digits : Digits text) : Numeral ('-' :: text) (-amount text)

theorem ofDigitChars_eq_amount (text : List Char) : Nat.ofDigitChars 10 text 0 = amount text := by
  induction text using List.reverseRecOn with
  | nil => rfl
  | append_singleton rest c ih =>
      rw [Nat.ofDigitChars_append, ih, amount, amount, List.reverse_append, List.reverse_singleton,
        List.singleton_append, List.map_cons, Nat.ofDigits_cons, Nat.ofDigitChars_cons]
      exact Nat.add_comm _ _

theorem readNat?_eq_some_iff (text : List Char) (n : ℕ) :
    readNat? text = some n ↔ Digits text ∧ n = amount text := by
  rw [readNat?, ofDigitChars_eq_amount, Option.ite_none_right_eq_some, Option.some.injEq,
    List.all_eq_true]
  constructor
  · rintro ⟨⟨nonempty, digits⟩, rfl⟩
    exact ⟨⟨nonempty, digits⟩, rfl⟩
  · rintro ⟨⟨nonempty, digits⟩, rfl⟩
    exact ⟨⟨nonempty, digits⟩, rfl⟩

theorem readInt?_eq_some_iff (text : List Char) (n : ℤ) :
    readInt? text = some n ↔ Numeral text n := by
  constructor
  · intro read
    unfold readInt? at read
    split at read
    all_goals
      obtain ⟨m, found, rfl⟩ := Option.map_eq_some_iff.mp read
      obtain ⟨digits, rfl⟩ := (readNat?_eq_some_iff _ m).mp found
    · exact .plus digits
    · exact .minus digits
    · exact .unsigned digits
  · intro numeral
    cases numeral with
    | unsigned digits =>
        obtain ⟨c, rest, rfl⟩ := List.exists_cons_of_ne_nil digits.nonempty
        rw [readInt?_of_isDigit rest (digits.digits c List.mem_cons_self),
          (readNat?_eq_some_iff _ _).mpr ⟨digits, rfl⟩]
        rfl
    | plus digits => rw [readInt?, (readNat?_eq_some_iff _ _).mpr ⟨digits, rfl⟩]; rfl
    | minus digits => rw [readInt?, (readNat?_eq_some_iff _ _).mpr ⟨digits, rfl⟩]; rfl

/-- Digits and signs. -/
def isNumeralChar (c : Char) : Bool := c.isDigit || c == '+' || c == '-'

theorem isBlank_of_isNumeralChar {c : Char} (inside : isNumeralChar c = true) :
    isBlank c = false := by
  simp only [isNumeralChar, Bool.or_eq_true, beq_iff_eq] at inside
  rcases inside with (digit | rfl) | rfl
  · rw [Char.isDigit_iff_toNat] at digit
    change 48 ≤ c.toNat ∧ c.toNat ≤ 57 at digit
    simp only [isBlank, Bool.or_eq_false_iff, Bool.and_eq_false_iff, decide_eq_false_iff_not,
      beq_eq_false_iff_ne]
    omega
  · decide
  · decide

theorem isNumeralChar_of_isBlank {c : Char} (blank : isBlank c = true) :
    isNumeralChar c = false := by
  rw [← Bool.not_eq_true]
  intro inside
  rw [isBlank_of_isNumeralChar inside] at blank
  cases blank

namespace Numeral

variable {text : List Char} {n : ℤ}

theorem ne_nil (numeral : Numeral text n) : text ≠ [] := by
  cases numeral with
  | unsigned digits => exact digits.nonempty
  | plus digits => exact List.cons_ne_nil _ _
  | minus digits => exact List.cons_ne_nil _ _

theorem isNumeralChar_of_mem (numeral : Numeral text n) : ∀ c ∈ text, isNumeralChar c = true := by
  have digit {list : List Char} (digits : Digits list) : ∀ c ∈ list, isNumeralChar c = true := by
    intro c member
    simp [isNumeralChar, digits.digits c member]
  cases numeral with
  | unsigned digits => exact digit digits
  | plus digits => exact List.forall_mem_cons.mpr ⟨rfl, digit digits⟩
  | minus digits => exact List.forall_mem_cons.mpr ⟨rfl, digit digits⟩

theorem isBlank_eq_false (numeral : Numeral text n) {c : Char} (member : c ∈ text) :
    isBlank c = false :=
  isBlank_of_isNumeralChar (numeral.isNumeralChar_of_mem c member)

theorem trim_eq (numeral : Numeral text n) : trim text = text :=
  trim_eq_self text (fun _ first => numeral.isBlank_eq_false (List.mem_of_mem_head? first))
    fun _ last => numeral.isBlank_eq_false (List.mem_of_getLast? last)

end Numeral

theorem numeral_decimal (n : ℤ) : Numeral (decimal n) n :=
  (readInt?_eq_some_iff _ n).mp (readInt?_decimal n)

end Text

theorem Count.parse?_eq_some_iff (text : List Char) (value : Count) :
    parse? text = some value ↔ Text.Numeral text value.toInt := by
  rw [parse?, Option.bind_eq_some_iff]
  constructor
  · rintro ⟨n, read, inside⟩
    unfold ofInt? at inside
    split at inside
    · cases inside
      exact (Text.readInt?_eq_some_iff text n).mp read
    · cases inside
  · intro numeral
    exact ⟨value.toInt, (Text.readInt?_eq_some_iff _ _).mpr numeral, ofInt?_toInt value⟩

theorem Operator.parse_eq_ok_iff (input : String) (op : Operator) :
    parse input = .ok op ↔ input = op.text := by
  constructor
  · intro parsed
    unfold parse at parsed
    split at parsed
    · next found =>
        cases parsed
        have same := List.find?_some found
        exact (beq_iff_eq.mp same).symm
    · cases parsed
  · rintro rfl
    cases op <;> decide

namespace Instr

/-! ### Spellings -/

/-- The operator and a numeral of the integer, with white space before, between and after them. -/
inductive Spelled (op : Operator) (n : ℤ) : List Char → Prop where
  | parts {lead gap numeral tail : List Char} (before : Text.Blank lead) (between : Text.Blank gap)
      (value : Text.Numeral numeral n) (after : Text.Blank tail) :
      Spelled op n (lead ++ (op.text.toList ++ gap ++ numeral) ++ tail)

/-- Deltas are read with a non-negative constant only. -/
def Readable (instr : Instr) : Prop := instr.op.isDelta = true → 0 ≤ instr.constant

theorem splitConstant_append (text : List Char) :
    (splitConstant text).1 ++ (splitConstant text).2 = text := by
  cases text with
  | nil => rfl
  | cons c rest =>
      rw [splitConstant]
      split
      · rfl
      · simp [List.span_eq_takeWhile_dropWhile]

theorem exists_opText (op : Operator) : ∃ first rest, op.text.toList = first :: rest ∧
    first.isDigit = false ∧ Text.isBlank first = false ∧
      rest.all (!Text.isNumeralChar ·) = true := by
  cases op with
  | atLeast => exact ⟨'>', ['='], by decide, by decide, by decide, by decide⟩
  | atMost => exact ⟨'<', ['='], by decide, by decide, by decide, by decide⟩
  | equal => exact ⟨'=', [], by decide, by decide, by decide, by decide⟩
  | add => exact ⟨'+', [], by decide, by decide, by decide, by decide⟩
  | sub => exact ⟨'-', [], by decide, by decide, by decide, by decide⟩

section Spelled

variable (op : Operator) {gap numeral : List Char} {n : ℤ}

/-- Past the first character, the operator and the white space after it hold neither a digit nor a
sign. -/
theorem splitConstant_spelled (between : Text.Blank gap) (value : Text.Numeral numeral n) :
    splitConstant (op.text.toList ++ gap ++ numeral) = (op.text.toList ++ gap, numeral) := by
  obtain ⟨first, rest, listed, noDigit, _, plain⟩ := exists_opText op
  obtain ⟨c, others, rfl⟩ := List.exists_cons_of_ne_nil value.ne_nil
  have starts := value.isNumeralChar_of_mem c List.mem_cons_self
  have passed : ∀ d ∈ rest ++ gap, (!Text.isNumeralChar d) = true := by
    intro d member
    rcases List.mem_append.mp member with inOp | inGap
    · exact List.all_eq_true.mp plain d inOp
    · rw [Text.isNumeralChar_of_isBlank (between d inGap)]
      rfl
  have divided : (rest ++ gap ++ c :: others).span (fun d => !Text.isNumeralChar d) =
      (rest ++ gap, c :: others) := by
    rw [List.span_eq_takeWhile_dropWhile, List.takeWhile_append_of_pos passed,
      List.dropWhile_append_of_pos passed]
    simp [starts]
  rw [listed, List.cons_append, List.cons_append, splitConstant, if_neg (by simp [noDigit])]
  change (first :: ((rest ++ gap ++ c :: others).span fun d => !Text.isNumeralChar d).1,
    ((rest ++ gap ++ c :: others).span fun d => !Text.isNumeralChar d).2) = _
  rw [divided]

theorem trim_spelled (value : Text.Numeral numeral n) :
    Text.trim (op.text.toList ++ gap ++ numeral) = op.text.toList ++ gap ++ numeral := by
  obtain ⟨first, rest, listed, _, visible, _⟩ := exists_opText op
  apply Text.trim_eq_self
  · intro d leads
    rw [listed] at leads
    cases leads
    exact visible
  · intro d ends
    rw [List.getLast?_append_of_ne_nil _ value.ne_nil] at ends
    exact value.isBlank_eq_false (List.mem_of_getLast? ends)

end Spelled

/-- A text that spells an instruction is read as it, unless the instruction adds or subtracts a
negative constant. -/
theorem parse_spelled {input : String} {op : Operator} {constant : Count}
    (spelled : Spelled op constant.toInt input.toList) :
    parse input = if op.isDelta && constant < 0 then .error (.invalidConstant constant.text)
      else .ok ⟨op, constant⟩ := by
  generalize listed : input.toList = text at spelled
  obtain @⟨lead, gap, numeral, tail, before, between, value, after⟩ := spelled
  have body : Text.trim input.toList = op.text.toList ++ gap ++ numeral := by
    rw [listed, Text.trim_padded before after, trim_spelled op value]
  have nonempty : (op.text.toList ++ gap ++ numeral).isEmpty = false := by
    obtain ⟨first, rest, same, _⟩ := exists_opText op
    simp [same]
  have front : Text.trim (op.text.toList ++ gap) = op.text.toList := by
    have padded : Text.trim ([] ++ op.text.toList ++ gap) = Text.trim op.text.toList :=
      Text.trim_padded Text.blank_nil between
    rw [List.nil_append] at padded
    rw [padded]
    cases op <;> decide
  have operator := (Operator.parse_eq_ok_iff op.text op).mpr rfl
  have number := (Count.parse?_eq_some_iff numeral constant).mpr value
  unfold parse
  simp only [body, nonempty, splitConstant_spelled op between value, front, String.ofList_toList,
    operator, value.trim_eq, number]
  rfl

theorem parts_of_parse {input : String} {instr : Instr} (parsed : parse input = .ok instr) :
    Text.trim (splitConstant (Text.trim input.toList)).1 = instr.op.text.toList ∧
      Text.Numeral (Text.trim (splitConstant (Text.trim input.toList)).2) instr.constant.toInt := by
  unfold parse at parsed
  simp only [bind, Except.bind, pure, Except.pure, throw, throwThe, MonadExceptOf.throw] at parsed
  split at parsed
  · cases parsed
  · split at parsed
    · cases parsed
    · next op operator =>
        split at parsed
        · cases parsed
        · next constant number =>
            split at parsed
            · cases parsed
            · cases parsed
              have same := congrArg String.toList ((Operator.parse_eq_ok_iff _ op).mp operator)
              rw [String.toList_ofList] at same
              exact ⟨same, (Count.parse?_eq_some_iff _ constant).mp number⟩

/-- What is read of a text is spelled there. -/
theorem spelled_of_parse {input : String} {instr : Instr} (parsed : parse input = .ok instr) :
    Spelled instr.op instr.constant.toInt input.toList := by
  obtain ⟨operator, value⟩ := parts_of_parse parsed
  obtain ⟨lead, tail, before, after, whole⟩ := Text.exists_eq_trim input.toList
  generalize Text.trim input.toList = body at *
  obtain ⟨opLead, opTail, opBefore, opAfter, front⟩ := Text.exists_eq_trim (splitConstant body).1
  obtain ⟨lead', tail', before', after', back⟩ := Text.exists_eq_trim (splitConstant body).2
  have joined : body = (opLead ++ instr.op.text.toList ++ opTail) ++
      (lead' ++ Text.trim (splitConstant body).2 ++ tail') := by
    rw [← operator, ← front, ← back, splitConstant_append]
  have regrouped : input.toList = (lead ++ opLead) ++ (instr.op.text.toList ++ (opTail ++ lead') ++
      Text.trim (splitConstant body).2) ++ (tail' ++ tail) := by
    rw [whole]
    nth_rewrite 1 [joined]
    simp only [List.append_assoc]
  rw [regrouped]
  exact .parts (before.append opBefore) (opAfter.append before') value (after'.append after)

theorem readable_iff (instr : Instr) :
    instr.Readable ↔ (instr.op.isDelta && decide (instr.constant < 0)) = false := by
  rw [Readable, Bool.and_eq_false_imp, decide_eq_false_iff_not, Count.lt_iff, not_lt]
  rfl

theorem readable_of_isGuard {instr : Instr} (guard : instr.isGuard = true) : instr.Readable := by
  intro delta
  rw [Operator.isDelta, show instr.op.isGuard = true from guard] at delta
  cases delta

theorem readable_of_parse {input : String} {instr : Instr} (parsed : parse input = .ok instr) :
    instr.Readable := by
  rw [readable_iff]
  rw [parse_spelled (spelled_of_parse parsed)] at parsed
  split at parsed
  · cases parsed
  · next fine => exact Bool.eq_false_of_not_eq_true fine

theorem toList_text (instr : Instr) :
    instr.text.toList = instr.op.text.toList ++ Text.decimal instr.constant.toInt := by
  simp [text, Count.text]

theorem spelled_text (instr : Instr) :
    Spelled instr.op instr.constant.toInt instr.text.toList := by
  have bare : Spelled instr.op instr.constant.toInt
      ([] ++ (instr.op.text.toList ++ [] ++ Text.decimal instr.constant.toInt) ++ []) :=
    .parts Text.blank_nil Text.blank_nil (Text.numeral_decimal _) Text.blank_nil
  rw [toList_text]
  simpa using bare

theorem parse_text {instr : Instr} (readable : instr.Readable) : parse instr.text = .ok instr := by
  rw [parse_spelled (spelled_text instr), (readable_iff instr).mp readable]
  rfl

/-- The texts that are read, and in particular which instructions are read back as they are
written. -/
theorem parse_accepts_spellings :
    (∀ (input : String) (instr : Instr), parse input = .ok instr ↔
      Spelled instr.op instr.constant.toInt input.toList ∧
        (instr.op.isDelta = true → 0 ≤ instr.constant)) ∧
    ∀ instr : Instr, parse instr.text =
      if instr.op.isDelta && instr.constant < 0 then .error (.invalidConstant instr.constant.text)
      else .ok instr := by
  refine ⟨fun input instr => ⟨?_, ?_⟩, fun instr => parse_spelled (spelled_text instr)⟩
  · intro parsed
    exact ⟨spelled_of_parse parsed, readable_of_parse parsed⟩
  · rintro ⟨spelled, readable⟩
    rw [parse_spelled spelled, (readable_iff instr).mp readable]
    rfl

/-- White space of several kinds around the parts, a sign, and a leading zero. -/
theorem parse_padded : parse "\t<=\u3000+07 " = .ok ⟨.atMost, .clamp 7⟩ ∧
    parse (text ⟨.add, .clamp (-3)⟩) = .error (.invalidConstant (Count.clamp (-3)).text) := by
  have digits : Text.Digits ['0', '7'] :=
    ⟨List.cons_ne_nil _ _, List.forall_mem_cons.mpr ⟨rfl, List.forall_mem_singleton.mpr rfl⟩⟩
  have spelled : Spelled .atMost (Count.clamp 7).toInt
      (['\t'] ++ (Operator.atMost.text.toList ++ ['\u3000'] ++ '+' :: ['0', '7']) ++ [' ']) :=
    .parts (List.forall_mem_singleton.mpr rfl) (List.forall_mem_singleton.mpr rfl) (.plus digits)
      (List.forall_mem_singleton.mpr rfl)
  exact ⟨(parse_accepts_spellings.1 _ _).mpr ⟨spelled, fun delta => absurd delta (by decide)⟩,
    (parse_accepts_spellings.2 ⟨.add, .clamp (-3)⟩).trans (if_pos (by decide))⟩

end Instr

end OneCounter
