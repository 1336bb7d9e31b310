import OneCounter.Dot.Draft
import OneCounter.Proofs.Dot.Lexing
import OneCounter.Proofs.Grammar

/-!
Instructions as labels. Main statements: an instruction that can be read is read back from its
text as a label, and its text can be written in quotes.
-/

namespace OneCounter

/-! ### Instructions -/

namespace Instr

theorem mem_text {instr : Instr} {c : Char} (member : c ∈ instr.text.toList) :
    c ∉ ['\n', '\\'] := by
  rw [toList_text, List.mem_append] at member
  rcases member with inOp | inConstant
  · have plain : instr.op.text.toList.all (· ∉ ['\n', '\\']) = true := by
      cases instr.op <;> decide
    simpa using List.all_eq_true.mp plain c inOp
  · have inside := (Text.numeral_decimal _).isNumeralChar_of_mem c inConstant
    rintro bad
    rcases List.mem_cons.mp bad with rfl | bad
    · exact absurd inside (by decide)
    · rw [List.mem_singleton.mp bad] at inside
      exact absurd inside (by decide)

theorem quotable_text (instr : Instr) : Dot.Quotable instr.text.toList :=
  Dot.quotable_of_notMem fun member => mem_text member (by simp)

end Instr

/-! ### Labels -/

namespace Dot

theorem lineChars_eq_self {text : List Char} (oneLine : ∀ c ∈ text, c ∉ ['\n', '\\']) :
    lineChars text = text := by
  induction text with
  | nil => rfl
  | cons c rest ih =>
      have plain := oneLine c (by simp)
      simp only [List.mem_cons, List.not_mem_nil, or_false, not_or] at plain
      rw [lineChars, ih fun d member => oneLine d (List.mem_cons_of_mem _ member)]
      · exact plain.1
      · intro tail slash
        exact absurd slash plain.2

theorem labelInstr?_text {instr : Instr} (readable : instr.Readable) :
    labelInstr? instr.text = some instr := by
  rw [labelInstr?, lineChars_eq_self fun _ => Instr.mem_text, String.ofList_toList,
    Instr.parse_text readable]
  rfl

theorem readable_of_labelInstr? {label : String} {instr : Instr}
    (found : labelInstr? label = some instr) : instr.Readable := by
  unfold labelInstr? at found
  cases parsed : Instr.parse (String.ofList (lineChars label.toList)) with
  | error fault => rw [parsed] at found; cases found
  | ok read =>
      rw [parsed] at found
      cases found
      exact Instr.readable_of_parse parsed

end Dot

end OneCounter
