import OneCounter.Automaton.Basic
import OneCounter.Text.Alphanumeric
import OneCounter.Text.Blank

/-!
The tokens of graph files. Names are written bare or in double quotes and mean the same
either way. Comments run to the end of the line. Every token knows the line it starts on.
-/

namespace OneCounter.Dot

/-- Why a graph file cannot be read. -/
inductive ReadError where
  | missingFile
  | notUtf8
  | unterminatedString (line : Nat)
  | unexpectedToken (line : Nat) (token : String)
  | missingHeader (line : Nat)
  | automaton (cause : AutomatonError)
deriving DecidableEq

def ReadError.message : ReadError → String
  | missingFile => "IO error: No such file or directory (os error 2)"
  | notUtf8 => "IO error: stream did not contain valid UTF-8"
  | unterminatedString line => s!"line {line}: unterminated string literal"
  | unexpectedToken line token => s!"line {line}: unexpected token `{token}`"
  | missingHeader line => s!"line {line}: statement outside of a `digraph` block"
  | automaton cause => cause.message

inductive Token where
  | id (name : String)
  | arrow
  | leftBracket
  | rightBracket
  | equals
  | comma
  | semicolon
  | leftBrace
  | rightBrace
deriving DecidableEq

def Token.text : Token → String
  | id name => name
  | arrow => "->"
  | leftBracket => "["
  | rightBracket => "]"
  | equals => "="
  | comma => ","
  | semicolon => ";"
  | leftBrace => "\x7b"
  | rightBrace => "\x7d"

structure Lexeme where
  line : Nat
  token : Token
deriving DecidableEq

/-- The tokens of one character. -/
def punctuation? : Char → Option Token
  | '[' => some .leftBracket
  | ']' => some .rightBracket
  | '=' => some .equals
  | ',' => some .comma
  | ';' => some .semicolon
  | '\x7b' => some .leftBrace
  | '\x7d' => some .rightBrace
  | _ => none

def isWordChar (c : Char) : Bool :=
  Text.isAlphanumeric c || c == '_' || c == '.' || c == '+' || c == '-'

/-- An arrow is a dash before an angle or before another dash. -/
def startsArrow : List Char → Bool
  | '-' :: '>' :: _ => true
  | '-' :: '-' :: _ => true
  | _ => false

def startsComment : List Char → Bool
  | '#' :: _ => true
  | '/' :: '/' :: _ => true
  | _ => false

/-- The text up to the closing quote, and what follows the quote. A backslash takes the quote
after it into the text; any other backslash is text itself. -/
def quotedText? : List Char → Option (List Char × List Char)
  | [] => none
  | '"' :: rest => some ([], rest)
  | '\\' :: '"' :: rest => (quotedText? rest).map fun result => ('"' :: result.1, result.2)
  | c :: rest => (quotedText? rest).map fun result => (c :: result.1, result.2)

/-- A bare name ends at an arrow and at any character that names do not have. -/
def bareName : List Char → List Char × List Char
  | [] => ([], [])
  | c :: rest =>
      if isWordChar c && !startsArrow (c :: rest) then
        let tail := bareName rest
        (c :: tail.1, tail.2)
      else ([], c :: rest)

theorem quotedText?_length {input text rest : List Char}
    (found : quotedText? input = some (text, rest)) : rest.length < input.length := by
  fun_induction quotedText? input generalizing text rest with
  | case1 => simp at found
  | case2 tail => simp at found; simp [found]
  | case3 tail ih =>
      obtain ⟨result, inner, same⟩ := Option.map_eq_some_iff.mp found
      have := ih inner
      simp only [Prod.mk.injEq] at same
      simp only [List.length_cons, ← same.2]
      omega
  | case4 c tail _ _ ih =>
      obtain ⟨result, inner, same⟩ := Option.map_eq_some_iff.mp found
      have := ih inner
      simp only [Prod.mk.injEq] at same
      simp only [List.length_cons, ← same.2]
      omega

theorem bareName_length (input : List Char) : (bareName input).2.length ≤ input.length := by
  fun_induction bareName input with
  | case1 => exact Nat.le_refl _
  | case2 c rest _ tail ih => exact Nat.le_succ_of_le ih
  | case3 => exact Nat.le_refl _

/-- Splits a text into tokens, given the number of its first line. -/
def scan (line : Nat) : List Char → Except ReadError (List Lexeme)
  | [] => .ok []
  | c :: rest =>
      if c = '\n' then scan (line + 1) rest
      else if Text.isBlank c then scan line rest
      else if startsComment (c :: rest) then scan line (rest.dropWhile (· ≠ '\n'))
      else if c = '"' then
        match _ : quotedText? rest with
        | none => .error (.unterminatedString line)
        | some (text, after) => do
            let more ← scan (line + text.count '\n') after
            return ⟨line, .id (String.ofList text)⟩ :: more
      else if startsArrow (c :: rest) then do
        let more ← scan line rest.tail
        return ⟨line, .arrow⟩ :: more
      else match punctuation? c with
        | some token => do
            let more ← scan line rest
            return ⟨line, token⟩ :: more
        | none =>
            if isWordChar c then do
              let more ← scan line (bareName rest).2
              return ⟨line, .id (String.ofList (c :: (bareName rest).1))⟩ :: more
            else .error (.unexpectedToken line (String.singleton c))
termination_by input => input.length
decreasing_by
  · simp
  · simp
  · have := (List.dropWhile_sublist (· ≠ '\n') (l := rest)).length_le
    simp only [List.length_cons]
    omega
  · have := quotedText?_length (by assumption)
    simp only [List.length_cons]
    omega
  · simp only [List.length_cons, List.length_tail]
    omega
  · simp
  · have := bareName_length rest
    simp only [List.length_cons]
    omega

def tokenize (text : String) : Except ReadError (List Lexeme) := scan 1 text.toList

end OneCounter.Dot
