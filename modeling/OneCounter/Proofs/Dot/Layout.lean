import OneCounter.Proofs.Dot.Lexing

/-!
Layouts of graph files. The same tokens can be laid out in many ways: white space and comments
stand between them in any mixture, an arrow has two forms, and a name is written bare or in quotes.
Main statement: whatever the layout, its text is divided into the tokens that it was made of, each
with the number of the line on which it starts.
-/

namespace OneCounter.Dot

/-! ### Gaps -/

inductive CommentSign where
  | hash
  | slashes
deriving DecidableEq

def CommentSign.text : CommentSign → List Char
  | hash => ['#']
  | slashes => ['/', '/']

/-- White space, or a comment with the end of its line. -/
inductive Filler where
  | blank (c : Char) (isBlank : Text.isBlank c = true)
  | comment (sign : CommentSign) (text : List Char) (oneLine : '\n' ∉ text)

namespace Filler

def text : Filler → List Char
  | blank c _ => [c]
  | comment sign text _ => sign.text ++ text ++ ['\n']

/-- A filler is passed over. -/
theorem lexes (filler : Filler) (line : Nat) : Lexes line filler.text [] := by
  cases filler with
  | blank c isBlank =>
      by_cases newline : c = '\n'
      · subst newline
        exact lexes_newline (lexes_nil _)
      · exact lexes_blank isBlank newline (lexes_nil line)
  | comment sign text oneLine =>
      have opens : sign.text = ['#'] ∨ sign.text = ['/', '/'] := by
        cases sign with
        | hash => exact Or.inl rfl
        | slashes => exact Or.inr rfl
      exact lexes_comment opens oneLine (lexes_nil _)

/-- A bare name ends where a filler starts. -/
theorem exists_delimiter (filler : Filler) :
    ∃ d rest, filler.text = d :: rest ∧ Delimits d := by
  cases filler with
  | blank c isBlank =>
      refine ⟨c, [], rfl, isWordChar_of_isBlank isBlank, ?_⟩
      rintro rfl
      exact absurd isBlank (by decide)
  | comment sign text oneLine =>
      cases sign with
      | hash => exact ⟨'#', _, rfl, by decide⟩
      | slashes => exact ⟨'/', _, rfl, by decide⟩

end Filler

theorem lexes_fillers (fillers : List Filler) (line : Nat) :
    Lexes line (fillers.flatMap Filler.text) [] := by
  induction fillers generalizing line with
  | nil => exact lexes_nil line
  | cons filler rest ih =>
      rw [List.flatMap_cons]
      exact (filler.lexes line).append (ih _)

/-- A mixture of one or more fillers. -/
structure Gap where
  first : Filler
  others : List Filler

namespace Gap

def text (gap : Gap) : List Char := (gap.first :: gap.others).flatMap Filler.text

theorem lexes (gap : Gap) (line : Nat) : Lexes line gap.text [] :=
  lexes_fillers (gap.first :: gap.others) line

theorem exists_delimiter (gap : Gap) : ∃ d rest, gap.text = d :: rest ∧ Delimits d := by
  obtain ⟨d, rest, shape, delimits⟩ := gap.first.exists_delimiter
  refine ⟨d, rest ++ gap.others.flatMap Filler.text, ?_, delimits⟩
  rw [text, List.flatMap_cons, shape, List.cons_append]

end Gap

/-! ### Spellings -/

/-- The tokens that are written in one way only. -/
def Token.isMark : Token → Bool
  | id _ | arrow => false
  | _ => true

theorem Token.exists_symbol {token : Token} (isMark : token.isMark = true) :
    ∃ symbol, token.text.toList = [symbol] ∧ punctuation? symbol = some token := by
  cases token with
  | id name => cases isMark
  | arrow => cases isMark
  | leftBracket => exact ⟨'[', rfl, rfl⟩
  | rightBracket => exact ⟨']', rfl, rfl⟩
  | equals => exact ⟨'=', rfl, rfl⟩
  | comma => exact ⟨',', rfl, rfl⟩
  | semicolon => exact ⟨';', rfl, rfl⟩
  | leftBrace => exact ⟨'\x7b', rfl, rfl⟩
  | rightBrace => exact ⟨'\x7d', rfl, rfl⟩

/-- The ways to write a token. -/
inductive Spelling where
  | mark (token : Token) (isMark : token.isMark = true)
  | arrow
  | dashes
  | quoted (name : String) (ends : Quotable name.toList)
  | bare (name : String) (isBare : Bare name.toList)

namespace Spelling

def token : Spelling → Token
  | mark token _ => token
  | arrow | dashes => .arrow
  | quoted name _ | bare name _ => .id name

def text : Spelling → List Char
  | mark token _ => token.text.toList
  | arrow => ['-', '>']
  | dashes => ['-', '-']
  | quoted name _ => (quote name).toList
  | bare name _ => name.toList

end Spelling

/-! ### Layouts -/

/-- A token and what stands between it and the next one. -/
structure Piece where
  spelling : Spelling
  gap : Gap

namespace Piece

def text (piece : Piece) : List Char := piece.spelling.text ++ piece.gap.text

/-- A piece is scanned as its token. Only after a bare name the gap matters. -/
theorem lexes (piece : Piece) (line : Nat) :
    Lexes line piece.text [⟨line, piece.spelling.token⟩] := by
  obtain ⟨spelling, gap⟩ := piece
  cases spelling with
  | mark token isMark =>
      obtain ⟨symbol, shape, mark⟩ := Token.exists_symbol isMark
      change Lexes line (token.text.toList ++ gap.text) [⟨line, token⟩]
      rw [shape]
      exact lexes_mark mark (gap.lexes line)
  | arrow => exact lexes_arrow (Or.inl rfl) (gap.lexes line)
  | dashes => exact lexes_arrow (Or.inr rfl) (gap.lexes line)
  | quoted name ends => exact lexes_quote ends (gap.lexes _)
  | bare name isBare =>
      obtain ⟨d, rest, shape, delimits⟩ := gap.exists_delimiter
      have after := gap.lexes line
      change Lexes line (name.toList ++ gap.text) [⟨line, .id name⟩]
      rw [shape] at after ⊢
      exact lexes_word name isBare delimits after

end Piece

theorem lexes_pieces (pieces : List Piece) (line : Nat) :
    Lexes line (pieces.flatMap Piece.text) (pieces.mapIdx fun i piece =>
      ⟨line + ((pieces.take i).flatMap Piece.text).count '\n', piece.spelling.token⟩) := by
  induction pieces generalizing line with
  | nil => exact lexes_nil line
  | cons piece rest ih =>
      have whole := (piece.lexes line).append (ih (line + piece.text.count '\n'))
      simpa [List.mapIdx_cons, List.count_append, Nat.add_assoc] using whole

/-- Tokens with gaps between them, and what stands before the first. -/
structure Layout where
  lead : List Filler
  pieces : List Piece

namespace Layout

/-- The text before the token at a place. -/
def before (layout : Layout) (i : Nat) : List Char :=
  layout.lead.flatMap Filler.text ++ (layout.pieces.take i).flatMap Piece.text

def text (layout : Layout) : String :=
  String.ofList (layout.lead.flatMap Filler.text ++ layout.pieces.flatMap Piece.text)

/-- However tokens are laid out, they are scanned as they are, and the number of a token's line is
one more than the number of line ends before the token. -/
theorem tokenize_text (layout : Layout) :
    tokenize layout.text = .ok (layout.pieces.mapIdx fun i piece =>
      ⟨1 + (layout.before i).count '\n', piece.spelling.token⟩) := by
  have lead := lexes_fillers layout.lead 1
  have whole := lead.append (lexes_pieces layout.pieces _)
  have scanned := whole.scan_eq
  simpa [tokenize, text, before, List.count_append, Nat.add_assoc] using scanned

example : (Layout.mk [.comment .hash " flow".toList (by decide)]
    [⟨.bare "a-" (by decide), .blank '\t' (by decide), []⟩,
      ⟨.dashes, .comment .slashes [] (by decide), [.blank '\n' (by decide)]⟩,
      ⟨.quoted "\"\n" (by decide), .blank ' ' (by decide), []⟩]).text =
    "# flow\na-\t--//\n\n\"\\\"\n\" " := by
  decide

end Layout

end OneCounter.Dot
