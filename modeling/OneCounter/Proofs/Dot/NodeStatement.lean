import OneCounter.Proofs.Dot.Reading
import OneCounter.Proofs.Dot.Rendering

/-!
Node statements with their name and their values in quotes. Main statement: such a statement is read
as it was written just if neither the name nor a value ends in a backslash, which would take the
closing quote into the text, and the name is none of those that stand for all nodes or edges, which
quotes do not make a node.
-/

namespace OneCounter.Dot

def Attribute.text (attr : Attribute) : String := attr.key ++ "=" ++ quote attr.value

/-- A node with its attributes in brackets. -/
def nodeStatement (name : String) (attrs : List Attribute) : String :=
  quote name ++ " [" ++ ", ".intercalate (attrs.map Attribute.text) ++ "];"

/-- A file with nothing else in it. -/
def nodeFile (name : String) (attrs : List Attribute) : String :=
  "digraph g \x7b " ++ nodeStatement name attrs ++ " \x7d"

section

variable {name : String} {attrs : List Attribute}

theorem readsAs_nodeStatement (keys : ∀ attr ∈ attrs, Bare attr.key.toList)
    (ends : Quotable name.toList) (values : ∀ attr ∈ attrs, Quotable attr.value.toList) :
    ReadsAs [bracketItem name attrs] (nodeStatement name attrs).toList := by
  intro line
  have written : List.Forall₂ Attribute.WrittenAs attrs (attrs.map Attribute.text) := by
    rw [List.forall₂_map_right_iff, List.forall₂_same]
    intro attr member
    exact writtenAs_quote (keys attr member) (values attr member)
  obtain ⟨lexemes, scanned, closes⟩ := lexes_block written (line + name.toList.count '\n')
  have shape : (nodeStatement name attrs).toList = (quote name).toList ++ ' ' :: '[' ::
      ((", ".intercalate (attrs.map Attribute.text)).toList ++ [']'] ++ [';']) := by
    simp [nodeStatement]
  rw [shape]
  refine ⟨_, lexes_quote ends (lexes_space (lexes_mark rfl
    (scanned.append (lexes_mark rfl (lexes_nil _))))), fun lastLine rest => ?_⟩
  simpa using items_bracket closes name lastLine line _ _ rest

theorem read_nodeFile (keys : ∀ attr ∈ attrs, Bare attr.key.toList)
    (ends : Quotable name.toList) (values : ∀ attr ∈ attrs, Quotable attr.value.toList) :
    tokenize (nodeFile name attrs) >>= Document.ofLexemes =
      .ok ⟨"g", [bracketItem name attrs], none⟩ := by
  obtain ⟨lexemes, scanned, read⟩ := readsAs_nodeStatement keys ends values 1
  have whole := lexes_word "digraph" (by decide) (by decide) (lexes_space
    (lexes_word "g" (by decide) (by decide) (lexes_space (lexes_mark (c := '\x7b') rfl (lexes_space
      (scanned.append (lexes_space (lexes_mark (c := '\x7d') rfl (lexes_nil _)))))))))
  have shape : (nodeFile name attrs).toList = "digraph".toList ++ ' ' :: ("g".toList ++ ' ' ::
      '\x7b' :: ' ' :: ((nodeStatement name attrs).toList ++ [' ', '\x7d'])) := by
    simp [nodeFile]
  rw [tokenize, shape, whole.scan_eq]
  simp [Document.ofLexemes, header, keyword, read, items, bind, Except.bind, pure, Except.pure]

/-- Whatever has been read as a statement can be written in quotes. -/
theorem quotable_of_read {text title : String} {s : Statement}
    (read : tokenize text >>= Document.ofLexemes = .ok ⟨title, [.statement s], none⟩) :
    (∀ name ∈ s.nodes, Quotable name.toList) ∧
      ∀ attr ∈ s.attributes, Quotable attr.value.toList := by
  cases scanned : tokenize text with
  | error fault =>
      rw [scanned] at read
      cases read
  | ok lexemes =>
      rw [scanned] at read
      obtain ⟨_, tidy⟩ := tidy_of_ofLexemes read (quotable_of_scan scanned)
      have statement : s.Tidy := tidy (.statement s) List.mem_cons_self
      exact ⟨statement.names, statement.values⟩

/-- A node statement is read as it was written just if quotes can hold its name and its values, and
the name is no default. -/
theorem read_nodeFile_eq_iff (keys : ∀ attr ∈ attrs, Bare attr.key.toList) :
    tokenize (nodeFile name attrs) >>= Document.ofLexemes =
        .ok ⟨"g", [.statement ⟨name, [], attrs⟩], none⟩ ↔
      Quotable name.toList ∧ (∀ attr ∈ attrs, Quotable attr.value.toList) ∧
        isDefaultsName name = false := by
  constructor
  · intro read
    obtain ⟨names, values⟩ := quotable_of_read read
    have ends := names name List.mem_cons_self
    refine ⟨ends, values, ?_⟩
    -- With a default name the same text would have been read as defaults.
    by_contra reserved
    rw [read_nodeFile keys ends values, bracketItem, if_pos (by simpa using reserved)] at read
    cases read
  · rintro ⟨ends, values, free⟩
    rw [read_nodeFile keys ends values, bracketItem, if_neg (by simp [free])]

end

/-- Quotes, backslashes, line ends, arrows and default names are kept where they are in quotes. -/
def oddAttributes : List Attribute :=
  [⟨"label", "graph \x7b -> \"\\\" \x7d\n"⟩, ⟨"x-label+1.", "node"⟩, ⟨"edge", ""⟩]

theorem oddAttributes_read :
    (∀ attr ∈ oddAttributes, Bare attr.key.toList) ∧
      tokenize (nodeFile "\"\\n\\\"\n# a" oddAttributes) >>= Document.ofLexemes =
        .ok ⟨"g", [.statement ⟨"\"\\n\\\"\n# a", [], oddAttributes⟩], none⟩ := by
  have keys : ∀ attr ∈ oddAttributes, Bare attr.key.toList := by decide
  exact ⟨keys, (read_nodeFile_eq_iff keys).mpr ⟨by decide, by decide, by decide⟩⟩

/-- A backslash at the end of a name leaves the text without its last quote, and a node called
`node` is taken for all nodes. -/
theorem slash_and_keyword_not_read :
    tokenize (nodeFile "a\\" [⟨"label", "b"⟩]) >>= Document.ofLexemes =
        .error (.unterminatedString 1) ∧
      tokenize (nodeFile "node" [⟨"xlabel", "<=5"⟩]) >>= Document.ofLexemes =
        .ok ⟨"g", [.defaults [⟨"xlabel", "<=5"⟩]], none⟩ := by
  decide +kernel

end OneCounter.Dot
