import Mathlib.Data.List.Forall2
import OneCounter.Proofs.Dot.Labels

/-!
A written automaton as a list of items. Each line of the file is scanned and read by itself,
whatever follows it. Main statement: a written automaton is read as its name, one item for each
node and one for each edge, if its names and labels can be written in quotes.
-/

namespace OneCounter.Dot

/-! ### Attribute blocks -/

/-- The text is scanned as the attribute, before any mark. -/
def Attribute.WrittenAs (attr : Attribute) (text : String) : Prop :=
  ∀ mark token, punctuation? mark = some token → ∀ line, ∃ last,
    Lexes line (text.toList ++ [mark])
      [⟨line, .id attr.key⟩, ⟨line, .equals⟩, ⟨line, .id attr.value⟩, ⟨last, token⟩]

theorem delimits_of_punctuation? {c : Char} {token : Token} (mark : punctuation? c = some token) :
    Delimits c := by
  refine ⟨isWordChar_of_punctuation? mark, ?_⟩
  rintro rfl
  simp [punctuation?] at mark

theorem writtenAs_quote {key value : String} (bare : Bare key.toList)
    (ends : Quotable value.toList) :
    (Attribute.mk key value).WrittenAs (key ++ "=" ++ quote value) := by
  intro mark token isMark line
  have last := lexes_mark isMark (lexes_nil (line + value.toList.count '\n'))
  have whole := lexes_word key bare (by decide) (lexes_mark (c := '=') rfl (lexes_quote ends last))
  exact ⟨_, by simpa using whole⟩

theorem writtenAs_word {key value : String} (bareKey : Bare key.toList)
    (bareValue : Bare value.toList) : (Attribute.mk key value).WrittenAs (key ++ "=" ++ value) := by
  intro mark token isMark line
  have last := lexes_mark isMark (lexes_nil line)
  have whole := lexes_word key bareKey (by decide) (lexes_mark (c := '=') rfl
    (lexes_word value bareValue (delimits_of_punctuation? isMark) last))
  exact ⟨_, by simpa using whole⟩

/-- A family of quoted attributes with one key. -/
theorem writtenAs_map {α : Type} {key : String} {value : α → String} {list : List α}
    (bare : Bare key.toList) (ends : ∀ x ∈ list, Quotable (value x).toList) :
    List.Forall₂ Attribute.WrittenAs (list.map fun x => ⟨key, value x⟩)
      (list.map fun x => key ++ "=" ++ quote (value x)) := by
  rw [List.forall₂_map_left_iff, List.forall₂_map_right_iff, List.forall₂_same]
  intro x member
  exact writtenAs_quote bare (ends x member)

/-- The tokens give the attributes and close their block. -/
def ClosesBlock (attrs : List Attribute) (lexemes : List Lexeme) : Prop :=
  ∀ lastLine rest, attributes lastLine true (lexemes ++ rest) =
    (attributes lastLine false rest).map fun result => (attrs ++ result.1, result.2)

theorem lexes_block {attrs : List Attribute} {texts : List String}
    (written : List.Forall₂ Attribute.WrittenAs attrs texts) (line : Nat) :
    ∃ lexemes, Lexes line ((", ".intercalate texts).toList ++ [']']) lexemes ∧
      ClosesBlock attrs lexemes := by
  induction written generalizing line with
  | nil =>
      refine ⟨_, lexes_mark rfl (lexes_nil line), fun lastLine rest => ?_⟩
      cases found : attributes lastLine false rest <;> simp [attributes, found, Except.map]
  | @cons attr text attrs texts first more ih =>
      cases more with
      | nil =>
          obtain ⟨last, lexes⟩ := first ']' .rightBracket rfl line
          refine ⟨_, by simpa using lexes, fun lastLine rest => ?_⟩
          simp [attributes]
      | @cons second other attrs texts _ _ =>
          obtain ⟨last, lexes⟩ := first ',' .comma rfl line
          obtain ⟨lexemes, block, closes⟩ := ih (line + (text.toList ++ [',']).count '\n')
          have shape : (", ".intercalate (text :: other :: texts)).toList ++ [']'] =
              (text.toList ++ [',']) ++
                ' ' :: ((", ".intercalate (other :: texts)).toList ++ [']']) := by
            simp
          rw [shape]
          refine ⟨_, lexes.append (lexes_space block), fun lastLine rest => ?_⟩
          simp only [List.cons_append, List.nil_append, attributes, closes lastLine rest]
          cases attributes lastLine false rest <;> rfl

theorem ClosesBlock.attributes_eq {attrs : List Attribute} {lexemes : List Lexeme}
    (closes : ClosesBlock attrs lexemes) (lastLine line : Nat) (rest : List Lexeme) :
    attributes lastLine true (lexemes ++ ⟨line, .semicolon⟩ :: rest) =
      .ok (attrs, ⟨line, .semicolon⟩ :: rest) := by
  simp [closes lastLine, attributes, Except.map]

/-- The attributes of a line, in brackets if there are any. -/
def blockText (texts : List String) : String :=
  if texts.isEmpty then "" else " [" ++ ", ".intercalate texts ++ "]"

/-- The tokens of a block, and none if there are no attributes. -/
inductive Block : List Attribute → List Lexeme → Prop where
  | none : Block [] []
  | some {attr : Attribute} {attrs : List Attribute} {line : Nat} {lexemes : List Lexeme}
      (closes : ClosesBlock (attr :: attrs) lexemes) :
      Block (attr :: attrs) (⟨line, .leftBracket⟩ :: lexemes)

theorem lexes_blockText {attrs : List Attribute} {texts : List String}
    (written : List.Forall₂ Attribute.WrittenAs attrs texts) (line : Nat) :
    ∃ lexemes, Lexes line (blockText texts).toList lexemes ∧ Block attrs lexemes := by
  cases written with
  | nil => exact ⟨[], lexes_nil line, .none⟩
  | @cons attr text attrs texts first more =>
      obtain ⟨lexemes, inside, closes⟩ := lexes_block (List.Forall₂.cons first more) line
      have shape : (blockText (text :: texts)).toList =
          ' ' :: '[' :: ((", ".intercalate (text :: texts)).toList ++ [']']) := by
        simp [blockText]
      rw [shape]
      exact ⟨_, lexes_space (lexes_mark rfl inside), .some closes⟩

theorem Block.attributes_eq {attrs : List Attribute} {lexemes : List Lexeme}
    (block : Block attrs lexemes) (lastLine line : Nat) (rest : List Lexeme) :
    attributes lastLine false (lexemes ++ ⟨line, .semicolon⟩ :: rest) =
      .ok (attrs, ⟨line, .semicolon⟩ :: rest) := by
  cases block with
  | none => rfl
  | some closes => exact closes.attributes_eq lastLine line rest

theorem Block.chain_eq {attrs : List Attribute} {lexemes : List Lexeme}
    (block : Block attrs lexemes) (lastLine line : Nat) (rest : List Lexeme) :
    chain lastLine (lexemes ++ ⟨line, .semicolon⟩ :: rest) =
      .ok ([], lexemes ++ ⟨line, .semicolon⟩ :: rest) := by
  cases block <;> rfl

/-! ### Lines -/

/-- The text is scanned and read as the items, whatever follows it. -/
def ReadsAs (found : List Item) (text : List Char) : Prop :=
  ∀ line, ∃ lexemes, Lexes line text lexemes ∧ ∀ lastLine rest,
    items lastLine (lexemes ++ rest) =
      (found ++ (items lastLine rest).1, (items lastLine rest).2)

theorem ReadsAs.append {front back : List Item} {left right : List Char}
    (first : ReadsAs front left) (second : ReadsAs back right) :
    ReadsAs (front ++ back) (left ++ right) := by
  intro line
  obtain ⟨before, lexesLeft, readsLeft⟩ := first line
  obtain ⟨after, lexesRight, readsRight⟩ := second (line + left.count '\n')
  refine ⟨before ++ after, lexesLeft.append lexesRight, fun lastLine rest => ?_⟩
  rw [List.append_assoc, readsLeft, readsRight, List.append_assoc]

theorem readsAs_nil : ReadsAs [] [] :=
  fun line => ⟨[], lexes_nil line, fun _ _ => rfl⟩

/-- Lists are read member by member. -/
theorem readsAs_flatMap {α : Type} {item : α → Item} {text : α → List Char} {list : List α}
    (each : ∀ x ∈ list, ReadsAs [item x] (text x)) :
    ReadsAs (list.map item) (list.flatMap text) := by
  induction list with
  | nil => exact readsAs_nil
  | cons x rest ih =>
      rw [List.map_cons, List.flatMap_cons]
      exact (each x (by simp)).append (ih fun y member => each y (List.mem_cons_of_mem _ member))

/-- The default names make a line with attributes an item about all nodes or edges. -/
def nodeItem (name : String) (attrs : List Attribute) : Item :=
  if isDefaultsName name && !attrs.isEmpty then .defaults attrs else .statement ⟨name, [], attrs⟩

theorem statement_eq {lastLine : Nat} (first : String) {input after rest : List Lexeme}
    {others : List String} {attrs : List Attribute}
    (nodes : chain lastLine input = .ok (others, after))
    (block : attributes lastLine false after = .ok (attrs, rest)) :
    statement lastLine first input = .ok (⟨first, others, attrs⟩, rest) := by
  simp [statement, nodes, block, bind, Except.bind, pure, Except.pure]

/-- A name starts a statement unless an equals sign follows it, or a bracket and it is a default
name. -/
theorem items_statement {lastLine : Nat} (line : Nat) {name : String} {rest after : List Lexeme}
    {s : Statement} (parsed : statement lastLine name rest = .ok (s, after))
    (notEquals : ∀ place tail, rest ≠ ⟨place, .equals⟩ :: tail)
    (notDefaults : ∀ place tail, rest = ⟨place, .leftBracket⟩ :: tail →
      isDefaultsName name = false) :
    items lastLine (⟨line, .id name⟩ :: rest) =
      (.statement s :: (items lastLine after).1, (items lastLine after).2) := by
  rw [items.eq_def]
  split
  · next shape => cases shape
  · next shape => cases shape
  · next shape => cases shape
  · next shape => cases shape
  -- An equals sign after the name, with a value and without one.
  · next shape => cases shape; exact absurd rfl (notEquals _ _)
  · next shape => cases shape; exact absurd rfl (notEquals _ _)
  -- A bracket after the name, and anything else.
  · next shape =>
      cases shape
      rw [if_neg (by simp [notDefaults _ _ rfl])]
      split
      · next same => cases parsed.symm.trans same; rfl
      · next same => cases parsed.symm.trans same
  · next shape =>
      cases shape
      split
      · next same => cases parsed.symm.trans same; rfl
      · next same => cases parsed.symm.trans same
  · next other => exact absurd rfl (other _ _ _)

/-- What is read of a name before a bracket. -/
def bracketItem (name : String) (attrs : List Attribute) : Item :=
  if isDefaultsName name then .defaults attrs else .statement ⟨name, [], attrs⟩

theorem items_bracket {attrs : List Attribute} {lexemes : List Lexeme}
    (closes : ClosesBlock attrs lexemes) (name : String) (lastLine line bracket last : Nat)
    (rest : List Lexeme) :
    items lastLine (⟨line, .id name⟩ :: ⟨bracket, .leftBracket⟩ ::
        (lexemes ++ ⟨last, .semicolon⟩ :: rest)) =
      (bracketItem name attrs :: (items lastLine rest).1, (items lastLine rest).2) := by
  have found := closes.attributes_eq lastLine last rest
  by_cases reserved : isDefaultsName name
  · rw [items, if_pos reserved]
    split
    · next same =>
        cases found.symm.trans same
        simp [bracketItem, reserved, items]
    · next same => cases found.symm.trans same
  · have parsed : statement lastLine name
        (⟨bracket, .leftBracket⟩ :: (lexemes ++ ⟨last, .semicolon⟩ :: rest)) =
          .ok (⟨name, [], attrs⟩, ⟨last, .semicolon⟩ :: rest) := statement_eq name rfl found
    simpa [bracketItem, reserved, items] using
      items_statement line parsed (by simp) fun _ _ _ => by simpa using reserved

theorem items_node {attrs : List Attribute} {lexemes : List Lexeme} (block : Block attrs lexemes)
    (name : String) (lastLine line last : Nat) (rest : List Lexeme) :
    items lastLine (⟨line, .id name⟩ :: (lexemes ++ ⟨last, .semicolon⟩ :: rest)) =
      (nodeItem name attrs :: (items lastLine rest).1, (items lastLine rest).2) := by
  cases block with
  | none =>
      have parsed : statement lastLine name (⟨last, .semicolon⟩ :: rest) =
          .ok (⟨name, [], []⟩, ⟨last, .semicolon⟩ :: rest) := statement_eq name rfl rfl
      simpa [nodeItem, items] using items_statement line parsed (by simp) (by simp)
  | @some attr attrs bracket lexemes closes =>
      simpa [nodeItem, bracketItem] using items_bracket closes name lastLine line bracket last rest

theorem items_edge {attrs : List Attribute} {lexemes : List Lexeme} (block : Block attrs lexemes)
    (start stop : String) (lastLine line arrow place last : Nat) (rest : List Lexeme) :
    items lastLine (⟨line, .id start⟩ :: ⟨arrow, .arrow⟩ :: ⟨place, .id stop⟩ ::
        (lexemes ++ ⟨last, .semicolon⟩ :: rest)) =
      (.statement ⟨start, [stop], attrs⟩ :: (items lastLine rest).1, (items lastLine rest).2) := by
  have nodes : chain lastLine (⟨arrow, .arrow⟩ :: ⟨place, .id stop⟩ ::
      (lexemes ++ ⟨last, .semicolon⟩ :: rest)) =
        .ok ([stop], lexemes ++ ⟨last, .semicolon⟩ :: rest) := by
    rw [chain, block.chain_eq]
    rfl
  have parsed := statement_eq start nodes (block.attributes_eq lastLine last rest)
  simpa [items] using items_statement line parsed (by simp) (by simp)

/-! ### The lines of an automaton -/

theorem lexes_end (line : Nat) : Lexes line [';', '\n'] [⟨line, .semicolon⟩] :=
  lexes_mark rfl (lexes_newline (lexes_nil _))

theorem readsAs_nodeLine {name : String} {attrs : List Attribute} {texts : List String}
    (ends : Quotable name.toList) (written : List.Forall₂ Attribute.WrittenAs attrs texts) :
    ReadsAs [nodeItem name attrs] (nodeLine name texts).toList := by
  intro line
  obtain ⟨lexemes, scanned, block⟩ := lexes_blockText written (line + name.toList.count '\n')
  have shape : (nodeLine name texts).toList =
      (quote name).toList ++ ((blockText texts).toList ++ [';', '\n']) := by
    unfold nodeLine blockText
    split <;> simp
  rw [shape]
  refine ⟨_, lexes_quote ends (scanned.append (lexes_end _)), fun lastLine rest => ?_⟩
  simpa using items_node block name lastLine line _ rest

def edgeAttributes (edge : Edge) : List Attribute :=
  (edgeLabel? .standard edge).toList.map (Attribute.mk "label")

def edgeItem (edge : Edge) : Item := .statement ⟨edge.start, [edge.stop], edgeAttributes edge⟩

theorem edgeLine_eq (edge : Edge) : edgeLine .standard edge =
    quote edge.start ++ " -> " ++ quote edge.stop ++
      blockText ((edgeLabel? .standard edge).toList.map fun label => "label=" ++ quote label) ++
        ";\n" := by
  unfold edgeLine
  cases edgeLabel? .standard edge with
  | none => simp [blockText]
  | some label =>
      rw [← String.toList_inj]
      simp [blockText]

theorem readsAs_edgeLine {edge : Edge} (startEnds : Quotable edge.start.toList)
    (stopEnds : Quotable edge.stop.toList)
    (labelEnds : ∀ label ∈ edgeLabel? .standard edge, Quotable label.toList) :
    ReadsAs [edgeItem edge] (edgeLine .standard edge).toList := by
  intro line
  have written : List.Forall₂ Attribute.WrittenAs (edgeAttributes edge)
      ((edgeLabel? .standard edge).toList.map fun label => "label=" ++ quote label) :=
    writtenAs_map (by decide) fun label member => labelEnds label (by simpa using member)
  obtain ⟨lexemes, scanned, block⟩ := lexes_blockText written
    (line + edge.start.toList.count '\n' + edge.stop.toList.count '\n')
  rw [edgeLine_eq]
  have shape : (quote edge.start ++ " -> " ++ quote edge.stop ++
      blockText ((edgeLabel? .standard edge).toList.map fun label => "label=" ++ quote label) ++
        ";\n").toList = (quote edge.start).toList ++ ' ' :: '-' :: '>' :: ' ' ::
          ((quote edge.stop).toList ++ ((blockText ((edgeLabel? .standard edge).toList.map
            fun label => "label=" ++ quote label)).toList ++ [';', '\n'])) := by
    simp
  rw [shape]
  refine ⟨_, lexes_quote startEnds (lexes_space (lexes_arrow (Or.inl rfl) (lexes_space
    (lexes_quote stopEnds (scanned.append (lexes_end _)))))), fun lastLine rest => ?_⟩
  simpa [edgeItem] using items_edge block edge.start edge.stop lastLine line _ _ _ rest

def appearanceAttributes (a : Automaton) (name : String) (data : NodeData) : List Attribute :=
  if data.hidden then [⟨"style", "invis"⟩]
  else if a.isInitial name then [⟨"shape", "doublecircle"⟩]
  else []

def nodeAttributes (a : Automaton) (name : String) (data : NodeData) : List Attribute :=
  appearanceAttributes a name data ++
    data.condition?.toList.map (fun condition => ⟨"xlabel", condition.text⟩) ++
    data.label?.toList.map (Attribute.mk "label")

theorem writtenAs_appearance (a : Automaton) (name : String) (data : NodeData) :
    List.Forall₂ Attribute.WrittenAs (appearanceAttributes a name data)
      (appearance .standard a name data) := by
  unfold appearanceAttributes appearance
  split
  · exact .cons (writtenAs_word (by decide) (by decide)) .nil
  · split
    · exact .cons (writtenAs_word (by decide) (by decide)) .nil
    · exact .nil

theorem writtenAs_nodeAttributes (a : Automaton) (name : String) {data : NodeData}
    (labelEnds : ∀ label ∈ data.label?, Quotable label.toList) :
    List.Forall₂ Attribute.WrittenAs (nodeAttributes a name data)
      (appearance .standard a name data ++ guardAttribute data ++
        labelAttribute .standard data.label?) := by
  refine List.rel_append (List.rel_append (writtenAs_appearance a name data) ?_) ?_
  · exact writtenAs_map (by decide) fun condition _ => condition.quotable_text
  · exact writtenAs_map (by decide) fun label member => labelEnds label (by simpa using member)

/-! ### The whole file -/

/-- Names and labels can be written in quotes. -/
structure Legible (a : Automaton) : Prop where
  name : Quotable a.name.toList
  node : ∀ entry ∈ a.nodes.entries, Quotable entry.1.toList ∧
    ∀ label ∈ entry.2.label?, Quotable label.toList
  edge : ∀ edge ∈ a.edges, Quotable edge.start.toList ∧ Quotable edge.stop.toList ∧
    ∀ label ∈ edge.label?, Quotable label.toList

def nodeItems (a : Automaton) : List Item :=
  a.nodes.entries.map fun entry => nodeItem entry.1 (nodeAttributes a entry.1 entry.2)

def automatonItems (a : Automaton) : List Item :=
  [.graphAttribute "rankdir" "LR", .defaults [⟨"shape", "circle"⟩]] ++ nodeItems a ++
    a.edges.map edgeItem

theorem readsAs_direction : ReadsAs [.graphAttribute "rankdir" "LR"] "rankdir=LR;\n".toList := by
  intro line
  have value := lexes_word "LR" (by decide) (by decide) (lexes_end line)
  refine ⟨_, lexes_word "rankdir" (by decide) (by decide) (lexes_mark rfl value),
    fun lastLine rest => ?_⟩
  simp [items]

theorem readsAs_shape :
    ReadsAs [.defaults [⟨"shape", "circle"⟩]] "node [shape=circle];\n".toList := by
  intro line
  have written : List.Forall₂ Attribute.WrittenAs [⟨"shape", "circle"⟩] ["shape=circle"] :=
    .cons (writtenAs_word (by decide) (by decide)) .nil
  obtain ⟨lexemes, scanned, block⟩ := lexes_blockText written line
  have whole := lexes_word "node" (by decide) (by decide)
    (scanned.append (lexes_end _))
  refine ⟨_, whole, fun lastLine rest => ?_⟩
  simpa [nodeItem, isDefaultsName] using items_node block "node" lastLine line _ rest

theorem Legible.readsAs_nodes {a : Automaton} (legible : Legible a) :
    ReadsAs (nodeItems a) (String.join (a.nodes.entries.map fun entry =>
      nodeLine entry.1 (appearance .standard a entry.1 entry.2 ++ guardAttribute entry.2 ++
        labelAttribute .standard entry.2.label?))).toList := by
  rw [String.toList_join, List.flatMap_map]
  apply readsAs_flatMap
  intro entry member
  obtain ⟨nameEnds, labelEnds⟩ := legible.node entry member
  exact readsAs_nodeLine nameEnds (writtenAs_nodeAttributes a entry.1 labelEnds)

theorem quotable_edgeLabel? {edge : Edge} (ends : ∀ label ∈ edge.label?, Quotable label.toList) :
    ∀ label ∈ edgeLabel? .standard edge, Quotable label.toList := by
  intro label found
  cases operation : edge.operation? with
  | some instr =>
      simp only [edgeLabel?, operation, Option.mem_def, Option.some.injEq] at found
      rw [← found]
      exact instr.quotable_text
  | none =>
      cases own : edge.label? with
      | none => simp [edgeLabel?, operation, own] at found
      | some text =>
          simp only [edgeLabel?, operation, own, Style.standard, if_true, Option.mem_def,
            Option.some.injEq] at found
          exact ends label (by simp [own, found])

theorem Legible.readsAs_edges {a : Automaton} (legible : Legible a) :
    ReadsAs (a.edges.map edgeItem) (String.join (a.edges.map (edgeLine .standard))).toList := by
  rw [String.toList_join, List.flatMap_map]
  apply readsAs_flatMap
  intro edge member
  obtain ⟨startEnds, stopEnds, labelEnds⟩ := legible.edge edge member
  exact readsAs_edgeLine startEnds stopEnds (quotable_edgeLabel? labelEnds)

theorem lexes_close (line : Nat) : Lexes line ['\x7d', '\n'] [⟨line, .rightBrace⟩] :=
  lexes_mark rfl (lexes_newline (lexes_nil _))

/-- A graph whose lines are read as the items. -/
theorem ofLexemes_graph {name : String} {found : List Item} {body : List Char}
    (ends : Quotable name.toList) (reads : ReadsAs found body) :
    ∃ lexemes, scan 1 ("digraph".toList ++ ' ' :: ((quote name).toList ++ ' ' :: '\x7b' :: '\n' ::
        (body ++ ['\x7d', '\n']))) = .ok lexemes ∧
      Document.ofLexemes lexemes = .ok ⟨name, found, none⟩ := by
  obtain ⟨lexemes, scanned, read⟩ := reads (1 + name.toList.count '\n' + 1)
  have whole := lexes_word "digraph" (by decide) (by decide) (lexes_space (lexes_quote ends
    (lexes_space (lexes_mark (c := '\x7b') rfl (lexes_newline (scanned.append (lexes_close _)))))))
  refine ⟨_, whole.scan_eq, ?_⟩
  simp [Document.ofLexemes, header, keyword, read, items, bind, Except.bind, pure, Except.pure]

theorem toList_render (a : Automaton) : (render .standard a).toList =
    "digraph".toList ++ ' ' :: ((quote a.name).toList ++ ' ' :: '\x7b' :: '\n' ::
      ("rankdir=LR;\n".toList ++ "node [shape=circle];\n".toList ++
        (String.join (a.nodes.entries.map fun entry =>
          nodeLine entry.1 (appearance .standard a entry.1 entry.2 ++ guardAttribute entry.2 ++
            labelAttribute .standard entry.2.label?))).toList ++
        (String.join (a.edges.map (edgeLine .standard))).toList ++ ['\x7d', '\n'])) := by
  unfold render renderWith
  simp only [String.toList_append]
  generalize String.toList (String.join _) = nodes
  generalize String.toList (String.join _) = edges
  simp [Style.standard]

theorem ofLexemes_render {a : Automaton} (legible : Legible a) : ∃ lexemes,
    tokenize (render .standard a) = .ok lexemes ∧
      Document.ofLexemes lexemes = .ok ⟨a.name, automatonItems a, none⟩ := by
  have body := ((readsAs_direction.append readsAs_shape).append legible.readsAs_nodes).append
    legible.readsAs_edges
  obtain ⟨lexemes, scanned, read⟩ := ofLexemes_graph legible.name body
  rw [← toList_render] at scanned
  exact ⟨lexemes, scanned, read⟩

end OneCounter.Dot
