import OneCounter.Dot.Reader
import OneCounter.Proofs.Building
import OneCounter.Proofs.Dot.Labels

/-!
What a graph file can be read as. Main statement: every automaton that is read has names and
labels that can be written in quotes, guards on its nodes and non-negative deltas on its edges,
labels that are no instructions, and nothing at nodes with a default name.
-/

namespace OneCounter.Dot

/-! ### Items -/

/-- What the items of a file have in common. A node statement with attributes names no default. -/
structure Statement.Tidy (s : Statement) : Prop where
  names : ∀ name ∈ s.nodes, Quotable name.toList
  values : ∀ attr ∈ s.attributes, Quotable attr.value.toList
  first : isDefaultsName s.first = true → s.isEdge = false → s.attributes = []

def Item.Tidy : Item → Prop
  | .statement s => s.Tidy
  | .graphAttribute .. | .defaults .. => True

/-- All names among the tokens can be written in quotes. -/
def AllQuotable (lexemes : List Lexeme) : Prop := ∀ lexeme ∈ lexemes, lexeme.token.Quotable

theorem AllQuotable.tail {lexeme : Lexeme} {rest : List Lexeme}
    (quotable : AllQuotable (lexeme :: rest)) : AllQuotable rest :=
  fun other member => quotable other (List.mem_cons_of_mem _ member)

theorem AllQuotable.name {line : Nat} {name : String} {rest : List Lexeme}
    (quotable : AllQuotable (⟨line, .id name⟩ :: rest)) : Quotable name.toList :=
  quotable _ List.mem_cons_self name rfl

theorem quotable_chain {lastLine : Nat} {input rest : List Lexeme} {names : List String}
    (parsed : chain lastLine input = .ok (names, rest)) (quotable : AllQuotable input) :
    (∀ name ∈ names, Quotable name.toList) ∧ AllQuotable rest := by
  fun_induction chain lastLine input generalizing names rest with
  | case1 _ name _ tail ih =>
      cases inner : chain lastLine tail with
      | error => simp [inner, Except.map] at parsed
      | ok result =>
          simp only [inner, Except.map, Except.ok.injEq, Prod.mk.injEq] at parsed
          obtain ⟨others, after⟩ := ih inner quotable.tail.tail
          rw [← parsed.1, ← parsed.2]
          exact ⟨List.forall_mem_cons.mpr ⟨quotable.tail.name, others⟩, after⟩
  | case2 => cases parsed
  | case3 =>
      cases parsed
      exact ⟨by simp, quotable⟩

theorem quotable_attributes {lastLine : Nat} {inside : Bool} {input rest : List Lexeme}
    {found : List Attribute} (parsed : attributes lastLine inside input = .ok (found, rest))
    (quotable : AllQuotable input) :
    (∀ attr ∈ found, Quotable attr.value.toList) ∧ AllQuotable rest := by
  fun_induction attributes lastLine inside input generalizing found rest with
  | case1 _ tail ih => exact ih parsed quotable.tail
  | case2 =>
      cases parsed
      exact ⟨by simp, quotable⟩
  | case3 _ tail ih => exact ih parsed quotable.tail
  | case4 _ tail ih => exact ih parsed quotable.tail
  | case5 _ tail ih => exact ih parsed quotable.tail
  | case6 _ key _ _ value tail ih =>
      cases inner : attributes lastLine true tail with
      | error => simp [inner, Except.map] at parsed
      | ok result =>
          simp only [inner, Except.map, Except.ok.injEq, Prod.mk.injEq] at parsed
          obtain ⟨others, after⟩ := ih inner quotable.tail.tail.tail
          rw [← parsed.1, ← parsed.2]
          exact ⟨List.forall_mem_cons.mpr ⟨quotable.tail.tail.name, others⟩, after⟩
  | case7 => cases parsed
  | case8 => cases parsed
  | case9 => cases parsed

theorem statement_parts {lastLine : Nat} {first : String} {input rest : List Lexeme}
    {s : Statement} (parsed : statement lastLine first input = .ok (s, rest)) :
    s.first = first ∧ ∃ after, chain lastLine input = .ok (s.others, after) ∧
      attributes lastLine false after = .ok (s.attributes, rest) := by
  unfold statement at parsed
  cases nodes : chain lastLine input with
  | error => simp [nodes, bind, Except.bind] at parsed
  | ok names =>
      cases block : attributes lastLine false names.2 with
      | error => simp [nodes, block, bind, Except.bind] at parsed
      | ok result =>
          simp only [nodes, block, bind, Except.bind, pure, Except.pure, Except.ok.injEq,
            Prod.mk.injEq] at parsed
          obtain ⟨rfl, rfl⟩ := parsed
          exact ⟨rfl, names.2, rfl, block⟩

theorem eq_of_chain_nil {lastLine : Nat} {input rest : List Lexeme}
    (parsed : chain lastLine input = .ok ([], rest)) : rest = input := by
  fun_induction chain lastLine input generalizing rest with
  | case1 _ name _ tail ih =>
      cases inner : chain lastLine tail <;> simp [inner, Except.map] at parsed
  | case2 => cases parsed
  | case3 =>
      cases parsed
      rfl

theorem attributes_of_ne {lastLine : Nat} {input : List Lexeme}
    (outside : ∀ place tail, input ≠ ⟨place, .leftBracket⟩ :: tail) :
    attributes lastLine false input = .ok ([], input) := by
  rw [attributes]
  intro place tail shape
  exact outside place tail shape

theorem tidy_of_statement {lastLine : Nat} {name : String} {line : Nat} {input rest : List Lexeme}
    {s : Statement} (parsed : statement lastLine name input = .ok (s, rest))
    (quotable : AllQuotable (⟨line, .id name⟩ :: input))
    (first : isDefaultsName name = true → ∀ place tail, input ≠ ⟨place, .leftBracket⟩ :: tail) :
    s.Tidy ∧ AllQuotable rest := by
  obtain ⟨same, after, nodes, block⟩ := statement_parts parsed
  obtain ⟨others, afterQuotable⟩ := quotable_chain nodes quotable.tail
  obtain ⟨values, restQuotable⟩ := quotable_attributes block afterQuotable
  refine ⟨⟨List.forall_mem_cons.mpr ⟨same ▸ quotable.name, others⟩, values, ?_⟩, restQuotable⟩
  -- A bracket right after a default name has been read as defaults, so there is no block.
  intro reserved single
  have none : s.others = [] := by simpa [Statement.isEdge] using single
  rw [none] at nodes
  rw [eq_of_chain_nil nodes, attributes_of_ne (first (same ▸ reserved))] at block
  exact (Prod.mk.inj (Except.ok.inj block)).1.symm

theorem items_tidy {lastLine : Nat} {input : List Lexeme} (quotable : AllQuotable input) :
    ∀ item ∈ (items lastLine input).1, item.Tidy := by
  fun_induction items lastLine input with
  | case1 => simp
  | case2 => simp
  | case3 _ rest ih => exact ih quotable.tail
  | case4 _ rest ih => exact ih quotable.tail
  | case5 _ key _ _ value rest more ih =>
      exact List.forall_mem_cons.mpr ⟨trivial, ih quotable.tail.tail.tail⟩
  | case6 => simp
  | case7 _ name _ rest reserved found after parsed more ih =>
      exact List.forall_mem_cons.mpr
        ⟨trivial, ih (quotable_attributes parsed quotable.tail.tail).2⟩
  | case8 => simp
  | case9 _ name _ rest notReserved found after parsed more ih =>
      obtain ⟨tidy, tail⟩ := tidy_of_statement parsed quotable fun reserved =>
        absurd reserved notReserved
      exact List.forall_mem_cons.mpr ⟨tidy, ih tail⟩
  | case10 => simp
  | case11 _ name rest _ _ notBracket found after parsed more ih =>
      obtain ⟨tidy, tail⟩ := tidy_of_statement parsed quotable fun _ => notBracket
      exact List.forall_mem_cons.mpr ⟨tidy, ih tail⟩
  | case12 => simp
  | case13 => simp

/-! ### Automata -/

/-- A label that stands for itself. -/
def PlainLabel (label : String) : Prop := Quotable label.toList ∧ labelInstr? label = none

structure TidyNode (name : String) (data : NodeData) : Prop where
  quotable : Quotable name.toList
  label : ∀ label ∈ data.label?, PlainLabel label
  condition : ∀ condition ∈ data.condition?, condition.isGuard = true
  defaults : isDefaultsName name = true → data = .plain

structure TidyEdge (data : EdgeData) : Prop where
  label : ∀ label ∈ data.label?, PlainLabel label
  operation : ∀ operation ∈ data.operation?, operation.isGuard = false ∧ operation.Readable

/-- The automata that are built from statements, under the given name. -/
structure Tidy (name : String) (a : Automaton) : Prop where
  quotable : Quotable name.toList
  frame : (Automaton.empty name).Rebuilt a
  wellFormed : a.WellFormed
  node : ∀ {name data}, a.nodes.get? name = some data → TidyNode name data
  edge : ∀ {start stop data}, a.edgeData? start stop = some data → TidyEdge data

theorem tidyNode_plain {name : String} (quotable : Quotable name.toList) :
    TidyNode name .plain :=
  ⟨quotable, by simp [NodeData.plain], by simp [NodeData.plain], fun _ => rfl⟩

theorem tidyEdge_plain : TidyEdge .plain :=
  ⟨by simp [EdgeData.plain], by simp [EdgeData.plain]⟩

theorem tidy_empty {name : String} (quotable : Quotable name.toList) : Tidy name (.empty name) :=
  ⟨quotable, rfl, Automaton.wellFormed_empty name, nofun, nofun⟩

namespace Tidy

variable {title : String} {a : Automaton}

theorem rebuild (tidy : Tidy title a) {b : Automaton} (rebuilt : a.Rebuilt b)
    (wellFormed : b.WellFormed)
    (node : ∀ {name data}, b.nodes.get? name = some data → TidyNode name data)
    (edge : ∀ {start stop data}, b.edgeData? start stop = some data → TidyEdge data) :
    Tidy title b :=
  ⟨tidy.quotable, tidy.frame.trans rebuilt, wellFormed, node, edge⟩

theorem addNode (tidy : Tidy title a) {name : String} (quotable : Quotable name.toList) :
    Tidy title (a.addNode name) := by
  refine tidy.rebuild (a.rebuilt_addNode name) (tidy.wellFormed.addNode name) ?_ ?_
  · intro other data found
    rw [Automaton.get?_addNode] at found
    split at found
    · next same =>
        subst same
        cases before : a.nodes.get? other with
        | none =>
            simp only [before, Option.getD_none, Option.some.injEq] at found
            exact found ▸ tidyNode_plain quotable
        | some old =>
            simp only [before, Option.getD_some, Option.some.injEq] at found
            exact found ▸ tidy.node before
    · exact tidy.node found
  · intro start stop data found
    rw [Automaton.edgeData?_addNode] at found
    exact tidy.edge found

theorem addEdge (tidy : Tidy title a) {start stop : String} (startQuotable : Quotable start.toList)
    (stopQuotable : Quotable stop.toList) : Tidy title (a.addEdge start stop) := by
  have nodes := (tidy.addNode startQuotable).addNode stopQuotable
  refine tidy.rebuild (a.rebuilt_addEdge start stop) (tidy.wellFormed.addEdge start stop) ?_ ?_
  · intro name data found
    rw [Automaton.nodes_addEdge] at found
    exact nodes.node found
  · intro other next data found
    rw [Automaton.edgeData?_addEdge] at found
    split at found
    · cases before : a.edgeData? start stop with
      | none =>
          simp only [before, Option.getD_none, Option.some.injEq] at found
          exact found ▸ tidyEdge_plain
      | some old =>
          simp only [before, Option.getD_some, Option.some.injEq] at found
          exact found ▸ tidy.edge before
    · exact tidy.edge found

theorem mapNode (tidy : Tidy title a) {name : String} {f : NodeData → NodeData}
    (keeps : ∀ data, TidyNode name data → TidyNode name (f data)) :
    Tidy title (a.mapNode name f) := by
  refine tidy.rebuild rfl (tidy.wellFormed.mapNode name f) ?_ tidy.edge
  intro other data found
  rw [Automaton.mapNode, Table.get?_modify] at found
  split at found
  · next same =>
      subst same
      obtain ⟨before, present, rfl⟩ := Option.map_eq_some_iff.mp found
      exact keeps before (tidy.node present)
  · exact tidy.node found

theorem mapEdge (tidy : Tidy title a) {start stop : String} {f : EdgeData → EdgeData}
    (keeps : ∀ data, TidyEdge data → TidyEdge (f data)) : Tidy title (a.mapEdge start stop f) := by
  refine tidy.rebuild rfl (tidy.wellFormed.mapEdge start stop f) tidy.node ?_
  intro other next data found
  rw [Automaton.edgeData?_mapEdge] at found
  split at found
  · obtain ⟨before, present, rfl⟩ := Option.map_eq_some_iff.mp found
    exact keeps before (tidy.edge present)
  · exact tidy.edge found

theorem removeEdge (tidy : Tidy title a) (start stop : String) :
    Tidy title (a.removeEdge start stop) := by
  refine tidy.rebuild (a.rebuilt_setRow start _) (tidy.wellFormed.removeEdge start stop) ?_ ?_
  · intro name data found
    rw [Automaton.nodes_removeEdge] at found
    exact tidy.node found
  · intro other next data found
    rw [Automaton.edgeData?_removeEdge] at found
    split at found
    · cases found
    · exact tidy.edge found

theorem moveStart (tidy : Tidy title a) (old : String) {new : String}
    (quotable : Quotable new.toList) : Tidy title (a.moveStart old new) := by
  refine tidy.rebuild (a.rebuilt_moveStart old new) (tidy.wellFormed.moveStart old new) ?_ ?_
  · intro name data found
    rw [Automaton.nodes_moveStart] at found
    split at found
    · exact tidy.node found
    · exact (tidy.addNode quotable).node found
  · intro other next data found
    rw [Automaton.edgeData?_moveStart] at found
    split at found
    · rcases Option.or_eq_some_iff.mp found with moved | ⟨-, kept⟩
      · exact tidy.edge moved
      · split at kept
        · cases kept
        · exact tidy.edge kept
    · split at found
      · cases found
      · exact tidy.edge found

end Tidy

/-! ### Drafts -/

structure TidyDraft (title : String) (draft : Draft) : Prop where
  automaton : Tidy title draft.automaton
  guarded : ∀ job ∈ draft.guarded, job.2.2.isGuard = true
  moving : ∀ job ∈ draft.moving,
    Quotable job.1.toList ∧ job.2.isGuard = false ∧ job.2.Readable

namespace TidyDraft

variable {title : String} {draft : Draft}

theorem labelEdge (tidy : TidyDraft title draft) {label : String} (quotable : Quotable label.toList)
    (pair : String × String) : TidyDraft title (draft.labelEdge label pair) := by
  unfold Draft.labelEdge
  split
  · next instr found =>
      split
      · next guard =>
          refine ⟨tidy.automaton, ?_, tidy.moving⟩
          intro job member
          rcases List.mem_append.mp member with old | new
          · exact tidy.guarded job old
          · rw [List.mem_singleton.mp new]
            exact guard
      · next delta =>
          refine ⟨tidy.automaton.mapEdge ?_, tidy.guarded, tidy.moving⟩
          intro data fits
          refine ⟨fits.label, ?_⟩
          rintro operation ⟨rfl⟩
          exact ⟨by simpa using delta, readable_of_labelInstr? found⟩
  · next none =>
      refine ⟨tidy.automaton.mapEdge ?_, tidy.guarded, tidy.moving⟩
      intro data fits
      refine ⟨?_, fits.operation⟩
      rintro text ⟨rfl⟩
      exact ⟨quotable, none⟩

theorem labelNode (tidy : TidyDraft title draft) {label name : String}
    (quotable : Quotable label.toList) (nameQuotable : Quotable name.toList)
    (ordinary : isDefaultsName name = false) : TidyDraft title (draft.labelNode label name) := by
  have notDefault {data : NodeData} : isDefaultsName name = true → data = .plain := by
    rw [ordinary]
    exact nofun
  unfold Draft.labelNode
  split
  · next instr found =>
      split
      · next guard =>
          refine ⟨tidy.automaton.mapNode ?_, tidy.guarded, tidy.moving⟩
          intro data fits
          refine ⟨nameQuotable, fits.label, ?_, notDefault⟩
          rintro condition ⟨rfl⟩
          exact guard
      · next delta =>
          refine ⟨tidy.automaton, tidy.guarded, ?_⟩
          intro job member
          rcases List.mem_append.mp member with old | new
          · exact tidy.moving job old
          · rw [List.mem_singleton.mp new]
            exact ⟨nameQuotable, by simpa using delta, readable_of_labelInstr? found⟩
  · next none =>
      refine ⟨tidy.automaton.mapNode ?_, tidy.guarded, tidy.moving⟩
      intro data fits
      refine ⟨nameQuotable, ?_, fits.condition, notDefault⟩
      rintro text ⟨rfl⟩
      exact ⟨quotable, none⟩

theorem hideNode (tidy : TidyDraft title draft) {name : String}
    (ordinary : isDefaultsName name = false) :
    TidyDraft title (draft.hideNode name) := by
  refine ⟨tidy.automaton.mapNode ?_, tidy.guarded, tidy.moving⟩
  intro data fits
  refine ⟨fits.quotable, fits.label, fits.condition, ?_⟩
  rw [ordinary]
  exact nofun

theorem applyAttribute (tidy : TidyDraft title draft) {s : Statement} (fits : s.Tidy)
    {attr : Attribute}
    (member : attr ∈ s.attributes) : TidyDraft title (draft.applyAttribute s attr) := by
  have value := fits.values attr member
  -- Only node statements get here with their first node, and then it is no default name.
  have ordinary (single : s.isEdge = false) : isDefaultsName s.first = false := by
    cases reserved : isDefaultsName s.first with
    | false => rfl
    | true =>
        rw [fits.first reserved single] at member
        cases member
  unfold Draft.applyAttribute
  split
  · split
    · exact List.foldlRecOn _ _ tidy fun _ fits pair _ => fits.labelEdge value pair
    · next single =>
        exact tidy.labelNode value (fits.names _ List.mem_cons_self)
          (ordinary (by simpa using single))
  · next notLabel =>
      split
      · next hides =>
          simp only [Draft.understands, notLabel, Bool.false_or, Bool.and_eq_true] at hides
          exact tidy.hideNode (ordinary (by simpa using hides.1.2))
      · exact tidy

theorem applyStatement (tidy : TidyDraft title draft) {s : Statement} (fits : s.Tidy) :
    TidyDraft title (draft.applyStatement s) := by
  have nodes : Tidy title (s.nodes.foldl Automaton.addNode draft.automaton) :=
    List.foldlRecOn _ _ tidy.automaton fun _ inner name member =>
      inner.addNode (fits.names name member)
  have edges : Tidy title (s.pairs.foldl (fun a pair => a.addEdge pair.1 pair.2)
      (s.nodes.foldl Automaton.addNode draft.automaton)) := by
    refine List.foldlRecOn _ _ nodes fun _ inner pair member => ?_
    obtain ⟨start, stop⟩ := List.of_mem_zip member
    exact inner.addEdge (fits.names _ start) (fits.names _ (List.mem_cons_of_mem _ stop))
  refine List.foldlRecOn _ _ ?_ fun _ inner attr member => inner.applyAttribute fits member
  exact ⟨edges, tidy.guarded, tidy.moving⟩

end TidyDraft

theorem tidyDraft_ofItems {name : String} {items : List Item} (quotable : Quotable name.toList)
    (fits : ∀ item ∈ items, item.Tidy) : TidyDraft name (.ofItems name items) := by
  have start : TidyDraft name (.empty name) :=
    ⟨tidy_empty quotable, by simp [Draft.empty], by simp [Draft.empty]⟩
  refine List.foldlRecOn _ _ start fun draft tidy item member => ?_
  have one := fits item member
  cases item with
  | graphAttribute key value => exact tidy
  | defaults attrs => exact tidy
  | statement s => exact tidy.applyStatement one

/-! ### Splits -/

theorem quotable_freshName (n : Nat) : Quotable (Splitting.freshName n).toList := by
  apply quotable_of_notMem
  intro member
  simp only [Splitting.freshName, String.toList_ofList, List.mem_cons] at member
  rcases member with same | digit
  · exact absurd same (by decide)
  · exact absurd (Nat.isDigit_of_mem_toDigits (by decide) (by decide) digit) (by decide)

theorem isDefaultsName_freshName (n : Nat) : isDefaultsName (Splitting.freshName n) = false := by
  have differs : ∀ c rest, c ≠ '_' → Splitting.freshName n ≠ String.ofList (c :: rest) := by
    intro c rest different same
    injection String.ofList_injective same with first
    exact different first.symm
  simp only [isDefaultsName, Bool.or_eq_false_iff, beq_eq_false_iff_ne]
  exact ⟨⟨differs 'n' "ode".toList (by decide), differs 'e' "dge".toList (by decide)⟩,
    differs 'g' "raph".toList (by decide)⟩

theorem Tidy.splitEdge {title : String} {w : Splitting} (tidy : Tidy title w.automaton)
    {job : String × String × Instr} (guard : job.2.2.isGuard = true) :
    Tidy title (w.splitEdge job).automaton := by
  obtain ⟨start, stop, instr⟩ := job
  have fresh := quotable_freshName w.free
  simp only [Splitting.splitEdge]
  split
  · exact tidy
  · next data found =>
      obtain ⟨startNode, stopNode⟩ := tidy.wellFormed.ends (Automaton.hasEdge_of_edgeData? found)
      obtain ⟨startData, startFound⟩ := Option.isSome_iff_exists.mp startNode
      obtain ⟨stopData, stopFound⟩ := Option.isSome_iff_exists.mp stopNode
      have first := (tidy.removeEdge start stop).addEdge (tidy.node startFound).quotable fresh
      have edges := first.addEdge fresh (tidy.node stopFound).quotable
      refine (edges.mapNode ?_).mapEdge ?_
      · intro node fits
        refine ⟨fits.quotable, fits.label, ?_, ?_⟩
        · rintro condition ⟨rfl⟩
          exact guard
        -- Fresh names start with an underscore, so the guard is not on a default name.
        · rw [isDefaultsName_freshName]
          exact nofun
      · intro edge fits
        exact ⟨fits.label, (tidy.edge found).operation⟩

theorem Tidy.splitNode {title : String} {w : Splitting} (tidy : Tidy title w.automaton)
    {job : String × Instr}
    (quotable : Quotable job.1.toList) (delta : job.2.isGuard = false) (readable : job.2.Readable) :
    Tidy title (w.splitNode job).automaton := by
  obtain ⟨name, instr⟩ := job
  have fresh := quotable_freshName w.free
  refine ((tidy.moveStart name fresh).addEdge quotable fresh).mapEdge ?_
  intro edge fits
  refine ⟨fits.label, ?_⟩
  rintro operation ⟨rfl⟩
  exact ⟨delta, readable⟩

theorem TidyDraft.split {title : String} {draft : Draft} (tidy : TidyDraft title draft) :
    Tidy title draft.split.automaton := by
  have edges :
      Tidy title (draft.guarded.foldl Splitting.splitEdge ⟨draft.automaton, 0, []⟩).automaton :=
    List.foldlRecOn (motive := fun w : Splitting => Tidy title w.automaton) _ _ tidy.automaton
      fun _ inner job member => inner.splitEdge (tidy.guarded job member)
  refine List.foldlRecOn (motive := fun w : Splitting => Tidy title w.automaton) _ _ edges
    fun _ inner job member => ?_
  obtain ⟨quotable, delta, readable⟩ := tidy.moving job member
  exact inner.splitNode quotable delta readable

/-! ### Files -/

theorem quotable_of_keyword {input body : List Lexeme} (parsed : keyword input = .ok body)
    (quotable : AllQuotable input) : AllQuotable body := by
  simp only [keyword] at parsed
  split at parsed
  · next shape =>
      cases parsed
      split at shape
      · rw [shape] at quotable
        exact quotable.tail.tail
      · exact (shape ▸ quotable).tail
  · next shape =>
      cases parsed
      split at shape
      · rw [shape] at quotable
        exact quotable.tail.tail
      · exact (shape ▸ quotable).tail
  · cases parsed

theorem quotable_of_header {input rest : List Lexeme} {name : String}
    (parsed : header input = .ok (name, rest)) (quotable : AllQuotable input) :
    Quotable name.toList ∧ AllQuotable rest := by
  unfold header at parsed
  cases opening : keyword input with
  | error fault => simp [opening, bind, Except.bind] at parsed
  | ok body =>
      have bodyQuotable := quotable_of_keyword opening quotable
      simp only [opening, bind, Except.bind] at parsed
      split at parsed
      · next shape =>
          split at shape
          · simp only at shape
            cases parsed
            rw [shape] at bodyQuotable
            exact ⟨bodyQuotable.name, bodyQuotable.tail.tail⟩
          · simp only at shape
            rw [shape] at parsed bodyQuotable
            cases parsed
            exact ⟨(by decide : Quotable "automaton".toList), bodyQuotable.tail⟩
      · cases parsed

/-- All items of a file are tidy, and its name can be written in quotes. -/
theorem tidy_of_ofLexemes {input : List Lexeme} {document : Document}
    (parsed : Document.ofLexemes input = .ok document) (quotable : AllQuotable input) :
    Quotable document.name.toList ∧ ∀ item ∈ document.items, item.Tidy := by
  unfold Document.ofLexemes at parsed
  cases opening : header input with
  | error fault => simp [opening, bind, Except.bind] at parsed
  | ok parts =>
      obtain ⟨name, rest⟩ := parts
      obtain ⟨nameQuotable, restQuotable⟩ := quotable_of_header opening quotable
      simp only [opening, bind, Except.bind, pure, Except.pure, Except.ok.injEq] at parsed
      subst parsed
      exact ⟨nameQuotable, items_tidy restQuotable⟩

theorem resolved_of_automaton {document : Document} {a : Automaton}
    (ok : document.automaton = .ok a) :
    document.draft.split.automaton.resolveInitial.bind Automaton.discoverLoops = .ok a := by
  unfold Document.automaton at ok
  split at ok
  · cases ok
  · cases resolved : document.draft.split.automaton.resolveInitial.bind Automaton.discoverLoops with
    | error fault =>
        simp only [resolved] at ok
        cases ok
    | ok found =>
        simp only [resolved] at ok
        cases ok
        rfl

/-- An automaton that has been read is tidy up to its initial node and its loops, which come
last. -/
theorem tidy_of_parse {text : String} {a : Automaton} (parsed : parse text = .ok a) :
    ∃ title base, Tidy title base ∧ base.resolveInitial.bind Automaton.discoverLoops = .ok a := by
  unfold parse at parsed
  cases scanned : tokenize text with
  | error fault => simp [scanned, bind, Except.bind] at parsed
  | ok lexemes =>
      cases read : Document.ofLexemes lexemes with
      | error fault => simp [scanned, read, bind, Except.bind] at parsed
      | ok document =>
          obtain ⟨name, items⟩ := tidy_of_ofLexemes read (quotable_of_scan scanned)
          simp only [scanned, read, bind, Except.bind] at parsed
          exact ⟨_, _, (tidyDraft_ofItems name items).split, resolved_of_automaton parsed⟩

/-- The automaton with its initial node and loops, which are found last. -/
def completed (base : Automaton) (target : String) (loops? : Option (List Loop)) : Automaton :=
  { base with initial? := some target, loops? := loops? }

theorem completed_of_resolve {base a : Automaton}
    (resolved : base.resolveInitial.bind Automaton.discoverLoops = .ok a) :
    ∃ target loops?, base.entryTarget? = some target ∧ a = completed base target loops? := by
  unfold Automaton.resolveInitial at resolved
  cases entry : base.entryTarget? with
  | none => simp [entry, Except.bind] at resolved
  | some target =>
      simp only [entry, Except.bind, Automaton.discoverLoops] at resolved
      split at resolved
      · cases resolved
      · cases resolved
        exact ⟨target, _, rfl, rfl⟩

end OneCounter.Dot
