import OneCounter.Proofs.Dot.Splits

/-!
The routes between the nodes of a document once all is split. Main statements: the described edges
and the routes over fresh nodes correspond one to one, a route makes the deltas of its first node
and then that of the edge, and the first guard given to an edge is the only one on its route.
-/

namespace OneCounter

namespace Dot

/-! ### Plans -/

/-- What the way along an edge is to do: the deltas of its first node, the guard, and the operation
of the edge. -/
structure Plan where
  deltas : List Instr
  guard? : Option Instr
  operation? : Option Instr
deriving DecidableEq

namespace Plan

/-- The operation of every edge on the way. -/
def operations (plan : Plan) : List (Option Instr) :=
  plan.deltas.map some ++ plan.guard?.toList.map (fun _ => none) ++ [plan.operation?]

/-- The nodes put in on the way. -/
def nodes (plan : Plan) : List NodeData :=
  plan.deltas.map (fun _ => .plain) ++
    plan.guard?.toList.map fun guard => { NodeData.plain with condition? := some guard }

end Plan

/-- There is one route that does as planned, or no route without a plan. -/
def Follows (a : Automaton) (names : List String) (start stop : String) : Option Plan → Prop
  | none => ∀ inner operations, ¬ a.Route names start inner operations stop
  | some plan => ∃ inner, (∀ other operations, a.Route names start other operations stop ↔
      other = inner ∧ operations = plan.operations) ∧
      inner.map a.nodes.get? = plan.nodes.map some

namespace Follows

variable {a b : Automaton} {names : List String} {start stop : String}

theorem congr {plan? : Option Plan} (follows : Follows a names start stop plan?)
    (wellFormed : a.WellFormed) (routes : ∀ inner operations,
      b.Route names start inner operations stop ↔ a.Route names start inner operations stop)
    (nodes : ∀ name, a.hasNode name = true → b.nodes.get? name = a.nodes.get? name) :
    Follows b names start stop plan? := by
  cases plan? with
  | none => exact fun inner operations way => follows inner operations ((routes _ _).mp way)
  | some plan =>
      obtain ⟨inner, only, marks⟩ := follows
      have way := (only inner plan.operations).mpr ⟨rfl, rfl⟩
      refine ⟨inner, fun other operations => (routes _ _).trans (only _ _), ?_⟩
      rw [way.map_get? wellFormed nodes, marks]

variable {plan : Plan}

/-- Along a direct edge there is no fresh node, and so neither a delta of the node nor a guard. -/
theorem eq_of_edge (follows : Follows a names start stop (some plan)) {data : EdgeData}
    (found : a.edgeData? start stop = some data) : plan = ⟨[], none, data.operation?⟩ := by
  obtain ⟨inner, only, marks⟩ := follows
  obtain ⟨rfl, same⟩ := (only [] [data.operation?]).mp (.last found)
  obtain ⟨deltas, guard?, operation?⟩ := plan
  have bare : deltas = [] ∧ guard? = none := by simpa [Plan.nodes] using marks
  obtain ⟨rfl, rfl⟩ := bare
  simpa [Plan.operations, eq_comm] using same

theorem isSome_guard?_of_no_edge (follows : Follows a names start stop (some plan))
    (still : plan.deltas = []) (gone : a.edgeData? start stop = none) :
    plan.guard?.isSome = true := by
  obtain ⟨inner, only, marks⟩ := follows
  cases guard? : plan.guard? with
  | some guard => rfl
  | none =>
      obtain rfl : inner = [] := by simpa [Plan.nodes, still, guard?] using marks
      obtain ⟨data, found, _⟩ :=
        Automaton.route_nil_iff.mp ((only [] plan.operations).mpr ⟨rfl, rfl⟩)
      simp [gone] at found

/-- All ways lead over a guard if and only if it is the planned one. -/
theorem forall_condition_iff (follows : Follows a names start stop (some plan)) (guard : Instr) :
    (∀ inner operations, a.Route names start inner operations stop →
      ∃ name ∈ inner, a.condition? name = some guard) ↔ plan.guard? = some guard := by
  obtain ⟨inner, only, marks⟩ := follows
  have conditions : inner.map a.condition? = plan.nodes.map NodeData.condition? := by
    have mapped := congrArg (List.map fun data? => data?.bind NodeData.condition?) marks
    rw [List.map_map, List.map_map] at mapped
    exact mapped
  have planned : some guard ∈ plan.nodes.map NodeData.condition? ↔ plan.guard? = some guard := by
    simp [Plan.nodes, NodeData.plain]
  rw [← planned, ← conditions, List.mem_map]
  constructor
  · exact fun all => all inner plan.operations ((only _ _).mpr ⟨rfl, rfl⟩)
  · intro passed other operations way
    exact ((only other operations).mp way).1 ▸ passed

section Split

variable {w : Splitting} {plan? : Option Plan} {origin target name : String} {data : EdgeData}
  (wellFormed : w.automaton.WellFormed) (named : ∀ name ∈ names, w.automaton.hasNode name = true)
  (origins : origin ∈ names) (targets : target ∈ names)

include wellFormed named origins targets

/-- Splitting a direct edge puts the guard on the way along it. -/
theorem splitEdge (follows : Follows w.automaton names origin target plan?)
    (found : w.automaton.edgeData? start stop = some data) (guard : Instr) (starts : start ∈ names)
    (stops : stop ∈ names) :
    Follows (w.splitEdge (start, stop, guard)).automaton names origin target
      (if origin = start ∧ target = stop then
        plan?.map fun plan => { plan with guard? := some guard } else plan?) := by
  have nodes := Splitting.get?_splitEdge wellFormed guard found
  have routes := fun inner operations => Splitting.route_splitEdge_iff wellFormed guard inner
    operations named found starts stops origins targets
  split
  · next here =>
      obtain ⟨rfl, rfl⟩ := here
      cases plan? with
      | none => exact absurd (.last found) (follows [] [data.operation?])
      | some plan =>
          obtain rfl := follows.eq_of_edge found
          obtain ⟨inner, only, marks⟩ := follows
          obtain rfl : inner = [] := by simpa [Plan.nodes] using marks
          refine ⟨[Splitting.freshName w.free], ?_, by simp [nodes, Plan.nodes]⟩
          intro other operations
          rw [routes, only]
          constructor
          · rintro (⟨-, -, way, same⟩ | ⟨⟨way, -⟩, elsewhere⟩)
            · exact ⟨way, same⟩
            · exact absurd ⟨rfl, rfl, way⟩ elsewhere
          · rintro ⟨way, same⟩
            exact Or.inl ⟨rfl, rfl, way, same⟩
  · next other =>
      refine follows.congr wellFormed ?_ (Splitting.get?_of_hasNode nodes)
      intro inner operations
      rw [routes]
      simp only [← and_assoc, other, false_and, false_or, not_false_eq_true, and_true]

/-- Splitting a node puts the delta at the beginning of all ways from it. -/
theorem splitNode (follows : Follows w.automaton names origin target plan?) (delta : Instr)
    (member : name ∈ names) :
    Follows (w.splitNode (name, delta)).automaton names origin target
      (if origin = name then
        plan?.map fun plan => { plan with deltas := delta :: plan.deltas } else plan?) := by
  have nodes := Splitting.get?_splitNode delta (named name member)
  have routes := fun inner operations => Splitting.route_splitNode_iff wellFormed delta inner
    operations named member origins targets
  split
  · next here =>
      subst here
      simp only [if_true] at routes
      cases plan? with
      | none =>
          intro inner operations way
          obtain ⟨rest, others, -, -, before⟩ := (routes _ _).mp way
          exact follows rest others before
      | some plan =>
          obtain ⟨inner, only, marks⟩ := follows
          have way := (only inner plan.operations).mpr ⟨rfl, rfl⟩
          refine ⟨Splitting.freshName w.free :: inner, ?_, ?_⟩
          · intro other operations
            simp only [routes, only]
            constructor
            · rintro ⟨rest, others, rfl, rfl, rfl, rfl⟩
              exact ⟨rfl, rfl⟩
            · rintro ⟨rfl, rfl⟩
              exact ⟨inner, plan.operations, rfl, rfl, rfl, rfl⟩
          · rw [List.map_cons, nodes, if_pos rfl,
              way.map_get? wellFormed (Splitting.get?_of_hasNode nodes), marks]
            rfl
  · next other =>
      simp only [if_neg other] at routes
      exact follows.congr wellFormed routes (Splitting.get?_of_hasNode nodes)

end Split

end Follows

namespace Draft

/-- The first guard noted for an edge. -/
def guard? (draft : Draft) (start stop : String) : Option Instr :=
  (draft.guarded.find? fun job => job.1 = start ∧ job.2.1 = stop).map fun job => job.2.2

/-- The deltas noted for a node, the last one first. -/
def deltas (draft : Draft) (name : String) : List Instr :=
  (draft.moving.filter fun job => job.1 = name).reverse.map Prod.snd

def plan? (draft : Draft) (start stop : String) : Option Plan :=
  (draft.automaton.edgeData? start stop).map fun data =>
    ⟨draft.deltas start, draft.guard? start stop, data.operation?⟩

section Append

variable (draft : Draft) (start stop origin target : String) (instr : Instr)

/-- Only the first guard noted for an edge counts. -/
theorem plan?_append_guarded :
    plan? { draft with guarded := draft.guarded ++ [(start, stop, instr)] } origin target =
      if origin = start ∧ target = stop then (draft.plan? origin target).map fun plan =>
        { plan with guard? := plan.guard?.or (some instr) }
      else draft.plan? origin target := by
  have guards : guard? { draft with guarded := draft.guarded ++ [(start, stop, instr)] } origin
      target = (draft.guard? origin target).or
        (if origin = start ∧ target = stop then some instr else none) := by
    rw [guard?, guard?, List.find?_append, Option.map_or]
    by_cases here : origin = start ∧ target = stop
    · simp [here]
    · have other : ¬ (start = origin ∧ stop = target) := fun same => here ⟨same.1.symm, same.2.symm⟩
      simp [here, other]
  rw [plan?, plan?, guards]
  split
  · simp [Function.comp_def, deltas]
  · simp [deltas]

theorem plan?_append_moving :
    plan? { draft with moving := draft.moving ++ [(start, instr)] } origin target =
      if origin = start then (draft.plan? origin target).map fun plan =>
        { plan with deltas := instr :: plan.deltas }
      else draft.plan? origin target := by
  by_cases here : origin = start
  · simp [plan?, deltas, guard?, here, Function.comp_def]
  · simp [plan?, deltas, guard?, here, Ne.symm here]

end Append

end Draft

namespace Splitting

/-- What the splits done so far have made of a draft with these nodes. -/
structure Realizes (w : Splitting) (draft : Draft) (names : List String) : Prop where
  wellFormed : w.automaton.WellFormed
  known : ∀ name, w.automaton.hasNode name = true ↔ name ∈ names ∨ name ∈ w.freshNames
  distinct : w.freshNames.Nodup
  apart : ∀ name ∈ w.freshNames, name ∉ names
  kept : ∀ name ∈ names, w.automaton.nodes.get? name = draft.automaton.nodes.get? name
  routes : ∀ start ∈ names, ∀ stop ∈ names,
    Follows w.automaton names start stop (draft.plan? start stop)

namespace Realizes

variable {w : Splitting} {draft : Draft} {names : List String}

theorem named (realizes : w.Realizes draft names) :
    ∀ name ∈ names, w.automaton.hasNode name = true :=
  fun name member => (realizes.known name).mpr (Or.inl member)

/-- One more fresh node, if it is added and the routes follow the new plans. -/
theorem put (realizes : w.Realizes draft names) {w' : Splitting} {draft' : Draft} {data : NodeData}
    (wellFormed : w'.automaton.WellFormed)
    (fresh : w'.freshNames = w.freshNames ++ [freshName w.free])
    (nodes : ∀ other, w'.automaton.nodes.get? other =
      if other = freshName w.free then some data else w.automaton.nodes.get? other)
    (same : draft'.automaton = draft.automaton)
    (routes : ∀ start ∈ names, ∀ stop ∈ names,
      Follows w'.automaton names start stop (draft'.plan? start stop)) :
    w'.Realizes draft' names := by
  have unknown := w.hasNode_free
  have unnamed := notMem_names_of_free realizes.named
  refine ⟨wellFormed, ?_, ?_, ?_, ?_, routes⟩
  · intro name
    have before := realizes.known name
    rw [Automaton.hasNode, Table.contains, nodes, fresh, List.mem_append, List.mem_singleton,
      ← or_assoc, ← before]
    by_cases here : name = freshName w.free
    · simp [here]
    · simp [here, Automaton.hasNode, Table.contains]
  · have new : freshName w.free ∉ w.freshNames := fun member => by
      simp [(realizes.known _).mpr (Or.inr member)] at unknown
    rw [fresh]
    exact realizes.distinct.append (List.nodup_singleton _) (by simpa using new)
  · intro name member
    rw [fresh, List.mem_append, List.mem_singleton] at member
    rcases member with old | rfl
    · exact realizes.apart name old
    · exact unnamed
  · intro name member
    have other : name ≠ freshName w.free := fun here => unnamed (here ▸ member)
    rw [nodes, if_neg other, same, realizes.kept name member]

/-- An edge is split for its first guard, and passed over for the others. -/
theorem splitEdge (realizes : w.Realizes draft names) (still : draft.moving = [])
    {start stop : String} (guard : Instr) (starts : start ∈ names) (stops : stop ∈ names)
    (edge : draft.automaton.hasEdge start stop = true) :
    (w.splitEdge (start, stop, guard)).Realizes
      { draft with guarded := draft.guarded ++ [(start, stop, guard)] } names := by
  have plans := draft.plan?_append_guarded start stop
  obtain ⟨own, drawn⟩ := Option.isSome_iff_exists.mp edge
  have planned : draft.plan? start stop =
      some ⟨[], draft.guard? start stop, own.operation?⟩ := by
    simp [Draft.plan?, drawn, Draft.deltas, still]
  have follows := realizes.routes start starts stop stops
  rw [planned] at follows
  cases found : w.automaton.edgeData? start stop with
  | none =>
      obtain ⟨first, given⟩ : ∃ first, draft.guard? start stop = some first :=
        Option.isSome_iff_exists.mp (follows.isSome_guard?_of_no_edge rfl found)
      have unchanged : w.splitEdge (start, stop, guard) = w := by simp [Splitting.splitEdge, found]
      rw [unchanged]
      refine ⟨realizes.wellFormed, realizes.known, realizes.distinct, realizes.apart,
        realizes.kept, ?_⟩
      intro origin origins target targets
      have before := realizes.routes origin origins target targets
      rw [plans]
      split
      · next here =>
          rw [here.1, here.2, planned] at before ⊢
          simpa [given] using before
      · exact before
  | some data =>
      have unguarded := (Plan.mk.inj (follows.eq_of_edge found)).2.1
      refine realizes.put (wellFormed_splitEdge realizes.wellFormed _)
        (by simp [freshNames, Splitting.splitEdge, found, Split.fresh])
        (get?_splitEdge realizes.wellFormed guard found) rfl ?_
      intro origin origins target targets
      have after := (realizes.routes origin origins target targets).splitEdge realizes.wellFormed
        realizes.named origins targets found guard starts stops
      rw [plans]
      split
      · next here =>
          rw [if_pos here, here.1, here.2, planned] at after
          rw [here.1, here.2, planned]
          simpa [unguarded] using after
      · next other =>
          rw [if_neg other] at after
          exact after

theorem splitNode (realizes : w.Realizes draft names) {name : String} (delta : Instr)
    (member : name ∈ names) : (w.splitNode (name, delta)).Realizes
      { draft with moving := draft.moving ++ [(name, delta)] } names := by
  refine realizes.put (wellFormed_splitNode realizes.wellFormed _)
    (by simp [freshNames, Splitting.splitNode, Split.fresh])
    (get?_splitNode delta (realizes.named name member)) rfl ?_
  intro origin origins target targets
  rw [draft.plan?_append_moving]
  exact (realizes.routes origin origins target targets).splitNode realizes.wellFormed
    realizes.named origins targets delta member

end Realizes

end Splitting

/-! ### All splits -/

namespace Draft

variable {draft : Draft} {names : List String}

/-- Nothing has been split yet. -/
theorem realizes_start (wellFormed : draft.automaton.WellFormed)
    (known : ∀ name, draft.automaton.hasNode name = true ↔ name ∈ names) :
    Splitting.Realizes ⟨draft.automaton, 0, []⟩ ⟨draft.automaton, [], []⟩ names := by
  refine ⟨wellFormed, by simpa [Splitting.freshNames] using known, List.nodup_nil,
    by simp [Splitting.freshNames], fun _ _ => rfl, ?_⟩
  intro start _ stop _
  -- A first node on the way would be among the names.
  have direct : ∀ inner operations, draft.automaton.Route names start inner operations stop →
      inner = [] := by
    intro inner operations way
    cases inner with
    | nil => rfl
    | cons next rest =>
        have node := way.hasNode wellFormed next List.mem_cons_self
        exact absurd ((known next).mp node) (way.fresh next List.mem_cons_self)
  cases drawn : draft.automaton.edgeData? start stop with
  | none =>
      simp only [plan?, drawn, Option.map_none]
      intro inner operations way
      obtain rfl := direct _ _ way
      simp [Automaton.route_nil_iff, drawn] at way
  | some data =>
      simp only [plan?, drawn, Option.map_some]
      refine ⟨[], ?_, rfl⟩
      intro other operations
      constructor
      · intro way
        obtain rfl := direct _ _ way
        have same : operations = [data.operation?] := by
          simpa [Automaton.route_nil_iff, drawn] using way
        exact ⟨rfl, same⟩
      · rintro ⟨rfl, rfl⟩
        exact .last drawn

theorem realizes_split (wellFormed : draft.automaton.WellFormed)
    (known : ∀ name, draft.automaton.hasNode name = true ↔ name ∈ names)
    (guarded : ∀ job ∈ draft.guarded, draft.automaton.hasEdge job.1 job.2.1 = true)
    (moving : ∀ job ∈ draft.moving, job.1 ∈ names) : draft.split.Realizes draft names := by
  have edges : ∀ jobs : List (String × String × Instr),
      (∀ job ∈ jobs, draft.automaton.hasEdge job.1 job.2.1 = true) →
      (jobs.foldl Splitting.splitEdge ⟨draft.automaton, 0, []⟩).Realizes
        ⟨draft.automaton, jobs, []⟩ names := by
    intro jobs each
    induction jobs using List.reverseRecOn with
    | nil => exact realizes_start wellFormed known
    | append_singleton jobs job ih =>
        have edge := each job (by simp)
        obtain ⟨starts, stops⟩ := wellFormed.ends edge
        rw [List.foldl_append]
        exact (ih fun job member => each job (by simp [member])).splitEdge rfl job.2.2
          ((known _).mp starts) ((known _).mp stops) edge
  have nodes : ∀ jobs : List (String × Instr), (∀ job ∈ jobs, job.1 ∈ names) →
      (jobs.foldl Splitting.splitNode
        (draft.guarded.foldl Splitting.splitEdge ⟨draft.automaton, 0, []⟩)).Realizes
        ⟨draft.automaton, draft.guarded, jobs⟩ names := by
    intro jobs each
    induction jobs using List.reverseRecOn with
    | nil => exact edges draft.guarded guarded
    | append_singleton jobs job ih =>
        rw [List.foldl_append]
        exact (ih fun job member => each job (by simp [member])).splitNode job.2
          (each job (by simp))
  exact nodes draft.moving moving

end Draft

/-! ### Files -/

namespace Script

/-- What a described edge is to do: the deltas of its first node, the last one first, then the first
guard given to the edge, and its last delta. -/
def plan? (script : Script) (start stop : String) : Option Plan :=
  if (start, stop) ∈ script.links then
    some ⟨(script.nodeDeltas start).reverse, (script.linkGuards start stop).head?,
      (script.linkData start stop).operation?⟩
  else none

variable (script : Script)

theorem find?_guards (guards : List Instr) (pairs : List (String × String)) (start stop : String) :
    ((guards.flatMap fun guard => pairs.map fun pair => (pair.1, pair.2, guard)).find?
        fun job => job.1 = start ∧ job.2.1 = stop).map (fun job => job.2.2) =
      if (start, stop) ∈ pairs then guards.head? else none := by
  induction guards with
  | nil => simp
  | cons guard rest ih =>
      have one : ((pairs.map fun pair => (pair.1, pair.2, guard)).find?
          fun job => job.1 = start ∧ job.2.1 = stop).map (fun job => job.2.2) =
          if (start, stop) ∈ pairs then some guard else none := by
        rw [List.find?_map, Option.map_map]
        split
        · next part =>
            obtain ⟨pair, found⟩ := Option.isSome_iff_exists.mp
              (List.find?_isSome (p := fun pair => decide (pair.1 = start ∧ pair.2 = stop)).mpr
                ⟨_, part, by simp⟩)
            simp only [Function.comp_def, found, Option.map_some]
        · next apart =>
            rw [Option.map_eq_none_iff, List.find?_eq_none]
            rintro ⟨first, second⟩ member both
            obtain ⟨rfl, rfl⟩ : first = start ∧ second = stop := by simpa using both
            exact apart member
      rw [List.flatMap_cons, List.find?_append, Option.map_or, one, ih]
      split
      · rfl
      · rfl

theorem find?_guardJobs (start stop : String) :
    (script.guardJobs.find? fun job => job.1 = start ∧ job.2.1 = stop).map (fun job => job.2.2) =
      (script.linkGuards start stop).head? := by
  induction script using List.reverseRecOn with
  | nil => rfl
  | append_singleton done s ih =>
      rw [guardJobs_append, List.find?_append, Option.map_or, ih, find?_guards, linkGuards,
        linkGuards, linkLabels_append, guardsOf_append, List.head?_append]
      split
      · rfl
      · rfl

theorem filter_deltaJobs (name : String) :
    (script.deltaJobs.filter fun job => job.1 = name).map Prod.snd = script.nodeDeltas name := by
  induction script using List.reverseRecOn with
  | nil => rfl
  | append_singleton done s ih =>
      rw [deltaJobs_append, List.filter_append, List.map_append, ih, nodeDeltas, nodeDeltas,
        nodeLabels_append, deltasOf_append]
      cases edge : s.isEdge with
      | true => simp [Statement.isAbout, edge, deltasOf]
      | false =>
          by_cases here : s.first = name
          · simp [Statement.isAbout, edge, here, List.filter_map, Function.comp_def]
          · simp [Statement.isAbout, edge, here, List.filter_map, Function.comp_def, deltasOf]

end Script

theorem Draft.Describes.plan?_eq {draft : Draft} {script : Script}
    (describes : draft.Describes script) (start stop : String) :
    draft.plan? start stop = script.plan? start stop := by
  have deltas : draft.deltas start = (script.nodeDeltas start).reverse := by
    rw [deltas, describes.moving, List.map_reverse, script.filter_deltaJobs]
  have guard? : draft.guard? start stop = (script.linkGuards start stop).head? := by
    rw [guard?, describes.guarded, script.find?_guardJobs]
  rw [plan?, Script.plan?, describes.edges, deltas, guard?]
  split
  · rfl
  · rfl

theorem Splitting.Realizes.completed {w : Splitting} {draft : Draft} {names : List String}
    (realizes : w.Realizes draft names) (target : String) (loops? : Option (List Loop)) :
    Splitting.Realizes { w with automaton := Dot.completed w.automaton target loops? } draft
      names where
  wellFormed := ⟨realizes.wellFormed.ends, realizes.wellFormed.filled⟩
  known := realizes.known
  distinct := realizes.distinct
  apart := realizes.apart
  kept := realizes.kept
  routes start starts stop stops :=
    (realizes.routes start starts stop stops).congr realizes.wellFormed
      (fun _ _ => ⟨fun way => way.mono fun _ _ _ found => found,
        fun way => way.mono fun _ _ _ found => found⟩) fun _ _ => rfl

theorem parse_eq (text : String) :
    parse text = (tokenize text >>= Document.ofLexemes) >>= Document.automaton := by
  cases scanned : tokenize text <;> simp [parse, scanned, bind, Except.bind]

theorem exists_of_any (text : String) (check : Document → Automaton → Bool)
    (passes : ((tokenize text >>= Document.ofLexemes).toOption.any fun document =>
      document.automaton.toOption.any (check document)) = true) :
    ∃ document a, tokenize text >>= Document.ofLexemes = .ok document ∧ parse text = .ok a ∧
      check document a = true := by
  have whole := parse_eq text
  cases read : tokenize text >>= Document.ofLexemes with
  | error fault =>
      rw [read] at passes
      cases passes
  | ok document =>
      rw [read] at passes whole
      cases built : document.automaton with
      | error fault => simp [Except.toOption, built] at passes
      | ok a =>
          refine ⟨document, a, rfl, ?_, by simpa [Except.toOption, built] using passes⟩
          rw [whole]
          exact built

theorem realizes_of_parse {text : String} {document : Document} {a : Automaton}
    (read : tokenize text >>= Document.ofLexemes = .ok document) (parsed : parse text = .ok a) :
    Splitting.Realizes { document.draft.split with automaton := a }
    document.draft document.script.names := by
  have describes := document.draft_describes
  have whole : document.automaton = .ok a := by
    rw [parse_eq, read] at parsed
    exact parsed
  cases scanned : tokenize text with
  | error fault => simp [scanned, bind, Except.bind] at read
  | ok lexemes =>
      have read : Document.ofLexemes lexemes = .ok document := by
        simpa [scanned, bind, Except.bind] using read
      obtain ⟨name, items⟩ := tidy_of_ofLexemes read (quotable_of_scan scanned)
      obtain ⟨target, loops?, -, rfl⟩ := completed_of_resolve (resolved_of_automaton whole)
      refine Splitting.Realizes.completed (Draft.realizes_split ?_ ?_ ?_ ?_) target loops?
      · exact (tidyDraft_ofItems name items).automaton.wellFormed
      · intro name
        rw [Automaton.hasNode, Table.contains, describes.nodes]
        by_cases member : name ∈ document.script.names
        · simp [member]
        · simp [member]
      · intro job member
        rw [describes.guarded] at member
        rw [Automaton.hasEdge, describes.edges, if_pos (Script.mem_links_of_mem_guardJobs member)]
        rfl
      · intro job member
        rw [describes.moving] at member
        exact Script.mem_names_of_mem_deltaJobs member

/-- Reading keeps the described graph: its nodes, beside fresh ones, and between any two of them one
route over fresh nodes for a described edge, which does as planned, and none otherwise. -/
theorem follows_of_parse {text : String} {document : Document} {a : Automaton}
    (read : tokenize text >>= Document.ofLexemes = .ok document) (parsed : parse text = .ok a) :
    document.draft.split.freshNames.Nodup ∧
    (∀ name ∈ document.draft.split.freshNames, name ∉ document.script.names) ∧
    (∀ name, a.hasNode name = true ↔
      name ∈ document.script.names ∨ name ∈ document.draft.split.freshNames) ∧
    (∀ name ∈ document.script.names,
      a.nodes.get? name = some (document.script.nodeData name)) ∧
    ∀ start ∈ document.script.names, ∀ stop ∈ document.script.names,
      Follows a document.script.names start stop (document.script.plan? start stop) := by
  have realizes := realizes_of_parse read parsed
  have describes := document.draft_describes
  refine ⟨realizes.distinct, realizes.apart, realizes.known, ?_, ?_⟩
  · intro name member
    refine (realizes.kept name member).trans ?_
    rw [describes.nodes, if_pos member]
  · intro start starts stop stops
    rw [← describes.plan?_eq]
    exact realizes.routes start starts stop stops

/-- A file with a fresh name that is taken, a node with two deltas, and guards on an edge and on a
loop of one node. -/
def splitFile : String :=
  "digraph g \x7b qi [style=invis]; qi -> _0; _0 [label=\"+3\", xlabel=\"-1\"]; " ++
  "_0 -> b [label=\"<=5\", xlabel=\"+2\"]; b -> b [label=\">=1\"]; b [label=\"=4\"] \x7d"

theorem splitFile_follows : ∃ document a,
    tokenize splitFile >>= Document.ofLexemes = .ok document ∧ parse splitFile = .ok a ∧
    document.script.names = ["qi", "qi", "_0", "_0", "_0", "b", "b", "b", "b"] ∧
    document.draft.split.freshNames = ["_1", "_2", "_3", "_4"] ∧
    (∀ name, a.hasNode name = true ↔
      name ∈ document.script.names ∨ name ∈ document.draft.split.freshNames) ∧
    Follows a document.script.names "_0" "b"
      (some ⟨[⟨.sub, .clamp 1⟩, ⟨.add, .clamp 3⟩], some ⟨.atMost, .clamp 5⟩,
        some ⟨.add, .clamp 2⟩⟩) ∧
    Follows a document.script.names "b" "_0" none := by
  obtain ⟨document, a, read, parsed, facts⟩ := exists_of_any splitFile
    (fun document _ =>
      document.script.names = ["qi", "qi", "_0", "_0", "_0", "b", "b", "b", "b"] &&
      document.draft.split.freshNames = ["_1", "_2", "_3", "_4"] &&
      document.script.plan? "_0" "b" = some ⟨[⟨.sub, .clamp 1⟩, ⟨.add, .clamp 3⟩],
        some ⟨.atMost, .clamp 5⟩, some ⟨.add, .clamp 2⟩⟩ &&
      document.script.plan? "b" "_0" = none) (by decide +kernel)
  simp only [Bool.and_eq_true, decide_eq_true_eq] at facts
  obtain ⟨⟨⟨names, fresh⟩, there⟩, back⟩ := facts
  obtain ⟨-, -, known, -, follows⟩ := follows_of_parse read parsed
  refine ⟨document, a, read, parsed, names, fresh, known, ?_, ?_⟩
  · rw [← there]
    exact follows "_0" (by simp [names]) "b" (by simp [names])
  · rw [← back]
    exact follows "b" (by simp [names]) "_0" (by simp [names])

/-- An edge with a guard is no direct one, and of all guards given to it only the first one is on
its way. -/
theorem guard_on_routes_iff {text : String} {document : Document} {a : Automaton}
    (read : tokenize text >>= Document.ofLexemes = .ok document) (parsed : parse text = .ok a)
    {start stop : String} {guard : Instr} (given : guard ∈ document.script.linkGuards start stop) :
    a.hasEdge start stop = false ∧
      ((∀ inner operations, a.Route document.script.names start inner operations stop →
        ∃ name ∈ inner, a.condition? name = some guard) ↔
          (document.script.linkGuards start stop).head? = some guard) := by
  have linked := Script.mem_links_of_mem_linkGuards given
  obtain ⟨starts, stops⟩ := Script.mem_names_of_mem_links linked
  obtain ⟨first, head⟩ : ∃ first, (document.script.linkGuards start stop).head? = some first := by
    cases guards : document.script.linkGuards start stop with
    | nil => simp [guards] at given
    | cons first rest => exact ⟨first, rfl⟩
  have follows := (realizes_of_parse read parsed).routes start starts stop stops
  rw [document.draft_describes.plan?_eq, Script.plan?, if_pos linked, head] at follows
  constructor
  · cases found : a.edgeData? start stop with
    | none => simp [Automaton.hasEdge, found]
    | some data => simpa using follows.eq_of_edge found
  · rw [head]
    exact follows.forall_condition_iff guard

/-- A file in which one edge is given two guards. -/
def twoGuardFile : String :=
  "digraph g \x7b qi [style=invis]; qi -> a; a -> b [label=\"<=5\", xlabel=\">=2\"]; \x7d"

theorem twoGuardFile_first : ∃ document a,
    tokenize twoGuardFile >>= Document.ofLexemes = .ok document ∧ parse twoGuardFile = .ok a ∧
    document.script.linkGuards "a" "b" = [⟨.atMost, .clamp 5⟩, ⟨.atLeast, .clamp 2⟩] ∧
    a.hasEdge "a" "b" = false ∧
    ∀ inner operations, a.Route document.script.names "a" inner operations "b" →
      ∃ name ∈ inner, a.condition? name = some ⟨.atMost, .clamp 5⟩ := by
  obtain ⟨document, a, read, parsed, facts⟩ := exists_of_any twoGuardFile
    (fun document _ =>
      document.script.linkGuards "a" "b" = [⟨.atMost, .clamp 5⟩, ⟨.atLeast, .clamp 2⟩])
    (by decide +kernel)
  have guards := of_decide_eq_true facts
  obtain ⟨apart, first⟩ :=
    guard_on_routes_iff read parsed (by rw [guards]; exact List.mem_cons_self)
  exact ⟨document, a, read, parsed, guards, apart, first.mpr (by rw [guards]; rfl)⟩

/-- The second guard is on none of the nodes between. -/
theorem twoGuardFile_second_dropped : ∃ document a,
    tokenize twoGuardFile >>= Document.ofLexemes = .ok document ∧ parse twoGuardFile = .ok a ∧
    ⟨.atLeast, .clamp 2⟩ ∈ document.script.linkGuards "a" "b" ∧
    a.Route document.script.names "a" ["_0"] [none, none] "b" ∧
    ∀ name ∈ ["_0"], a.condition? name ≠ some ⟨.atLeast, .clamp 2⟩ := by
  obtain ⟨document, a, read, parsed, facts⟩ := exists_of_any twoGuardFile
    (fun document a =>
      ⟨.atLeast, .clamp 2⟩ ∈ document.script.linkGuards "a" "b" &&
      "_0" ∉ document.script.names && a.edgeData? "a" "_0" = some .plain &&
      a.edgeData? "_0" "b" = some .plain && a.condition? "_0" = some ⟨.atMost, .clamp 5⟩)
    (by decide +kernel)
  simp only [Bool.and_eq_true, decide_eq_true_eq] at facts
  obtain ⟨⟨⟨⟨given, fresh⟩, into⟩, onward⟩, mark⟩ := facts
  refine ⟨document, a, read, parsed, given, .step into fresh (.last onward), ?_⟩
  intro name member
  rw [List.mem_singleton.mp member, mark]
  decide

end Dot

end OneCounter
