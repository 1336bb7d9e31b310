import OneCounter.Proofs.CycleSearch

/-!
What the search for cycles reports. It ends when it has explored each node within reach once, and
the trail to a node lists its nodes in the order of their exploration. Main statement: every cycle
that is reported is one, without a repeated node and within reach of the initial node, and no two of
them are closed by the same edge or are rotations of each other.
-/

namespace OneCounter

/-- The edge that a finding is about. -/
def Finding.edge : Finding → String × String
  | closed start stop _ => (start, stop)
  | skipped start stop => (start, stop)

namespace Automaton

/-! ### Circuits -/

/-- A cycle in the order of travel: no node is repeated, all can be reached, each leads to the next
one and the last to the first. -/
structure Circuit (a : Automaton) (initial : String) (nodes : List String) : Prop where
  nonempty : nodes ≠ []
  distinct : nodes.Nodup
  reachable : ∀ node ∈ nodes, Relation.ReflTransGen a.Leads initial node
  chain : nodes.IsChain a.Leads
  closes : ∀ last ∈ nodes.getLast?, ∀ first ∈ nodes.head?, a.Leads last first

theorem Trail.chain {a : Automaton} {initial : String} {nodes : List String}
    (trail : a.Trail initial nodes) : nodes.IsChain fun later earlier => a.Leads earlier later := by
  induction trail with
  | start => exact List.isChain_singleton initial
  | step _ edge ih => exact List.isChain_cons_cons.mpr ⟨edge, ih⟩

theorem Trail.reachable_of_mem {a : Automaton} {initial node : String} {nodes : List String}
    (trail : a.Trail initial nodes) (member : node ∈ nodes) :
    Relation.ReflTransGen a.Leads initial node := by
  induction trail with
  | start =>
      obtain rfl := List.mem_singleton.mp member
      exact .refl
  | step before edge ih =>
      rcases List.mem_cons.mp member with same | earlier
      · exact same ▸ before.reachable.tail edge
      · exact ih earlier

/-- A cycle is the latest part of the trail that it closes on, turned round. -/
theorem exists_trail_eq {stop : String} {trail : List String} (onTrail : stop ∈ trail) :
    ∃ rest, trail = (closedCycle stop trail).reverse ++ rest := by
  induction trail with
  | nil => simp at onTrail
  | cons node path ih =>
      by_cases here : node = stop
      · exact ⟨path, by simp [closedCycle, here]⟩
      · obtain ⟨rest, split⟩ := ih ((List.mem_cons.mp onTrail).resolve_left (Ne.symm here))
        refine ⟨rest, ?_⟩
        simp only [closedCycle, List.reverse_cons, List.reverse_reverse] at split ⊢
        rw [List.takeWhile_cons_of_pos (by simpa using here), List.cons_append, List.cons_append,
          ← split]

theorem getLast?_closedCycle {start stop : String} {path : List String}
    (onTrail : stop ∈ start :: path) :
    (closedCycle stop (start :: path)).getLast? = some start := by
  obtain ⟨rest, split⟩ := exists_trail_eq onTrail
  have nonempty : (closedCycle stop (start :: path)).reverse ≠ [] := by simp [closedCycle]
  have heads := congrArg List.head? split
  rw [List.head?_append_of_ne_nil _ nonempty, List.head?_reverse] at heads
  exact heads.symm

theorem ClosesOn.circuit {a : Automaton} {initial start stop : String} {path : List String}
    (closes : a.ClosesOn initial start stop path) (simple : (start :: path).Nodup) :
    a.Circuit initial (closedCycle stop (start :: path)) := by
  obtain ⟨trail, edge, onTrail⟩ := closes
  obtain ⟨rest, split⟩ := exists_trail_eq onTrail
  refine ⟨List.cons_ne_nil _ _, ?_, ?_, ?_, ?_⟩
  · rw [split, List.nodup_append] at simple
    exact List.nodup_reverse.mp simple.1
  · intro node member
    apply trail.reachable_of_mem
    rw [split]
    exact List.mem_append_left rest (List.mem_reverse.mpr member)
  · have chain := trail.chain
    rw [split] at chain
    exact List.isChain_reverse.mp chain.left_of_append
  · intro last isLast first isFirst
    rw [getLast?_closedCycle onTrail] at isLast
    cases isLast
    cases isFirst
    exact edge

/-! ### The search as a whole -/

/-- What is found at a node that is explored. -/
def findingsAt (a : Automaton) (explored : List String) (node : String) (path : List String) :
    List Finding :=
  ((a.outgoing node).map Edge.stop).filterMap (finding? (node :: explored) (node :: path) node)

theorem edge_of_finding? {visited trail : List String} {start stop : String} {finding : Finding}
    (found : finding? visited trail start stop = some finding) : finding.edge = (start, stop) := by
  unfold finding? at found
  split at found
  · cases found
  · split at found
    · cases found
      rfl
    · cases found
      rfl

theorem start_of_mem_findingsAt {a : Automaton} {explored path : List String} {node : String}
    {finding : Finding} (member : finding ∈ a.findingsAt explored node path) :
    finding.edge.1 = node := by
  obtain ⟨stop, _, found⟩ := List.mem_filterMap.mp member
  rw [edge_of_finding? found]

theorem nodup_edges_findingsAt (a : Automaton) (explored : List String) (node : String)
    (path : List String) : ((a.findingsAt explored node path).map Finding.edge).Nodup := by
  have stops : ((a.outgoing node).map Edge.stop).Nodup := by
    rw [stops_eq_keys]
    exact Table.nodup_keys _
  rw [findingsAt, List.map_filterMap]
  apply List.Nodup.filterMap _ stops
  intro first second edge here there
  obtain ⟨finding, found, rfl⟩ := Option.map_eq_some_iff.mp here
  obtain ⟨other, alsoFound, same⟩ := Option.map_eq_some_iff.mp there
  rw [edge_of_finding? found, edge_of_finding? alsoFound] at same
  exact (congrArg Prod.snd same).symm

/-- The search from a state of it until nothing waits any more: what it finds, and all nodes that
have been explored then, latest first. -/
inductive Explores (a : Automaton) :
    List String → Frontier → List Finding → List String → Prop where
  | done {explored : List String} : Explores a explored [] [] explored
  | node {explored path order : List String} {node : String} {rest : Frontier}
      {found : List Finding}
      (others : Explores a (node :: explored)
        (meet (node :: path) (a.freshStops node explored) rest) found order) :
      Explores a explored ((node, path) :: rest) (a.findingsAt explored node path ++ found) order

section Explore

variable {a : Automaton} {initial : String} {explored order : List String} {frontier : Frontier}
  {found : List Finding}

/-- The search comes to an end within the fuel. -/
theorem explores_explore {fuel : Nat} (searching : a.Searching initial explored frontier)
    (enough : a.edges.length + 1 ≤ explored.length + fuel) :
    ∃ order, a.Explores explored frontier (a.explore fuel explored frontier) order := by
  induction fuel generalizing explored frontier with
  | zero =>
      have count := searching.length_le
      have nothing : frontier = [] := List.length_eq_zero_iff.mp (by omega)
      subst nothing
      exact ⟨explored, .done⟩
  | succ fuel ih =>
      cases frontier with
      | nil => exact ⟨explored, .done⟩
      | cons waiting rest =>
          obtain ⟨node, path⟩ := waiting
          have more : a.edges.length + 1 ≤ (node :: explored).length + fuel := by
            rw [List.length_cons]
            omega
          obtain ⟨order, others⟩ := ih searching.step more
          exact ⟨order, explore_cons a fuel explored node path rest ▸ .node others⟩

/-- The trails to the nodes that wait list explored nodes in the order of their exploration. -/
def Orderly (explored : List String) (frontier : Frontier) : Prop :=
  ∀ waiting ∈ frontier, waiting.2.Sublist explored

theorem Orderly.step {node : String} {path : List String} {rest : Frontier}
    (orderly : Orderly explored ((node, path) :: rest)) (stops : List String) :
    Orderly (node :: explored) (meet (node :: path) stops rest) := by
  intro waiting member
  rcases mem_of_mem_meet member with ⟨_, same⟩ | old
  · rw [same]
    exact (orderly _ List.mem_cons_self).cons_cons node
  · exact (orderly waiting (List.mem_cons_of_mem _ old)).cons node

namespace Explores

theorem sublist (run : a.Explores explored frontier found order) : explored.Sublist order := by
  induction run with
  | done => exact List.Sublist.refl _
  | node others ih => exact (List.sublist_cons_self _ _).trans ih

section Run

variable (run : a.Explores explored frontier found order)
  (searching : a.Searching initial explored frontier)

include run searching

theorem searching_order : a.Searching initial order [] := by
  induction run with
  | done => exact searching
  | node others ih => exact ih searching.step

/-- No node is explored twice. -/
theorem nodup : order.Nodup := (List.nodup_append.mp (run.searching_order searching).distinct).1

/-- Just the nodes within reach are explored. -/
theorem mem_order_iff (node : String) :
    node ∈ order ↔ Relation.ReflTransGen a.Leads initial node := by
  have final := run.searching_order searching
  constructor
  · intro explored
    obtain ⟨path, trail⟩ := final.reached node explored
    exact trail.reachable
  · exact final.explored_of_leads

/-- What is found is about edges of nodes that were still to be explored. -/
theorem start_notMem {finding : Finding} (reported : finding ∈ found) :
    finding.edge.1 ∉ explored := by
  induction run with
  | done => simp at reported
  | node others ih =>
      rcases List.mem_append.mp reported with now | later
      · rw [start_of_mem_findingsAt now]
        intro before
        exact (List.nodup_append.mp searching.distinct).2.2 _ before _ List.mem_cons_self rfl
      · exact fun before => ih searching.step later (List.mem_cons_of_mem _ before)

/-- No edge is looked at twice. -/
theorem nodup_edges : (found.map Finding.edge).Nodup := by
  induction run with
  | done => exact List.nodup_nil
  | node others ih =>
      rw [List.map_append, List.nodup_append]
      refine ⟨nodup_edges_findingsAt a _ _ _, ih searching.step, ?_⟩
      intro first now second later same
      obtain ⟨finding, here, rfl⟩ := List.mem_map.mp now
      obtain ⟨other, there, rfl⟩ := List.mem_map.mp later
      -- The later one starts at a node that was not explored yet.
      apply others.start_notMem searching.step there
      rw [← same, start_of_mem_findingsAt here]
      exact List.mem_cons_self

variable (orderly : Orderly explored frontier)

include orderly

/-- A cycle is closed by an edge back onto a trail, whose nodes come in the order of exploration. -/
theorem closed_spec {start stop : String} {cycle : List String}
    (reported : .closed start stop cycle ∈ found) :
    ∃ path, a.ClosesOn initial start stop path ∧ cycle = closedCycle stop (start :: path) ∧
      (start :: path).Sublist order := by
  induction run with
  | done => simp at reported
  | node others ih =>
      rcases List.mem_append.mp reported with now | later
      · obtain ⟨last, listed, closes⟩ := List.mem_filterMap.mp now
        obtain ⟨rfl, rfl, onTrail, rfl⟩ := finding?_eq_closed closes
        exact ⟨_, ⟨searching.trails _ List.mem_cons_self, (mem_stops_iff a start stop).mp listed,
          onTrail⟩, rfl, ((orderly _ List.mem_cons_self).cons_cons start).trans others.sublist⟩
      · exact ih searching.step (orderly.step _) later

end Run

end Explores

/-! ### What is reported -/

/-- Lists that pick the same elements out of a list without repetitions, in its order, are equal. -/
theorem eq_of_sublist {list left right : List String} (distinct : list.Nodup)
    (first : left.Sublist list) (second : right.Sublist list)
    (same : ∀ node, node ∈ left ↔ node ∈ right) : left = right := by
  induction list generalizing left right with
  | nil => rw [List.sublist_nil.mp first, List.sublist_nil.mp second]
  | cons head tail ih =>
      obtain ⟨once, tailDistinct⟩ := List.nodup_cons.mp distinct
      cases first with
      | cons _ first =>
          cases second with
          | cons _ second => exact ih tailDistinct first second same
          | cons_cons _ second =>
              exact absurd (first.subset ((same head).mpr List.mem_cons_self)) once
      | cons_cons _ first =>
          cases second with
          | cons _ second =>
              exact absurd (second.subset ((same head).mp List.mem_cons_self)) once
          | cons_cons _ second =>
              refine congrArg (head :: ·) (ih tailDistinct first second fun node => ⟨?_, ?_⟩)
              · intro member
                have present := (same node).mp (List.mem_cons_of_mem head member)
                exact (List.mem_cons.mp present).resolve_left
                  fun here => once (here ▸ first.subset member)
              · intro member
                have present := (same node).mpr (List.mem_cons_of_mem head member)
                exact (List.mem_cons.mp present).resolve_left
                  fun here => once (here ▸ second.subset member)

theorem exists_closed_of_mem {cycle : List String}
    (member : cycle ∈ found.filterMap Finding.cycle?) :
    ∃ start stop, .closed start stop cycle ∈ found := by
  obtain ⟨finding, reported, shows⟩ := List.mem_filterMap.mp member
  cases finding with
  | closed start stop other =>
      cases shows
      exact ⟨start, stop, reported⟩
  | skipped start stop => cases shows

namespace Explores

variable (run : a.Explores explored frontier found order)
  (searching : a.Searching initial explored frontier) (orderly : Orderly explored frontier)

include run searching orderly

theorem circuit {cycle : List String} (member : cycle ∈ found.filterMap Finding.cycle?) :
    a.Circuit initial cycle := by
  obtain ⟨start, stop, reported⟩ := exists_closed_of_mem member
  obtain ⟨path, closes, rfl, inOrder⟩ := run.closed_spec searching orderly reported
  exact closes.circuit ((run.nodup searching).sublist inOrder)

/-- The edge of a finding closes its cycle. -/
theorem ends_eq_edge {finding : Finding} (reported : finding ∈ found) {cycle : List String}
    (shows : finding.cycle? = some cycle) :
    (cycle.getLast?, cycle.head?) = (some finding.edge.1, some finding.edge.2) := by
  cases finding with
  | skipped start stop => cases shows
  | closed start stop other =>
      cases shows
      obtain ⟨path, closes, rfl, _⟩ := run.closed_spec searching orderly reported
      rw [getLast?_closedCycle closes.2.2]
      rfl

theorem pairwise_ends_ne :
    (found.filterMap Finding.cycle?).Pairwise fun first second =>
      (first.getLast?, first.head?) ≠ (second.getLast?, second.head?) := by
  rw [List.pairwise_filterMap]
  apply List.Pairwise.imp_of_mem _ (List.pairwise_map.mp (run.nodup_edges searching))
  intro finding other here there differ first firstShown second secondShown same
  rw [run.ends_eq_edge searching orderly here firstShown,
    run.ends_eq_edge searching orderly there secondShown] at same
  simp only [Prod.mk.injEq, Option.some.injEq] at same
  exact differ (Prod.ext same.1 same.2)

/-- Turned round, a cycle lists its nodes in the order of exploration, so its nodes determine it. -/
theorem eq_of_mem_iff {first second : List String} (here : first ∈ found.filterMap Finding.cycle?)
    (there : second ∈ found.filterMap Finding.cycle?)
    (same : ∀ node, node ∈ first ↔ node ∈ second) : first = second := by
  have inOrder {cycle : List String} (member : cycle ∈ found.filterMap Finding.cycle?) :
      cycle.reverse.Sublist order := by
    obtain ⟨start, stop, reported⟩ := exists_closed_of_mem member
    obtain ⟨path, ⟨_, _, onTrail⟩, rfl, trail⟩ := run.closed_spec searching orderly reported
    obtain ⟨rest, split⟩ := exists_trail_eq onTrail
    rw [split] at trail
    exact (List.sublist_append_left _ rest).trans trail
  apply List.reverse_injective
  apply eq_of_sublist (run.nodup searching) (inOrder here) (inOrder there)
  intro node
  rw [List.mem_reverse, List.mem_reverse, same]

theorem pairwise_not_isRotated :
    (found.filterMap Finding.cycle?).Pairwise fun first second => ¬ first.IsRotated second := by
  apply List.Pairwise.imp_of_mem _ (run.pairwise_ends_ne searching orderly)
  intro first second here there differ rotated
  have same := run.eq_of_mem_iff searching orderly here there fun node => rotated.mem_iff
  exact differ (same ▸ rfl)

end Explores

end Explore

theorem cycles_of_initial {a : Automaton} {initial : String}
    (resolved : a.initial? = some initial) : a.cycles = .ok (a.cyclesFrom initial) := by
  simp [cycles, resolved]

theorem orderly_start (initial : String) : Orderly [] [(initial, [])] := by
  intro waiting member
  obtain rfl := List.mem_singleton.mp member
  exact List.Sublist.refl []

theorem explores_findings (a : Automaton) (initial : String) :
    ∃ order, a.Explores [] [(initial, [])] (a.findings initial) order :=
  explores_explore (.initially a initial) (by simp)

theorem circuit_of_mem_cyclesFrom {a : Automaton} {initial : String} {cycle : List String}
    (reported : cycle ∈ a.cyclesFrom initial) : a.Circuit initial cycle := by
  obtain ⟨order, run⟩ := a.explores_findings initial
  exact run.circuit (.initially a initial) (orderly_start initial) reported

/-- The search ends, having explored the nodes within reach once each, and the cycles that it
reports are circuits, each with a closing edge of its own and none a rotation of another one. -/
theorem cycles_are_circuits {a : Automaton} {initial : String}
    (resolved : a.initial? = some initial) :
    ∃ found order, a.Explores [] [(initial, [])] found order ∧ order.Nodup ∧
      (∀ node, node ∈ order ↔ Relation.ReflTransGen a.Leads initial node) ∧
      ∃ cycles, a.cycles = .ok cycles ∧ cycles = found.filterMap Finding.cycle? ∧
        (∀ cycle ∈ cycles, a.Circuit initial cycle) ∧
        (cycles.Pairwise fun first second =>
          (first.getLast?, first.head?) ≠ (second.getLast?, second.head?)) ∧
        cycles.Pairwise fun first second => ¬ first.IsRotated second := by
  obtain ⟨order, run⟩ := a.explores_findings initial
  have searching := Searching.initially a initial
  have orderly := orderly_start initial
  exact ⟨_, order, run, run.nodup searching, run.mem_order_iff searching, a.cyclesFrom initial,
    cycles_of_initial resolved, rfl, fun _ => circuit_of_mem_cyclesFrom,
    run.pairwise_ends_ne searching orderly, run.pairwise_not_isRotated searching orderly⟩

/-- Two cycles through `a` and `b`, and an edge from `c` to itself. -/
def knots : Automaton :=
  let edges := [("entry", "a"), ("a", "b"), ("b", "a"), ("b", "c"), ("c", "a"), ("c", "c")]
  let graph := edges.foldl (fun a edge => addEdge a edge.1 edge.2) (empty "knots")
  { graph.mapNode "entry" fun data => { data with hidden := true } with initial? := some "a" }

theorem knots_circuits :
    knots.cycles = .ok [["a", "b"], ["a", "b", "c"], ["c"]] ∧
      (∀ cycle ∈ [["a", "b"], ["a", "b", "c"], ["c"]], knots.Circuit "a" cycle) ∧
      ∃ found order, knots.Explores [] [("a", [])] found order := by
  have evaluated : knots.cycles = .ok [["a", "b"], ["a", "b", "c"], ["c"]] := by decide +kernel
  have resolved : knots.initial? = some "a" := rfl
  obtain ⟨found, order, run, _, _, cycles, searched, _, circuits, _⟩ := cycles_are_circuits resolved
  rw [← Except.ok.inj (evaluated.symm.trans searched)] at circuits
  exact ⟨evaluated, circuits, found, order, run⟩

end Automaton

end OneCounter
