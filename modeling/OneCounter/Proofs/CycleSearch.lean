import OneCounter.Proofs.Rounds

/-!
The search for cycles. Every node that can be reached is explored once, along a trail from the
initial node, and an edge back onto that trail closes a cycle. Main statements: what is found
shows that the reachable graph has a cycle, and an edge to a node that no way to its start can
avoid is always found. A cycle that can be entered at more than one node may be missed.
-/

namespace OneCounter

namespace Automaton

/-- There is an edge from the one node to the other. -/
def Leads (a : Automaton) (start stop : String) : Prop := a.hasEdge start stop = true

/-- The graph that can be reached from a node has a cycle. -/
def Cyclic (a : Automaton) (initial : String) : Prop :=
  ∃ node, Relation.ReflTransGen a.Leads initial node ∧ Relation.TransGen a.Leads node node

/-- Ways from the initial node along edges, latest node first. -/
inductive Trail (a : Automaton) (initial : String) : List String → Prop where
  | start : Trail a initial [initial]
  | step {node next : String} {path : List String} (before : Trail a initial (node :: path))
      (edge : a.Leads node next) : Trail a initial (next :: node :: path)

theorem mem_stops_iff (a : Automaton) (start stop : String) :
    stop ∈ (a.outgoing start).map Edge.stop ↔ a.Leads start stop := by
  rw [stops_eq_keys, Table.mem_keys_iff]
  rfl

theorem mem_edge_stops {a : Automaton} {start stop : String} (edge : a.Leads start stop) :
    stop ∈ a.edges.map Edge.stop := by
  obtain ⟨data, found⟩ := Option.isSome_iff_exists.mp edge
  exact List.mem_map.mpr ⟨⟨data, start, stop⟩, (mem_edges_iff a _).mpr found, rfl⟩

/-! ### The graph -/

/-- The ends of the edges that leave each node. -/
def graph (a : Automaton) : Table (List String) := a.rows.map fun _ row => row.keys

theorem keys_row (a : Automaton) (start : String) :
    (a.row start).keys = (a.graph.get? start).getD [] := by
  rw [graph, Table.get?_map, row]
  cases a.rows.get? start <;> rfl

theorem length_edges (a : Automaton) :
    a.edges.length = (a.graph.values.map List.length).sum := by
  simp [edges, rowEdges, graph, Table.values, Table.map, Table.keys, List.length_flatMap,
    Function.comp_def]

theorem explore_congr {a b : Automaton} (same : a.graph = b.graph) : a.explore = b.explore := by
  have stops : (fun node => (a.outgoing node).map Edge.stop) =
      fun node => (b.outgoing node).map Edge.stop := by
    funext node
    rw [stops_eq_keys, stops_eq_keys, keys_row, keys_row, same]
  rw [explore, explore, stops]

/-- The cycles found depend on nothing but the graph. -/
theorem cyclesFrom_congr {a b : Automaton} (same : a.graph = b.graph) (initial : String) :
    a.cyclesFrom initial = b.cyclesFrom initial := by
  rw [cyclesFrom, findings, length_edges, same, ← length_edges, explore_congr same, cyclesFrom,
    findings]

section Trails

variable {a : Automaton} {initial node : String} {path : List String}

theorem Trail.reachable (trail : a.Trail initial (node :: path)) :
    Relation.ReflTransGen a.Leads initial node := by
  generalize listed : node :: path = nodes at trail
  induction trail generalizing node path with
  | start =>
      obtain ⟨rfl, _⟩ := List.cons.inj listed
      exact .refl
  | step _ edge ih =>
      obtain ⟨rfl, _⟩ := List.cons.inj listed
      exact (ih rfl).tail edge

/-- Every node of a trail leads to its end. -/
theorem Trail.leads_to_end (trail : a.Trail initial (node :: path)) {earlier : String}
    (member : earlier ∈ node :: path) : Relation.ReflTransGen a.Leads earlier node := by
  generalize listed : node :: path = nodes at trail
  induction trail generalizing node path with
  | start =>
      obtain ⟨rfl, rfl⟩ := List.cons.inj listed
      obtain rfl := List.mem_singleton.mp member
      exact .refl
  | step _ edge ih =>
      obtain ⟨rfl, rfl⟩ := List.cons.inj listed
      rcases List.mem_cons.mp member with same | before
      · exact same ▸ .refl
      · exact (ih before rfl).tail edge

/-- A trail ends at the initial node or at the end of an edge. -/
theorem Trail.end_known (trail : a.Trail initial (node :: path)) :
    node ∈ initial :: a.edges.map Edge.stop := by
  cases trail with
  | start => exact List.mem_cons_self
  | step _ edge => exact List.mem_cons_of_mem _ (mem_edge_stops edge)

end Trails

/-! ### The frontier -/

/-- The names of the nodes that wait. -/
def Frontier.names (frontier : Frontier) : List String := frontier.map Prod.fst

/-- Every one of some nodes is met at the end of the same trail. -/
def meet (trail stops : List String) (frontier : Frontier) : Frontier :=
  stops.foldl (fun frontier stop => enqueue stop trail frontier) frontier

theorem mem_of_mem_enqueue {node : String} {trail : List String} {frontier : Frontier}
    {waiting : String × List String} (member : waiting ∈ enqueue node trail frontier) :
    waiting = (node, trail) ∨ waiting ∈ frontier := by
  induction frontier with
  | nil => exact Or.inl (List.mem_singleton.mp member)
  | cons first rest ih =>
      rw [enqueue] at member
      split at member
      · rcases List.mem_cons.mp member with same | later
        · exact Or.inl same
        · exact Or.inr (List.mem_cons_of_mem first later)
      · rcases List.mem_cons.mp member with same | later
        · exact Or.inr (same ▸ List.mem_cons_self)
        · rcases ih later with new | old
          · exact Or.inl new
          · exact Or.inr (List.mem_cons_of_mem first old)

theorem names_enqueue (node : String) (trail : List String) (frontier : Frontier) :
    (enqueue node trail frontier).names =
      if node ∈ frontier.names then frontier.names else frontier.names ++ [node] := by
  induction frontier with
  | nil => simp [enqueue, Frontier.names]
  | cons first rest ih =>
      simp only [Frontier.names] at ih
      by_cases here : first.1 = node
      · simp [enqueue, Frontier.names, here]
      · have other : node ≠ first.1 := fun same => here same.symm
        by_cases waits : node ∈ rest.map Prod.fst
        · simp [enqueue, Frontier.names, here, ih, waits]
        · simp [enqueue, Frontier.names, here, ih, waits, other]

theorem mem_names_enqueue_iff (node name : String) (trail : List String) (frontier : Frontier) :
    name ∈ (enqueue node trail frontier).names ↔ name ∈ frontier.names ∨ name = node := by
  rw [names_enqueue]
  by_cases waits : node ∈ frontier.names
  · rw [if_pos waits]
    constructor
    · exact Or.inl
    · rintro (old | same)
      · exact old
      · exact same ▸ waits
  · rw [if_neg waits, List.mem_append, List.mem_singleton]

theorem nodup_names_enqueue (node : String) (trail : List String) {frontier : Frontier}
    (distinct : frontier.names.Nodup) : (enqueue node trail frontier).names.Nodup := by
  rw [names_enqueue]
  by_cases waits : node ∈ frontier.names
  · rw [if_pos waits]
    exact distinct
  · rw [if_neg waits]
    exact List.Nodup.append distinct (List.nodup_singleton node) (by simpa using waits)

theorem mem_of_mem_meet {trail stops : List String} {frontier : Frontier}
    {waiting : String × List String} (member : waiting ∈ meet trail stops frontier) :
    (waiting.1 ∈ stops ∧ waiting.2 = trail) ∨ waiting ∈ frontier := by
  induction stops generalizing frontier with
  | nil => exact Or.inr member
  | cons stop rest ih =>
      rcases ih member with ⟨later, same⟩ | now
      · exact Or.inl ⟨List.mem_cons_of_mem stop later, same⟩
      · rcases mem_of_mem_enqueue now with new | old
        · subst new
          exact Or.inl ⟨List.mem_cons_self, rfl⟩
        · exact Or.inr old

theorem mem_names_meet_iff (trail stops : List String) (frontier : Frontier) (name : String) :
    name ∈ (meet trail stops frontier).names ↔ name ∈ frontier.names ∨ name ∈ stops := by
  induction stops generalizing frontier with
  | nil => simp [meet]
  | cons stop rest ih =>
      change name ∈ (meet trail rest (enqueue stop trail frontier)).names ↔ _
      rw [ih, mem_names_enqueue_iff, List.mem_cons, or_assoc]

theorem nodup_names_meet (trail stops : List String) {frontier : Frontier}
    (distinct : frontier.names.Nodup) : (meet trail stops frontier).names.Nodup := by
  induction stops generalizing frontier with
  | nil => exact distinct
  | cons stop rest ih => exact ih (nodup_names_enqueue stop trail distinct)

/-! ### One node after the other -/

/-- What holds between the exploration of two nodes. -/
structure Searching (a : Automaton) (initial : String) (explored : List String)
    (frontier : Frontier) : Prop where
  distinct : (explored ++ frontier.names).Nodup
  reached : ∀ node ∈ explored, ∃ path, a.Trail initial (node :: path)
  trails : ∀ waiting ∈ frontier, a.Trail initial (waiting.1 :: waiting.2)
  /-- Trails lead through explored nodes only. -/
  within : ∀ waiting ∈ frontier, ∀ earlier ∈ waiting.2, earlier ∈ explored
  closed : ∀ node ∈ explored, ∀ stop, a.Leads node stop →
    stop ∈ explored ∨ stop ∈ frontier.names
  started : initial ∈ explored ∨ initial ∈ frontier.names

/-- The nodes that an explored node leads to and that are new. -/
def freshStops (a : Automaton) (node : String) (explored : List String) : List String :=
  ((a.outgoing node).map Edge.stop).filter (· ∉ node :: explored)

theorem explore_cons (a : Automaton) (fuel : Nat) (explored : List String) (node : String)
    (path : List String) (rest : Frontier) :
    a.explore (fuel + 1) explored ((node, path) :: rest) =
      ((a.outgoing node).map Edge.stop).filterMap
          (finding? (node :: explored) (node :: path) node) ++
        a.explore fuel (node :: explored)
          (meet (node :: path) (a.freshStops node explored) rest) := rfl

namespace Searching

variable {a : Automaton} {initial node : String} {explored path : List String}
  {frontier rest : Frontier}

theorem initially (a : Automaton) (initial : String) : a.Searching initial [] [(initial, [])] where
  distinct := by simp [Frontier.names]
  reached := by simp
  trails := by
    intro waiting member
    obtain rfl := List.mem_singleton.mp member
    exact .start
  within := by
    intro waiting member
    obtain rfl := List.mem_singleton.mp member
    simp
  closed := by simp
  started := Or.inr (by simp [Frontier.names])

theorem mem_freshStops_iff (a : Automaton) (node stop : String) (explored : List String) :
    stop ∈ a.freshStops node explored ↔ a.Leads node stop ∧ stop ∉ node :: explored := by
  rw [freshStops, List.mem_filter, mem_stops_iff, decide_eq_true_eq]

/-- The node at the front is explored, and those it leads to wait with the trail through it. -/
theorem step (searching : a.Searching initial explored ((node, path) :: rest)) :
    a.Searching initial (node :: explored)
      (meet (node :: path) (a.freshStops node explored) rest) := by
  have trail := searching.trails (node, path) List.mem_cons_self
  have listed : (explored ++ node :: rest.names).Nodup := searching.distinct
  obtain ⟨exploredDistinct, waitDistinct, apart⟩ := List.nodup_append.mp listed
  obtain ⟨notWaiting, restDistinct⟩ := List.nodup_cons.mp waitDistinct
  refine ⟨?_, ?_, ?_, ?_, ?_, ?_⟩
  · -- Only nodes that are not explored start to wait.
    have unexplored : node ∉ explored := fun member => apart node member node List.mem_cons_self rfl
    refine List.nodup_append.mpr ⟨List.nodup_cons.mpr ⟨unexplored, exploredDistinct⟩,
      nodup_names_meet _ _ restDistinct, ?_⟩
    intro old member new waits same
    subst same
    rcases (mem_names_meet_iff _ _ _ _).mp waits with waiting | fresh
    · rcases List.mem_cons.mp member with now | before
      · exact notWaiting (now ▸ waiting)
      · exact apart old before old (List.mem_cons_of_mem node waiting) rfl
    · exact ((mem_freshStops_iff a node old explored).mp fresh).2 member
  · intro name member
    rcases List.mem_cons.mp member with same | before
    · exact ⟨path, same ▸ trail⟩
    · exact searching.reached name before
  · intro waiting member
    rcases mem_of_mem_meet member with ⟨fresh, same⟩ | old
    · rw [same]
      exact .step trail ((mem_freshStops_iff a node _ explored).mp fresh).1
    · exact searching.trails waiting (List.mem_cons_of_mem _ old)
  · intro waiting member earlier onTrail
    rcases mem_of_mem_meet member with ⟨_, same⟩ | old
    · rw [same] at onTrail
      rcases List.mem_cons.mp onTrail with now | before
      · exact now ▸ List.mem_cons_self
      · exact List.mem_cons_of_mem node
          (searching.within (node, path) List.mem_cons_self earlier before)
    · exact List.mem_cons_of_mem node
        (searching.within waiting (List.mem_cons_of_mem _ old) earlier onTrail)
  · intro name member stop edge
    by_cases known : stop ∈ node :: explored
    · exact Or.inl known
    · refine Or.inr ((mem_names_meet_iff _ _ _ _).mpr ?_)
      rcases List.mem_cons.mp member with same | before
      · exact Or.inr ((mem_freshStops_iff a node stop explored).mpr ⟨same ▸ edge, known⟩)
      · rcases searching.closed name before stop edge with old | waits
        · exact absurd (List.mem_cons_of_mem node old) known
        · rcases List.mem_cons.mp waits with now | later
          · exact absurd (now ▸ List.mem_cons_self) known
          · exact Or.inl later
  · rcases searching.started with old | waits
    · exact Or.inl (List.mem_cons_of_mem node old)
    · rcases List.mem_cons.mp waits with now | later
      · exact Or.inl (now ▸ List.mem_cons_self)
      · exact Or.inr ((mem_names_meet_iff _ _ _ _).mpr (Or.inl later))

/-- Nodes that are explored or wait are the initial one or ends of edges, so there are not more
of them than the fuel allows for. -/
theorem length_le (searching : a.Searching initial explored frontier) :
    explored.length + frontier.length ≤ a.edges.length + 1 := by
  have known : explored ++ frontier.names ⊆ initial :: a.edges.map Edge.stop := by
    intro name member
    rcases List.mem_append.mp member with old | waits
    · obtain ⟨path, trail⟩ := searching.reached name old
      exact trail.end_known
    · obtain ⟨waiting, present, rfl⟩ := List.mem_map.mp waits
      exact (searching.trails waiting present).end_known
  have count := searching.distinct.length_le_of_subset known
  simpa [Frontier.names] using count

/-- When nothing waits any more, everything that can be reached has been explored. -/
theorem explored_of_leads (searching : a.Searching initial explored []) {node : String}
    (reachable : Relation.ReflTransGen a.Leads initial node) : node ∈ explored := by
  induction reachable with
  | refl =>
      rcases searching.started with old | waits
      · exact old
      · simp [Frontier.names] at waits
  | tail _ edge ih =>
      rcases searching.closed _ ih _ edge with old | waits
      · exact old
      · simp [Frontier.names] at waits

end Searching

/-! ### What is found -/

/-- A way back onto a trail: the edge leads from the end of the trail to a node of it. -/
def ClosesOn (a : Automaton) (initial start stop : String) (path : List String) : Prop :=
  a.Trail initial (start :: path) ∧ a.Leads start stop ∧ stop ∈ start :: path

theorem finding?_eq_closed {visited trail cycle : List String} {node start stop last : String}
    (found : finding? visited trail node last = some (.closed start stop cycle)) :
    start = node ∧ stop = last ∧ last ∈ trail ∧ cycle = closedCycle stop trail := by
  unfold finding? at found
  split at found
  · cases found
  · split at found
    · next onTrail =>
        injection found with found
        injection found with starts stops cycles
        subst starts stops cycles
        exact ⟨rfl, rfl, onTrail, rfl⟩
    · injection found with found
      cases found

section Explore

variable {a : Automaton} {initial : String} {explored : List String} {frontier : Frontier}

/-- Every cycle that is reported is closed by an edge back onto a trail. -/
theorem closesOn_of_mem_explore {fuel : Nat} (searching : a.Searching initial explored frontier)
    {start stop : String} {cycle : List String}
    (found : Finding.closed start stop cycle ∈ a.explore fuel explored frontier) :
    ∃ path, a.ClosesOn initial start stop path := by
  induction fuel generalizing explored frontier with
  | zero => simp [explore, search] at found
  | succ fuel ih =>
      cases frontier with
      | nil => simp [explore, search] at found
      | cons waiting rest =>
          obtain ⟨node, path⟩ := waiting
          rw [explore_cons] at found
          rcases List.mem_append.mp found with now | later
          · obtain ⟨last, listed, closes⟩ := List.mem_filterMap.mp now
            obtain ⟨rfl, rfl, onTrail, _⟩ := finding?_eq_closed closes
            exact ⟨path, searching.trails _ List.mem_cons_self,
              (mem_stops_iff a start stop).mp listed, onTrail⟩
          · exact ih searching.step later

/-- With enough fuel every node that can be reached is explored along some trail, and its edges
back onto this trail are reported. -/
theorem explore_complete {fuel : Nat} (searching : a.Searching initial explored frontier)
    (enough : a.edges.length + 1 ≤ explored.length + fuel) {node : String}
    (reachable : Relation.ReflTransGen a.Leads initial node) (unexplored : node ∉ explored) :
    ∃ path, a.Trail initial (node :: path) ∧ ∀ stop, a.ClosesOn initial node stop path →
      Finding.closed node stop (closedCycle stop (node :: path)) ∈
        a.explore fuel explored frontier := by
  induction fuel generalizing explored frontier with
  | zero =>
      have count := searching.length_le
      have nothing : frontier = [] := List.length_eq_zero_iff.mp (by omega)
      subst nothing
      exact absurd (searching.explored_of_leads reachable) unexplored
  | succ fuel ih =>
      cases frontier with
      | nil => exact absurd (searching.explored_of_leads reachable) unexplored
      | cons waiting rest =>
          obtain ⟨current, path⟩ := waiting
          rw [explore_cons]
          by_cases here : node = current
          · subst here
            refine ⟨path, searching.trails _ List.mem_cons_self, ?_⟩
            rintro stop ⟨_, edge, onTrail⟩
            -- A node of the trail has been explored, so the edge is not taken for a new one.
            have visited : stop ∈ node :: explored := by
              rcases List.mem_cons.mp onTrail with same | before
              · exact same ▸ List.mem_cons_self
              · exact List.mem_cons_of_mem node (searching.within _ List.mem_cons_self stop before)
            refine List.mem_append_left _ (List.mem_filterMap.mpr
              ⟨stop, (mem_stops_iff a node stop).mpr edge, ?_⟩)
            rw [finding?, if_neg (not_not.mpr visited), if_pos onTrail]
          · have stillNew : node ∉ current :: explored := fun member =>
              (List.mem_cons.mp member).elim here unexplored
            have more : a.edges.length + 1 ≤ (current :: explored).length + fuel := by
              rw [List.length_cons]
              omega
            obtain ⟨other, trail, reports⟩ := ih searching.step more stillNew
            exact ⟨other, trail, fun stop closes =>
              List.mem_append_right _ (reports stop closes)⟩

end Explore

theorem cyclesFrom_ne_nil_iff (a : Automaton) (initial : String) :
    a.cyclesFrom initial ≠ [] ↔
      ∃ start stop cycle, Finding.closed start stop cycle ∈ a.findings initial := by
  constructor
  · intro something
    obtain ⟨cycle, listed⟩ := List.exists_mem_of_ne_nil _ something
    obtain ⟨finding, found, shows⟩ := List.mem_filterMap.mp listed
    cases finding with
    | closed start stop other => exact ⟨start, stop, other, found⟩
    | skipped start stop => cases shows
  · rintro ⟨start, stop, cycle, found⟩
    exact List.ne_nil_of_mem (List.mem_filterMap.mpr ⟨_, found, rfl⟩)

theorem cyclic_of_closesOn {a : Automaton} {initial start stop : String} {path : List String}
    (closes : a.ClosesOn initial start stop path) : a.Cyclic initial := by
  obtain ⟨trail, edge, onTrail⟩ := closes
  exact ⟨start, trail.reachable,
    Relation.TransGen.head'_iff.mpr ⟨stop, edge, trail.leads_to_end onTrail⟩⟩

/-- If a cycle is found, the graph that can be reached from the initial node has one. If none is
found, then whatever edge of that graph one takes, its end can be avoided on the way to its start:
there is no cycle but such as can be entered past any one of its nodes. -/
theorem cycles_bounds {a : Automaton} {initial : String} (resolved : a.initial? = some initial) :
    ∃ found, a.cycles = .ok found ∧ (found ≠ [] → a.Cyclic initial) ∧
      (found = [] → ∀ start stop, Relation.ReflTransGen a.Leads initial start →
        a.Leads start stop → ∃ path, a.Trail initial (start :: path) ∧ stop ∉ start :: path) := by
  refine ⟨a.cyclesFrom initial, ?_, ?_, ?_⟩
  · unfold cycles
    split
    · next other known => rw [Option.some.inj (known.symm.trans resolved)]
    · next missing => exact absurd (missing.symm.trans resolved) (by simp)
  · intro something
    obtain ⟨start, stop, cycle, found⟩ := (cyclesFrom_ne_nil_iff a initial).mp something
    obtain ⟨path, closes⟩ := closesOn_of_mem_explore (.initially a initial) found
    exact cyclic_of_closesOn closes
  · intro nothing start stop reachable edge
    have enough : a.edges.length + 1 ≤ ([] : List String).length + (a.edges.length + 1) := by simp
    obtain ⟨path, trail, reports⟩ :=
      explore_complete (.initially a initial) enough reachable List.not_mem_nil
    refine ⟨path, trail, ?_⟩
    intro onTrail
    exact (cyclesFrom_ne_nil_iff a initial).mpr
      ⟨start, stop, _, reports stop ⟨trail, edge, onTrail⟩⟩ nothing

theorem climb_cycles_bounds :
    ∃ found, climb.cycles = .ok found ∧ found ≠ [] ∧ climb.Cyclic "loop" := by
  have resolved : climb.initial? = some "loop" := rfl
  obtain ⟨found, searched, cyclic, _⟩ := cycles_bounds resolved
  have something : found ≠ [] := by
    rintro rfl
    exact absurd searched (by decide +kernel)
  exact ⟨found, searched, something, cyclic something⟩

/-! ### A cycle that is missed -/

/-- The nodes `left` and `join` form a cycle, which is entered at either of them. -/
def twoEntries : Automaton :=
  let edges := [("entry", "fork"), ("fork", "left"), ("fork", "right"), ("left", "join"),
    ("right", "join"), ("join", "left")]
  let graph := edges.foldl (fun a edge => addEdge a edge.1 edge.2) (empty "two entries")
  { graph.mapNode "entry" fun data => { data with hidden := true } with initial? := some "fork" }

/-- The search reaches `join` last by way of `right`, so that `left` is not on its trail, and the
only cycle goes unnoticed. -/
theorem twoEntries_cycle_missed : twoEntries.resolveInitial = .ok twoEntries ∧
    twoEntries.cycles = .ok [] ∧ twoEntries.Cyclic "fork" := by
  refine ⟨by decide +kernel, by decide +kernel, "left", ?_, ?_⟩
  · exact .single (by unfold Leads; decide +kernel)
  · exact .tail (.single (by unfold Leads; decide +kernel : twoEntries.Leads "left" "join"))
      (by unfold Leads; decide +kernel)

end Automaton

end OneCounter
