import Mathlib.Data.List.Nodup
import OneCounter.Proofs.Dot.Description

/-!
What one split does. It puts a node with a guard into an edge, or lets the edges of a node leave a
fresh one. Main statements: the name of the new node is not taken, and of all routes over fresh
nodes just the one along the split edge, or those from the split node, lead over the new one.
-/

namespace OneCounter

namespace Automaton

/-- A way from one node to another over nodes that are none of the names: the nodes on the way, and
the operation of every edge. -/
inductive Route (a : Automaton) (names : List String) :
    String → List String → List (Option Instr) → String → Prop where
  | last {start stop : String} {data : EdgeData} (edge : a.edgeData? start stop = some data) :
      Route a names start [] [data.operation?] stop
  | step {start next stop : String} {data : EdgeData} {inner : List String}
      {operations : List (Option Instr)} (edge : a.edgeData? start next = some data)
      (fresh : next ∉ names) (rest : Route a names next inner operations stop) :
      Route a names start (next :: inner) (data.operation? :: operations) stop

section Routes

variable {a b : Automaton} {names inner : List String} {start next stop : String}
  {operations : List (Option Instr)}

theorem route_nil_iff : a.Route names start [] operations stop ↔
    ∃ data, a.edgeData? start stop = some data ∧ operations = [data.operation?] := by
  constructor
  · rintro (⟨edge⟩ | _)
    exact ⟨_, edge, rfl⟩
  · rintro ⟨data, edge, rfl⟩
    exact .last edge

theorem route_cons_iff : a.Route names start (next :: inner) operations stop ↔
    ∃ data rest, a.edgeData? start next = some data ∧ next ∉ names ∧
      a.Route names next inner rest stop ∧ operations = data.operation? :: rest := by
  constructor
  · rintro (_ | ⟨edge, fresh, rest⟩)
    exact ⟨_, _, edge, fresh, rest, rfl⟩
  · rintro ⟨data, rest, edge, fresh, way, rfl⟩
    exact .step edge fresh way

theorem Route.fresh (route : a.Route names start inner operations stop) :
    ∀ name ∈ inner, name ∉ names := by
  induction route with
  | last edge => simp
  | step edge fresh rest ih => exact List.forall_mem_cons.mpr ⟨fresh, ih⟩

theorem Route.hasNode (wellFormed : a.WellFormed)
    (route : a.Route names start inner operations stop) :
    ∀ name ∈ inner, a.hasNode name = true := by
  induction route with
  | last edge => simp
  | step edge fresh rest ih =>
      exact List.forall_mem_cons.mpr ⟨(wellFormed.ends (hasEdge_of_edgeData? edge)).2, ih⟩

/-- The nodes on the way stay if all nodes do. -/
theorem Route.map_get? (wellFormed : a.WellFormed)
    (route : a.Route names start inner operations stop)
    (nodes : ∀ name, a.hasNode name = true → b.nodes.get? name = a.nodes.get? name) :
    inner.map b.nodes.get? = inner.map a.nodes.get? :=
  List.map_congr_left fun name member => nodes name (route.hasNode wellFormed name member)

theorem Route.mono (route : a.Route names start inner operations stop)
    (edges : ∀ s t data, a.edgeData? s t = some data → b.edgeData? s t = some data) :
    b.Route names start inner operations stop := by
  induction route with
  | last edge => exact .last (edges _ _ _ edge)
  | step edge fresh rest ih => exact .step (edges _ _ _ edge) fresh ih

/-- A node that is not there has no edges. -/
theorem WellFormed.edgeData?_of_unknown (wellFormed : a.WellFormed) {name : String}
    (unknown : a.hasNode name = false) (other : String) :
    a.edgeData? name other = none ∧ a.edgeData? other name = none := by
  constructor
  · cases found : a.edgeData? name other with
    | none => rfl
    | some data =>
        have ends := wellFormed.ends (hasEdge_of_edgeData? found)
        exact absurd (ends.1.symm.trans unknown) (by simp)
  · cases found : a.edgeData? other name with
    | none => rfl
    | some data =>
        have ends := wellFormed.ends (hasEdge_of_edgeData? found)
        exact absurd (ends.2.symm.trans unknown) (by simp)

theorem get?_addEdge (a : Automaton) (start stop other : String) :
    (a.addEdge start stop).nodes.get? other =
      if other = start ∨ other = stop then some ((a.nodes.get? other).getD .plain)
      else a.nodes.get? other := by
  rw [nodes_addEdge, get?_addNode, get?_addNode, get?_addNode]
  by_cases here : other = stop
  · by_cases both : stop = start
    · simp [here, both]
    · simp [here, both]
  · by_cases there : other = start
    · subst there
      simp [here]
    · simp [here, there]

/-- A node that an edge does not bring stays as it is. -/
theorem get?_addEdge_of_known (a : Automaton) {start stop other : String}
    (starts : other = start → a.hasNode start = true)
    (stops : other = stop → a.hasNode stop = true) :
    (a.addEdge start stop).nodes.get? other = a.nodes.get? other := by
  have known : other = start ∨ other = stop → a.hasNode other = true := by
    rintro (rfl | rfl)
    · exact starts rfl
    · exact stops rfl
  rw [get?_addEdge]
  split
  · next here =>
      obtain ⟨data, found⟩ := Option.isSome_iff_exists.mp (known here)
      rw [found, Option.getD_some]
  · rfl

/-- A new node makes no difference to the routes from the other fresh nodes if their edges stay
as they are. -/
theorem route_congr {new : String} (unreached : ∀ name, a.edgeData? name new = none)
    (same : ∀ name, name ∉ names → name ≠ new → ∀ other, b.edgeData? name other =
      a.edgeData? name other) (outside : start ∉ names) (old : start ≠ new) :
    b.Route names start inner operations stop ↔ a.Route names start inner operations stop := by
  induction inner generalizing start operations with
  | nil => rw [route_nil_iff, route_nil_iff, same start outside old]
  | cons next rest ih =>
      rw [route_cons_iff, route_cons_iff, same start outside old]
      constructor
      · rintro ⟨data, others, edge, fresh, way, equal⟩
        have different : next ≠ new := fun here => by simp [here, unreached] at edge
        exact ⟨data, others, edge, fresh, (ih fresh different).mp way, equal⟩
      · rintro ⟨data, others, edge, fresh, way, equal⟩
        have different : next ≠ new := fun here => by simp [here, unreached] at edge
        exact ⟨data, others, edge, fresh, (ih fresh different).mpr way, equal⟩

end Routes

end Automaton

namespace Dot

/-! ### Fresh names -/

namespace Splitting

theorem freshName_injective {m n : Nat} (same : freshName m = freshName n) : m = n := by
  have digits := List.cons.inj (String.ofList_injective same)
  have value := congrArg (fun digits => Nat.ofDigitChars 10 digits 0) digits.2
  simpa using value

/-- The names from a number on that are passed over are all taken. -/
theorem hasNode_of_firstFree (a : Automaton) (fuel n : Nat) :
    (∀ m, n ≤ m → m < firstFree a fuel n → a.hasNode (freshName m) = true) ∧
      (a.hasNode (freshName (firstFree a fuel n)) = false ∨ firstFree a fuel n = n + fuel) := by
  induction fuel generalizing n with
  | zero => exact ⟨fun m above below => absurd below (not_lt.mpr above), Or.inr rfl⟩
  | succ fuel ih =>
      rw [firstFree]
      split
      · next taken =>
          obtain ⟨passed, free⟩ := ih (n + 1)
          refine ⟨?_, free.imp_right fun last => by omega⟩
          intro m above below
          rcases Nat.eq_or_lt_of_le above with same | later
          · exact same ▸ taken
          · exact passed m later below
      · next free =>
          exact ⟨fun m above below => absurd below (not_lt.mpr above), Or.inl (by simpa using free)⟩

/-- There are not enough nodes for all the names that are tried to be taken. -/
theorem hasNode_free (w : Splitting) : w.automaton.hasNode (freshName w.free) = false := by
  obtain ⟨passed, free | last⟩ :=
    hasNode_of_firstFree w.automaton w.automaton.nodes.size w.next
  · exact free
  · cases taken : w.automaton.hasNode (freshName w.free) with
    | false => rfl
    | true =>
        -- One name more than there are nodes would have to be taken.
        let tried := (List.range' w.next (w.automaton.nodes.size + 1)).map freshName
        have distinct : tried.Nodup := List.Nodup.map (fun _ _ => freshName_injective)
          List.nodup_range'
        have known : tried ⊆ w.automaton.nodes.keys := by
          intro name member
          obtain ⟨m, inside, rfl⟩ := List.mem_map.mp member
          rw [List.mem_range'_1] at inside
          rw [Table.mem_keys_iff]
          rcases Nat.lt_or_ge m w.free with before | end_
          · exact passed m inside.1 before
          · have same : m = w.free := by
              rw [free, last] at *
              omega
            exact same ▸ taken
        have count := distinct.length_le_of_subset known
        rw [List.length_map, List.length_range', Table.keys, List.length_map, Table.size] at count
        omega

end Splitting

/-! ### One split -/

def Split.fresh : Split → String
  | edge _ _ fresh _ => fresh
  | node _ fresh _ => fresh

namespace Splitting

/-- The names of the nodes that have been put in. -/
def freshNames (w : Splitting) : List String := w.splits.map Split.fresh

section Split

variable {w : Splitting} (wellFormed : w.automaton.WellFormed) {start stop name : String}
  (guard delta : Instr) {data : EdgeData}

include wellFormed

/-- The edge leads over the fresh node instead. -/
theorem edgeData?_splitEdge (found : w.automaton.edgeData? start stop = some data)
    (other next : String) :
    (w.splitEdge (start, stop, guard)).automaton.edgeData? other next =
      if other = freshName w.free then if next = stop then some ⟨none, data.operation?⟩ else none
      else if other = start ∧ next = freshName w.free then some .plain
      else if other = start ∧ next = stop then none
      else w.automaton.edgeData? other next := by
  have unknown := w.hasNode_free
  have ends := wellFormed.ends (Automaton.hasEdge_of_edgeData? found)
  have starts : freshName w.free ≠ start := fun same => by simp [same, ends.1] at unknown
  have stops : freshName w.free ≠ stop := fun same => by simp [same, ends.2] at unknown
  have lonely := wellFormed.edgeData?_of_unknown unknown
  have noMark : ∀ (a : Automaton) (f : NodeData → NodeData) s t,
      (a.mapNode (freshName w.free) f).edgeData? s t = a.edgeData? s t := fun _ _ _ _ => rfl
  simp only [splitEdge, found, Automaton.edgeData?_mapEdge, noMark, Automaton.edgeData?_addEdge,
    Automaton.edgeData?_removeEdge]
  by_cases here : other = freshName w.free
  · by_cases there : next = stop
    · simp [here, there, starts, lonely, EdgeData.plain]
    · simp [here, there, starts, lonely]
  · by_cases from_ : other = start
    · by_cases into : next = freshName w.free
      · simp [from_, into, starts.symm, stops, lonely]
      · simp [from_, into, starts.symm]
    · simp [here, from_]

theorem get?_splitEdge (found : w.automaton.edgeData? start stop = some data) (other : String) :
    (w.splitEdge (start, stop, guard)).automaton.nodes.get? other =
      if other = freshName w.free then some { NodeData.plain with condition? := some guard }
      else w.automaton.nodes.get? other := by
  have ends := wellFormed.ends (Automaton.hasEdge_of_edgeData? found)
  have missing : w.automaton.nodes.get? (freshName w.free) = none := by
    simpa [Automaton.hasNode, Table.contains] using w.hasNode_free
  simp only [splitEdge, found, Automaton.mapEdge, Automaton.mapNode, Table.get?_modify]
  by_cases here : other = freshName w.free
  · simp [here, Automaton.get?_addEdge, Automaton.nodes_removeEdge, missing, NodeData.plain]
  · have known : (w.automaton.removeEdge start stop).hasNode start = true := by
      rw [Automaton.hasNode, Automaton.nodes_removeEdge]
      exact ends.1
    have stays : ((w.automaton.removeEdge start stop).addEdge start (freshName w.free)).hasNode
        stop = true := by
      have kept : (w.automaton.removeEdge start stop).hasNode stop = true := by
        rw [Automaton.hasNode, Automaton.nodes_removeEdge]
        exact ends.2
      simp [Automaton.hasNode_addEdge, kept]
    rw [if_neg here, if_neg here,
      Automaton.get?_addEdge_of_known _ (fun same => absurd same here) fun _ => stays,
      Automaton.get?_addEdge_of_known _ (fun _ => known) fun same => absurd same here,
      Automaton.nodes_removeEdge]

/-- All edges of the node leave the fresh node, and the node leads there. -/
theorem edgeData?_splitNode (known : w.automaton.hasNode name = true) (other next : String) :
    (w.splitNode (name, delta)).automaton.edgeData? other next =
      if other = name then if next = freshName w.free then some ⟨none, some delta⟩ else none
      else if other = freshName w.free then w.automaton.edgeData? name next
      else w.automaton.edgeData? other next := by
  have unknown := w.hasNode_free
  have different : freshName w.free ≠ name := fun same => by simp [same, known] at unknown
  have lonely := wellFormed.edgeData?_of_unknown unknown
  simp only [splitNode, Automaton.edgeData?_mapEdge, Automaton.edgeData?_addEdge,
    Automaton.edgeData?_moveStart]
  by_cases here : other = name
  · by_cases there : next = freshName w.free
    · simp [here, there, different.symm, EdgeData.plain]
    · simp [here, there, different.symm]
  · simp [here, different, lonely]

omit wellFormed in
theorem get?_splitNode (known : w.automaton.hasNode name = true) (other : String) :
    (w.splitNode (name, delta)).automaton.nodes.get? other =
      if other = freshName w.free then some .plain else w.automaton.nodes.get? other := by
  have missing : w.automaton.nodes.get? (freshName w.free) = none := by
    simpa [Automaton.hasNode, Table.contains] using w.hasNode_free
  have moved : (w.automaton.moveStart name (freshName w.free)).nodes.get? other =
      if other = freshName w.free ∧ (w.automaton.row name).isEmpty = false then some .plain
      else w.automaton.nodes.get? other := by
    rw [Automaton.nodes_moveStart]
    cases empty : (w.automaton.row name).isEmpty with
    | true => simp
    | false => simp [Automaton.get?_addNode, missing]
  simp only [splitNode, Automaton.mapEdge]
  by_cases here : other = freshName w.free
  · rw [Automaton.get?_addEdge, if_pos (Or.inr here), moved, if_pos here]
    cases empty : (w.automaton.row name).isEmpty <;> simp [here, missing]
  · have stays : (w.automaton.moveStart name (freshName w.free)).hasNode name = true := by
      simp [Automaton.hasNode_moveStart, known]
    rw [Automaton.get?_addEdge_of_known _ (fun _ => stays) fun same => absurd same here, moved]
    simp [here]

omit wellFormed in
/-- Putting a fresh node in leaves the nodes that are there. -/
theorem get?_of_hasNode {w' : Splitting} {new : NodeData}
    (nodes : ∀ other, w'.automaton.nodes.get? other =
      if other = freshName w.free then some new else w.automaton.nodes.get? other)
    (name : String) (known : w.automaton.hasNode name = true) :
    w'.automaton.nodes.get? name = w.automaton.nodes.get? name := by
  have unknown := w.hasNode_free
  have old : name ≠ freshName w.free := fun here => by simp [← here, known] at unknown
  rw [nodes, if_neg old]

theorem wellFormed_splitEdge (job : String × String × Instr) :
    (w.splitEdge job).automaton.WellFormed := by
  obtain ⟨start, stop, guard⟩ := job
  simp only [splitEdge]
  split
  · exact wellFormed
  · exact ((((wellFormed.removeEdge start stop).addEdge _ _).addEdge _ _).mapNode _ _).mapEdge _ _ _

theorem wellFormed_splitNode (job : String × Instr) : (w.splitNode job).automaton.WellFormed :=
  ((wellFormed.moveStart _ _).addEdge _ _).mapEdge _ _ _

/-! ### Routes after a split -/

section Route

variable {names : List String} {origin target : String} (inner : List String)
  (operations : List (Option Instr)) (named : ∀ name ∈ names, w.automaton.hasNode name = true)

include named

omit wellFormed in
theorem notMem_names_of_free : freshName w.free ∉ names := fun member => by
  simpa [named _ member] using w.hasNode_free

omit named in
/-- From the fresh node of an edge there is only the way to the end of the edge. -/
theorem route_free_splitEdge_iff (found : w.automaton.edgeData? start stop = some data)
    (stops : stop ∈ names) :
    (w.splitEdge (start, stop, guard)).automaton.Route names (freshName w.free) inner operations
        target ↔ inner = [] ∧ target = stop ∧ operations = [data.operation?] := by
  have edges := edgeData?_splitEdge wellFormed guard found (freshName w.free)
  cases inner with
  | nil =>
      rw [Automaton.route_nil_iff, edges, if_pos rfl]
      by_cases there : target = stop
      · simp [there]
      · simp [there]
  | cons next rest =>
      rw [Automaton.route_cons_iff, edges, if_pos rfl]
      constructor
      · rintro ⟨data, _, edge, fresh, _⟩
        have other : next ≠ stop := fun same => fresh (same ▸ stops)
        simp [other] at edge
      · simp

/-- Splitting an edge replaces the route along it, and leaves all others. -/
theorem route_splitEdge_iff (found : w.automaton.edgeData? start stop = some data)
    (starts : start ∈ names) (stops : stop ∈ names) (origins : origin ∈ names)
    (targets : target ∈ names) :
    (w.splitEdge (start, stop, guard)).automaton.Route names origin inner operations target ↔
      (origin = start ∧ target = stop ∧ inner = [freshName w.free] ∧
        operations = [none, data.operation?]) ∨
      (w.automaton.Route names origin inner operations target ∧
        ¬ (origin = start ∧ target = stop ∧ inner = [])) := by
  have fresh := notMem_names_of_free named
  have lonely := wellFormed.edgeData?_of_unknown w.hasNode_free
  have edges := edgeData?_splitEdge wellFormed guard found
  have old : origin ≠ freshName w.free := fun same => fresh (same ▸ origins)
  cases inner with
  | nil =>
      have last : target ≠ freshName w.free := fun same => fresh (same ▸ targets)
      rw [Automaton.route_nil_iff, Automaton.route_nil_iff, edges]
      by_cases here : origin = start ∧ target = stop
      · simp [here, here.1 ▸ old, here.2 ▸ last]
      · simp [here, old, last]
  | cons next rest =>
      rw [Automaton.route_cons_iff, Automaton.route_cons_iff, edges, if_neg old]
      by_cases free : next = freshName w.free
      · subst free
        by_cases here : origin = start
        · have onward : ∀ others, (w.splitEdge (start, stop, guard)).automaton.Route names
              (freshName w.free) rest others target ↔
              rest = [] ∧ target = stop ∧ others = [data.operation?] :=
            fun others => route_free_splitEdge_iff wellFormed guard rest others found stops
          rw [if_pos ⟨here, rfl⟩]
          constructor
          · rintro ⟨_, others, ⟨rfl⟩, -, way, rfl⟩
            obtain ⟨rfl, rfl, rfl⟩ := (onward others).mp way
            exact Or.inl ⟨here, rfl, rfl, rfl⟩
          · rintro (⟨-, rfl, same, rfl⟩ | ⟨⟨_, _, edge, _⟩, -⟩)
            · exact ⟨.plain, _, rfl, fresh, (onward _).mpr ⟨(List.cons.inj same).2, rfl, rfl⟩, rfl⟩
            · simp [lonely] at edge
        · simp [here, lonely]
      · by_cases inside : next ∈ names
        · simp [inside, free]
        · have other : next ≠ stop := fun same => inside (same ▸ stops)
          have beyond : ∀ others,
              (w.splitEdge (start, stop, guard)).automaton.Route names next rest others target ↔
                w.automaton.Route names next rest others target := by
            intro others
            refine Automaton.route_congr (fun name => (lonely name).2) ?_ inside free
            intro name outside old next
            have apart : name ≠ start := fun same => outside (same ▸ starts)
            simp [edges, old, apart]
          simp [free, other, beyond]

/-- Where the edges of a node leave a fresh node, so do the routes. -/
theorem route_splitNode_iff (known : name ∈ names) (origins : origin ∈ names)
    (targets : target ∈ names) :
    (w.splitNode (name, delta)).automaton.Route names origin inner operations target ↔
      if origin = name then ∃ rest others, inner = freshName w.free :: rest ∧
        operations = some delta :: others ∧ w.automaton.Route names name rest others target
      else w.automaton.Route names origin inner operations target := by
  have fresh := notMem_names_of_free named
  have lonely := wellFormed.edgeData?_of_unknown w.hasNode_free
  have edges := edgeData?_splitNode wellFormed delta (named name known)
  have different : freshName w.free ≠ name := fun same => fresh (same ▸ known)
  have old : origin ≠ freshName w.free := fun same => fresh (same ▸ origins)
  have last : target ≠ freshName w.free := fun same => fresh (same ▸ targets)
  have beyond : ∀ {next}, next ∉ names → next ≠ freshName w.free → ∀ rest others,
      (w.splitNode (name, delta)).automaton.Route names next rest others target ↔
        w.automaton.Route names next rest others target := by
    intro next outside old rest others
    refine Automaton.route_congr (fun name => (lonely name).2) ?_ outside old
    intro other outside old next
    have apart : other ≠ name := fun same => outside (same ▸ known)
    simp [edges, old, apart]
  -- The fresh node has the edges that the node had.
  have same : ∀ rest others,
      (w.splitNode (name, delta)).automaton.Route names (freshName w.free) rest others target ↔
        w.automaton.Route names name rest others target := by
    intro rest others
    cases rest with
    | nil => simp [Automaton.route_nil_iff, edges, different]
    | cons next rest =>
        rw [Automaton.route_cons_iff, Automaton.route_cons_iff, edges, if_neg different, if_pos rfl]
        by_cases free : next = freshName w.free
        · simp [free, lonely]
        · by_cases inside : next ∈ names
          · simp [inside]
          · simp [beyond inside free]
  cases inner with
  | nil =>
      rw [Automaton.route_nil_iff, Automaton.route_nil_iff, edges]
      by_cases here : origin = name
      · simp [here, last]
      · simp [here, old]
  | cons next rest =>
      rw [Automaton.route_cons_iff, Automaton.route_cons_iff, edges]
      by_cases free : next = freshName w.free
      · subst free
        by_cases here : origin = name
        · rw [if_pos here, if_pos rfl, if_pos here]
          constructor
          · rintro ⟨_, others, ⟨rfl⟩, -, way, rfl⟩
            exact ⟨rest, others, rfl, rfl, (same rest others).mp way⟩
          · rintro ⟨_, others, ⟨rfl⟩, rfl, way⟩
            exact ⟨_, others, rfl, fresh, (same _ others).mpr way, rfl⟩
        · simp [here, old, lonely]
      · by_cases here : origin = name
        · simp [here, free]
        · by_cases inside : next ∈ names
          · simp [inside, here]
          · simp [here, old, beyond inside free]

end Route

end Split

end Splitting

end Dot

end OneCounter
