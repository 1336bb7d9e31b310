import OneCounter.Proofs.CycleSearch

/-!
What it takes for a loop to grow. The nodes of a loop follow one another in a circle, so what spreads
from each node to the next holds of all of them once it holds of one. Main statement: if a round has
marked a loop as grown in a direction, all edges of the loop hold values, and those of one edge have
grown that way.
-/

namespace OneCounter

namespace Loop

variable {nodes : List String}

theorem successors_eq_zip (nodes : List String) :
    successors nodes = nodes.zip (nodes.rotate 1) := by
  cases nodes with
  | nil => rfl
  | cons first rest => rw [successors, List.rotate_cons_succ, List.rotate_zero]; rfl

theorem mem_successors_iff (pair : String × String) :
    pair ∈ successors nodes ↔
      ∃ i, nodes[i]? = some pair.1 ∧ nodes[(i + 1) % nodes.length]? = some pair.2 := by
  rw [successors_eq_zip, List.mem_iff_getElem?]
  constructor
  · rintro ⟨i, found⟩
    obtain ⟨first, second⟩ := List.getElem?_zip_eq_some.mp found
    obtain ⟨inside, _⟩ := List.getElem?_eq_some_iff.mp first
    exact ⟨i, first, by rwa [List.getElem?_rotate inside] at second⟩
  · rintro ⟨i, first, second⟩
    obtain ⟨inside, _⟩ := List.getElem?_eq_some_iff.mp first
    exact ⟨i, List.getElem?_zip_eq_some.mpr ⟨first, by rwa [List.getElem?_rotate inside]⟩⟩

theorem mem_of_mem_successors {pair : String × String} (listed : pair ∈ successors nodes) :
    pair.2 ∈ nodes := by
  obtain ⟨_, _, found⟩ := (mem_successors_iff pair).mp listed
  exact List.mem_of_getElem? found

/-- What spreads from each node of a circle to the next, spreads over all of the circle. -/
theorem forall_of_successors {holds : String → Prop}
    (spreads : ∀ pair ∈ successors nodes, holds pair.1 → holds pair.2) {node : String}
    (member : node ∈ nodes) (first : holds node) : ∀ other ∈ nodes, holds other := by
  obtain ⟨i, inside, rfl⟩ := List.mem_iff_getElem.mp member
  have nonempty : 0 < nodes.length := by omega
  -- By induction on the number of steps from the one node.
  have steps : ∀ k other, nodes[(i + k) % nodes.length]? = some other → holds other := by
    intro k
    induction k with
    | zero =>
        intro other found
        rw [Nat.add_zero, Nat.mod_eq_of_lt inside, List.getElem?_eq_getElem inside] at found
        exact Option.some.inj found ▸ first
    | succ k ih =>
        intro other found
        have near := List.getElem?_eq_getElem (Nat.mod_lt (i + k) nonempty)
        refine spreads (_, other) ((mem_successors_iff _).mpr ⟨_, near, ?_⟩) (ih _ near)
        rwa [Nat.mod_add_mod]
  intro other listed
  obtain ⟨j, bound, rfl⟩ := List.mem_iff_getElem.mp listed
  apply steps (nodes.length - i + j)
  have around : i + (nodes.length - i + j) = j + nodes.length := by omega
  rw [around, Nat.add_mod_right, Nat.mod_eq_of_lt bound, List.getElem?_eq_getElem bound]

/-- Only a circle of one node leads from a node to itself. -/
theorem eq_singleton_of_mem_successors (distinct : nodes.Nodup) {node : String}
    (turns : (node, node) ∈ successors nodes) : nodes = [node] := by
  obtain ⟨i, here, next⟩ := (mem_successors_iff _).mp turns
  obtain ⟨inside, _⟩ := List.getElem?_eq_some_iff.mp here
  have same : i = (i + 1) % nodes.length :=
    (List.getElem?_inj inside distinct).mp (here.trans next.symm)
  have single : nodes.length = 1 := by
    rcases Nat.lt_or_ge (i + 1) nodes.length with below | full
    · rw [Nat.mod_eq_of_lt below] at same
      omega
    · have last : i + 1 = nodes.length := by omega
      rw [last, Nat.mod_self] at same
      omega
  obtain ⟨only, rfl⟩ := List.length_eq_one_iff.mp single
  exact congrArg (fun name => [name]) (List.mem_singleton.mp (List.mem_of_getElem? here)).symm

theorem node_of_mem_limits {a : Automaton} {direction : Direction} {limit : Limit}
    (member : limit ∈ limits a direction nodes) : limit.node ∈ nodes := by
  obtain ⟨pair, listed, found⟩ := List.mem_filterMap.mp member
  split at found
  · split at found
    · obtain rfl := Option.some.inj found
      exact (List.of_mem_zip listed).2
    · cases found
  · cases found

theorem mem_nodes_of_target? {a : Automaton} {direction : Direction} {target : Target}
    (found : (ofNodes a nodes).target? direction = some target) : target.node ∈ nodes := by
  rw [target?, side_ofNodes] at found
  cases limit? : (sideOf a nodes direction).limit? with
  | some limit =>
      rw [limit?] at found
      obtain rfl := Option.some.inj found
      exact node_of_mem_limits (mem_of_tightest limit?)
  | none =>
      rw [limit?] at found
      cases nodes with
      | nil => cases found
      | cons first rest =>
          cases rest with
          | nil =>
              obtain rfl := Option.some.inj found
              exact List.mem_cons_self
          | cons second later =>
              obtain rfl := Option.some.inj found
              exact List.mem_cons_of_mem _ List.mem_cons_self

/-- A loop that moves the counter in a direction has an edge that does. -/
theorem exists_of_moves {a : Automaton} {direction : Direction}
    (moves : ((ofNodes a nodes).side direction).moves = true) :
    ∃ pair ∈ successors nodes, ∃ data, a.edgeData? pair.1 pair.2 = some data ∧
      direction.follows data.delta = true := by
  rw [side_ofNodes] at moves
  obtain ⟨data, listed, follows⟩ := List.any_eq_true.mp moves
  obtain ⟨pair, member, found⟩ := List.mem_filterMap.mp listed
  exact ⟨pair, member, data, found, follows⟩

end Loop

/-! ### Growth in a round -/

def Growth.along (growth : Growth) : Direction → Bool
  | .up => growth.up
  | .down => growth.down

namespace Loop

variable {l : Loop} {before after : Reach} {growth : Growth}

theorem holds_of_edgeGrowth? {edge : String × String}
    (found : l.edgeGrowth? before after edge = some growth) :
    ∃ v, after.Holds edge.2 edge.1 v := by
  cases there : (after.values? edge.2 edge.1).filter (!·.isEmpty) with
  | none => simp [edgeGrowth?, there] at found
  | some values =>
      obtain ⟨stored, inhabited⟩ := Option.filter_eq_some_iff.mp there
      obtain ⟨v, member⟩ := Region.exists_mem (Bool.not_eq_true' _ ▸ inhabited)
      exact ⟨v, values, stored, member⟩

theorem map_eq_of_mapM {α β : Type} {f : α → Option β} {list : List α} {results : List β}
    (found : list.mapM f = some results) : list.map f = results.map some := by
  induction list generalizing results with
  | nil =>
      obtain rfl : [] = results := Option.some.inj found
      rfl
  | cons first rest ih =>
      rw [List.mapM_cons] at found
      cases head : f first with
      | none => simp [head] at found
      | some result =>
          cases tail : rest.mapM f with
          | none => simp [head, tail] at found
          | some others =>
              obtain rfl : result :: others = results := by simpa [head, tail] using found
              rw [List.map_cons, List.map_cons, head, ih tail]

/-- A loop that has grown holds values along all of its edges, and those of one edge have grown in
the same direction. -/
theorem growth?_spec (found : l.growth? before after = some growth) :
    (∀ edge ∈ l.edges, ∃ v, after.Holds edge.2 edge.1 v) ∧
      ∀ direction, growth.along direction = true → ∃ edge ∈ l.edges, ∃ change,
        l.edgeGrowth? before after edge = some change ∧ change.along direction = true := by
  obtain ⟨changes, each, rfl⟩ := Option.map_eq_some_iff.mp found
  have listed := map_eq_of_mapM each
  constructor
  · intro edge member
    have known : l.edgeGrowth? before after edge ∈ changes.map some :=
      listed ▸ List.mem_map_of_mem member
    obtain ⟨change, _, same⟩ := List.mem_map.mp known
    exact holds_of_edgeGrowth? same.symm
  · intro direction grows
    obtain ⟨change, member, along⟩ : ∃ change ∈ changes, change.along direction = true := by
      cases direction with
      | up => exact List.any_eq_true.mp grows
      | down => exact List.any_eq_true.mp grows
    have known : some change ∈ l.edges.map (l.edgeGrowth? before after) :=
      listed ▸ List.mem_map_of_mem member
    obtain ⟨edge, onLoop, same⟩ := List.mem_map.mp known
    exact ⟨edge, onLoop, change, same, along⟩

end Loop

/-- A loop is marked as grown if it was so before, or if it has grown in this round. -/
theorem Tracker.grown_update {tracker : Tracker} {before after : Reach} {direction : Direction}
    (grown : ((tracker.update before after).gauge direction).grown = true) :
    (tracker.gauge direction).grown = true ∨
      ∃ growth, tracker.loop.growth? before after = some growth ∧ growth.along direction = true := by
  have advance : ∀ {gauge : Gauge} {grows : Bool}, (gauge.advance grows).grown = true →
      gauge.grown = true ∨ grows = true := by
    intro gauge grows marked
    cases grows with
    | true => exact Or.inr rfl
    | false => exact Or.inl marked
  unfold update at grown
  split at grown
  · next growth found =>
      cases direction with
      | up => exact (advance grown).imp_right fun along => ⟨growth, found, along⟩
      | down => exact (advance grown).imp_right fun along => ⟨growth, found, along⟩
  · cases direction with
    | up => exact Or.inl grown
    | down => exact Or.inl grown

end OneCounter
