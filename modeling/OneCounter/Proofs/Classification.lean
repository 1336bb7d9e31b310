import OneCounter.Proofs.Growth

/-!
What a list of nodes says when it is read as a loop. The list may hold anything: nodes more than once,
and names that the automaton does not know. Main statement: whether the loop moves the counter in a
direction depends on the edges from each place of the list to the next, and its limit in a direction
is the tightest of the guards against it, with the first place at which it stands and the place
before that. The last place is followed by the first.
-/

namespace OneCounter

namespace Direction

/-- The guards that keep the counter from going further. -/
def barriers : Direction → List Operator
  | up => [.atMost, .equal]
  | down => [.atLeast, .equal]

/-- Whether the first value is met no later than the second on the way. -/
def NoLater : Direction → Count → Count → Prop
  | up, x, y => x ≤ y
  | down, x, y => x ≥ y

variable {direction : Direction} {x y z : Count}

theorem bars_iff {op : Operator} : op.bars direction = true ↔ op ∈ direction.barriers := by
  cases direction <;> simp [Operator.bars, barriers]

theorem nearer_eq_false_iff : direction.nearer x y = false ↔ direction.NoLater y x := by
  cases direction <;> simp [nearer, NoLater, Count.lt_iff, Count.le_iff]

theorem noLater_antisymm (one : direction.NoLater x y) (other : direction.NoLater y x) : x = y := by
  apply Count.ext
  cases direction with
  | up => exact le_antisymm one other
  | down => exact le_antisymm other one

theorem noLater_refl (direction : Direction) (x : Count) : direction.NoLater x x := by
  cases direction <;> exact Int.le_refl x.toInt

theorem nearer_of_noLater (nearer : direction.nearer x y = true) (after : direction.NoLater y z) :
    direction.nearer x z = true := by
  cases direction with
  | up =>
      simp only [Direction.nearer, decide_eq_true_eq] at nearer ⊢
      exact Int.lt_of_lt_of_le nearer after
  | down =>
      simp only [Direction.nearer, decide_eq_true_eq] at nearer ⊢
      exact Int.lt_of_le_of_lt after nearer

theorem noLater_of_nearer (nearer : direction.nearer x y = true) : direction.NoLater x y := by
  cases direction with
  | up => exact Int.le_of_lt (of_decide_eq_true nearer)
  | down => exact Int.le_of_lt (of_decide_eq_true nearer)

end Direction

namespace Loop

variable {a : Automaton} {direction : Direction} {nodes : List String}

/-! ### Places of a list -/

/-- The edge from a place of the list to the next. -/
def StepAt (a : Automaton) (nodes : List String) (i : Nat) (data : EdgeData) : Prop :=
  ∃ start stop, nodes[i]? = some start ∧ nodes[(i + 1) % nodes.length]? = some stop ∧
    a.edgeData? start stop = some data

/-- A guard with one of the operators stands at the place. -/
def GuardAt (a : Automaton) (nodes : List String) (ops : List Operator) (i : Nat)
    (value : Count) : Prop :=
  ∃ node guard, nodes[i]? = some node ∧ a.condition? node = some guard ∧ guard.op ∈ ops ∧
    guard.constant = value

/-- The limit belongs to the place. No guard comes before it in the order, and it stands at no
earlier place. -/
structure IsFirst (a : Automaton) (nodes : List String) (ops : List Operator)
    (order : Count → Count → Prop) (limit : Limit) (i : Nat) : Prop where
  node : nodes[i]? = some limit.node
  preceding : nodes[(i + nodes.length - 1) % nodes.length]? = some limit.preceding
  guard : GuardAt a nodes ops i limit.value
  extreme : ∀ j value, GuardAt a nodes ops j value → order limit.value value
  first : ∀ j, GuardAt a nodes ops j limit.value → i ≤ j

theorem mem_steps_iff {data : EdgeData} : data ∈ steps a nodes ↔ ∃ i, StepAt a nodes i data := by
  rw [steps, List.mem_filterMap]
  constructor
  · rintro ⟨⟨start, stop⟩, listed, found⟩
    obtain ⟨i, here, next⟩ := (mem_successors_iff _).mp listed
    exact ⟨i, start, stop, here, next, found⟩
  · rintro ⟨i, start, stop, here, next, found⟩
    exact ⟨(start, stop), (mem_successors_iff _).mpr ⟨i, here, next⟩, found⟩

/-! ### The tightest limit -/

/-- The limit that a guard of the second node sets, entered from the first. -/
def limitOf (a : Automaton) (direction : Direction) (pair : String × String) : Option Limit :=
  match a.condition? pair.2 with
  | some guard =>
      if guard.op.bars direction then some ⟨guard.constant, pair.2, pair.1⟩ else none
  | none => none

theorem limits_eq_filterMap (a : Automaton) (direction : Direction) (nodes : List String) :
    limits a direction nodes = (predecessors nodes).filterMap (limitOf a direction) := rfl

theorem limitOf_eq_some_iff {pair : String × String} {limit : Limit} :
    limitOf a direction pair = some limit ↔ ∃ guard, a.condition? pair.2 = some guard ∧
      guard.op ∈ direction.barriers ∧ limit = ⟨guard.constant, pair.2, pair.1⟩ := by
  unfold limitOf
  cases a.condition? pair.2 with
  | none => simp
  | some guard =>
      by_cases bars : guard.op.bars direction = true
      · have listed := Direction.bars_iff.mp bars
        simp only [bars, if_true, Option.some.injEq, exists_eq_left']
        exact ⟨fun same => ⟨listed, same.symm⟩, fun facts => facts.2.symm⟩
      · have missing : guard.op ∉ direction.barriers := mt Direction.bars_iff.mpr bars
        simp [bars, missing]

theorem tightest_append_singleton (limits : List Limit) (last : Limit) :
    tightest direction (limits ++ [last]) =
      nearest direction (tightest direction limits) last := by
  rw [tightest_eq_foldl, List.foldl_append]
  rfl

/-- The tightest of some limits comes before all that are listed earlier, and not after any that are
listed later. -/
theorem split_of_tightest {limits : List Limit} {best : Limit}
    (found : tightest direction limits = some best) :
    ∃ front back, limits = front ++ best :: back ∧
      (∀ limit ∈ front, direction.nearer best.value limit.value = true) ∧
      ∀ limit ∈ back, direction.NoLater best.value limit.value := by
  -- By induction from the end of the list, where the fold stands after its last step.
  induction limits using List.reverseRecOn generalizing best with
  | nil => cases found
  | append_singleton limits last ih =>
      rw [tightest_append_singleton] at found
      cases earlier : tightest direction limits with
      | none =>
          rw [earlier] at found
          obtain rfl : last = best := Option.some.inj found
          obtain rfl := limits_eq_nil_of_tightest earlier
          exact ⟨[], [], rfl, by simp, by simp⟩
      | some old =>
          rw [earlier, nearest] at found
          obtain ⟨front, back, rfl, before, after⟩ := ih earlier
          cases closer : direction.nearer last.value old.value with
          | true =>
              obtain rfl : last = best := by simpa [closer] using found
              have all : ∀ limit ∈ front ++ old :: back,
                  direction.NoLater old.value limit.value := by
                intro limit listed
                rcases List.mem_append.mp listed with early | late
                · exact Direction.noLater_of_nearer (before limit early)
                · rcases List.mem_cons.mp late with rfl | later
                  · exact Direction.noLater_refl direction _
                  · exact after limit later
              exact ⟨front ++ old :: back, [], rfl,
                fun limit listed => Direction.nearer_of_noLater closer (all limit listed), by simp⟩
          | false =>
              obtain rfl : old = best := by simpa [closer] using found
              refine ⟨front, back ++ [last], by simp, before, ?_⟩
              intro limit listed
              rcases List.mem_append.mp listed with kept | new
              · exact after limit kept
              · rw [List.mem_singleton.mp new]
                exact Direction.nearer_eq_false_iff.mp closer

/-- A split of what is kept of a list, place by place. -/
theorem exists_place {α β : Type} {list : List α} {f : α → Option β} {front back : List β} {mid : β}
    (split : list.filterMap f = front ++ mid :: back) :
    ∃ (i : Nat) (x : α), list[i]? = some x ∧ f x = some mid ∧ ∀ j y other, list[j]? = some y →
      f y = some other → (j < i → other ∈ front) ∧ (i < j → other ∈ back) := by
  obtain ⟨kept, rest, rfl, rfl, more⟩ := List.filterMap_eq_append_iff.mp split
  obtain ⟨dropped, x, later, rfl, nothing, found, rfl⟩ := List.filterMap_eq_cons_iff.mp more
  refine ⟨(kept ++ dropped).length, x, by simp, found, ?_⟩
  intro j y other there sets
  rw [← List.append_assoc] at there
  constructor
  · intro early
    rw [List.getElem?_append_left early] at there
    rcases List.mem_append.mp (List.mem_of_getElem? there) with inFront | passed
    · exact List.mem_filterMap.mpr ⟨y, inFront, sets⟩
    · exact absurd ((nothing y passed).symm.trans sets) (by simp)
  · intro late
    rw [List.getElem?_append_right late.le] at there
    obtain ⟨k, next⟩ : ∃ k, j - (kept ++ dropped).length = k + 1 :=
      Nat.exists_eq_succ_of_ne_zero (by omega)
    rw [next, List.getElem?_cons_succ] at there
    exact List.mem_filterMap.mpr ⟨y, List.mem_of_getElem? there, sets⟩

theorem exists_isFirst {limit : Limit}
    (found : tightest direction (limits a direction nodes) = some limit) :
    ∃ i, IsFirst a nodes direction.barriers direction.NoLater limit i := by
  obtain ⟨front, back, split, before, after⟩ := split_of_tightest found
  rw [limits_eq_filterMap] at split
  obtain ⟨i, pair, here, own, others⟩ := exists_place split
  obtain ⟨guard, condition, listed, rfl⟩ := limitOf_eq_some_iff.mp own
  obtain ⟨preceding, node⟩ := getElem?_predecessors.mp here
  have placed : ∀ j value, GuardAt a nodes direction.barriers j value → ∃ other limit,
      (predecessors nodes)[j]? = some other ∧ limitOf a direction other = some limit ∧
        limit.value = value := by
    rintro j value ⟨name, guard, there, condition, listed, rfl⟩
    obtain ⟨origin, entered⟩ := exists_predecessor there
    exact ⟨_, _, entered, limitOf_eq_some_iff.mpr ⟨guard, condition, listed, rfl⟩, rfl⟩
  refine ⟨i, node, preceding, ⟨_, guard, node, condition, listed, rfl⟩, ?_, ?_⟩
  · intro j value guarded
    obtain ⟨other, limit, there, sets, rfl⟩ := placed j value guarded
    rcases Nat.lt_trichotomy j i with early | rfl | late
    · exact Direction.noLater_of_nearer (before limit ((others j other limit there sets).1 early))
    · obtain rfl := Option.some.inj (here.symm.trans there)
      obtain rfl := Option.some.inj (own.symm.trans sets)
      exact Direction.noLater_refl direction _
    · exact after limit ((others j other limit there sets).2 late)
  · -- A guard at an earlier place would be farther off, not equal.
    intro j guarded
    obtain ⟨other, limit, there, sets, same⟩ := placed j _ guarded
    by_contra early
    have nearer := before limit ((others j other limit there sets).1 (Nat.lt_of_not_le early))
    rw [same, Direction.nearer_eq_false_iff.mpr (Direction.noLater_refl direction _)] at nearer
    cases nearer

theorem IsFirst.unique {limit other : Limit} {i j : Nat}
    (one : IsFirst a nodes direction.barriers direction.NoLater limit i)
    (two : IsFirst a nodes direction.barriers direction.NoLater other j) : limit = other := by
  have value : limit.value = other.value :=
    Direction.noLater_antisymm (one.extreme j _ two.guard) (two.extreme i _ one.guard)
  have place : i = j :=
    Nat.le_antisymm (one.first j (value ▸ two.guard)) (two.first i (value ▸ one.guard))
  subst place
  obtain ⟨v, n, p⟩ := limit
  obtain ⟨v', n', p'⟩ := other
  obtain rfl : v = v' := value
  obtain rfl : n = n' := Option.some.inj (one.node.symm.trans two.node)
  obtain rfl : p = p' := Option.some.inj (one.preceding.symm.trans two.preceding)
  rfl

/-! ### One side of a loop -/

theorem moves_sideOf_iff (a : Automaton) (direction : Direction) (nodes : List String) :
    (sideOf a nodes direction).moves = true ↔
      ∃ i data, StepAt a nodes i data ∧ direction.follows data.delta = true := by
  rw [sideOf, List.any_eq_true]
  constructor
  · rintro ⟨data, listed, follows⟩
    obtain ⟨i, step⟩ := mem_steps_iff.mp listed
    exact ⟨i, data, step, follows⟩
  · rintro ⟨i, data, step, follows⟩
    exact ⟨data, mem_steps_iff.mpr ⟨i, step⟩, follows⟩

theorem limit?_sideOf_eq_none_iff : (sideOf a nodes direction).limit? = none ↔
    ∀ node ∈ nodes, ∀ guard, a.condition? node = some guard → guard.op ∉ direction.barriers := by
  constructor
  · intro unlimited node member guard condition listed
    exact mem_limits_of_condition member condition (Direction.bars_iff.mpr listed)
      (limits_eq_nil_of_tightest unlimited)
  · intro free
    cases limit? : (sideOf a nodes direction).limit? with
    | none => rfl
    | some limit =>
        obtain ⟨i, isFirst⟩ := exists_isFirst limit?
        obtain ⟨node, guard, here, condition, listed, _⟩ := isFirst.guard
        exact absurd listed (free node (List.mem_of_getElem? here) guard condition)

theorem limit?_sideOf_eq_some_iff {limit : Limit} : (sideOf a nodes direction).limit? = some limit ↔
    ∃ i, IsFirst a nodes direction.barriers direction.NoLater limit i := by
  constructor
  · exact exists_isFirst
  · rintro ⟨i, isFirst⟩
    cases limit? : (sideOf a nodes direction).limit? with
    | none =>
        obtain ⟨node, guard, here, condition, listed, _⟩ := isFirst.guard
        exact absurd listed (limit?_sideOf_eq_none_iff.mp limit? node (List.mem_of_getElem? here)
          guard condition)
    | some other =>
        obtain ⟨j, found⟩ := exists_isFirst limit?
        rw [found.unique isFirst]

theorem overflows_eq_false_iff : overflows a nodes = false ↔
    ∀ i data, StepAt a nodes i data → data.operation? ≠ some ⟨.sub, .least⟩ := by
  rw [overflows, List.any_eq_false]
  constructor
  · intro fits i data step least
    exact fits data (mem_steps_iff.mpr ⟨i, step⟩) (by rw [EdgeData.overflows, least]; rfl)
  · intro fits data listed past
    obtain ⟨i, step⟩ := mem_steps_iff.mp listed
    rw [EdgeData.overflows, Option.any_eq_true] at past
    obtain ⟨⟨op, constant⟩, found, least⟩ := past
    simp only [Instr.overflows, Bool.and_eq_true, decide_eq_true_eq] at least
    exact fits i data step (by rw [found, least.1, least.2])

/-! ### Both sides -/

/-- A loop tells how the counter moves along its nodes, and what stands against that. -/
structure Classifies (l : Loop) (a : Automaton) : Prop where
  rises : l.rising.moves = true ↔ ∃ i data, StepAt a l.nodes i data ∧ 0 < data.delta
  falls : l.falling.moves = true ↔ ∃ i data, StepAt a l.nodes i data ∧ data.delta < 0
  unlimitedAbove : l.rising.limit? = none ↔ ∀ node ∈ l.nodes, ∀ guard,
    a.condition? node = some guard → guard.op ∉ [.atMost, .equal]
  unlimitedBelow : l.falling.limit? = none ↔ ∀ node ∈ l.nodes, ∀ guard,
    a.condition? node = some guard → guard.op ∉ [.atLeast, .equal]
  limitAbove : ∀ limit, l.rising.limit? = some limit ↔
    ∃ i, IsFirst a l.nodes [.atMost, .equal] (· ≤ ·) limit i
  limitBelow : ∀ limit, l.falling.limit? = some limit ↔
    ∃ i, IsFirst a l.nodes [.atLeast, .equal] (· ≥ ·) limit i
  unmarked : l.unmarked = l

theorem checked_eq_ok
    (fits : ∀ i data, StepAt a nodes i data → data.operation? ≠ some ⟨.sub, .least⟩) :
    checked a nodes = .ok (ofNodes a nodes) :=
  if_neg (by simp [overflows_eq_false_iff.mpr fits])

/-- Every list of nodes is classified, as long as none of the edges along it takes off the least
counter value. -/
theorem checked_classifies
    (fits : ∀ i data, StepAt a nodes i data → data.operation? ≠ some ⟨.sub, .least⟩) :
    ∃ l, checked a nodes = .ok l ∧ l.nodes = nodes ∧ l.Classifies a := by
  have rises := moves_sideOf_iff a .up nodes
  have falls := moves_sideOf_iff a .down nodes
  simp only [Direction.follows, Direction.nearer, decide_eq_true_eq] at rises falls
  exact ⟨ofNodes a nodes, checked_eq_ok fits, rfl, rises, falls, limit?_sideOf_eq_none_iff,
    limit?_sideOf_eq_none_iff, fun _ => limit?_sideOf_eq_some_iff,
    fun _ => limit?_sideOf_eq_some_iff, rfl⟩

/-- A node that is listed twice, and a name that is no node. -/
theorem climb_list_classified :
    (∀ i data, StepAt .climb ["loop", "loop", "exit", "ghost"] i data →
      data.operation? ≠ some ⟨.sub, .least⟩) ∧
    ∃ l, checked .climb ["loop", "loop", "exit", "ghost"] = .ok l ∧ l.Classifies .climb ∧
      l.rising = ⟨true, some ⟨.clamp 10, "loop", "ghost"⟩, false⟩ ∧
      l.falling = ⟨false, some ⟨.clamp 10, "exit", "loop"⟩, false⟩ := by
  have fits := overflows_eq_false_iff.mp
    (Automaton.climb_fits.loop ["loop", "loop", "exit", "ghost"])
  obtain ⟨l, read, _, classifies⟩ := checked_classifies fits
  obtain rfl := Except.ok.inj ((checked_eq_ok fits).symm.trans read)
  exact ⟨fits, _, read, classifies, by decide +kernel, by decide +kernel⟩

end Loop

end OneCounter
