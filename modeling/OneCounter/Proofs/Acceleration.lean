import OneCounter.Proofs.Propagation

/-!
Acceleration: the outermost end of an entry jumps to the limit of a loop. Main statements: the
limit of a loop lies beyond every value that its node admits, and nothing between the two is
refused there, so that a jump loses no value and leaves the entries valid.
-/

namespace OneCounter

/-- The first value is met no later than the second on the way. -/
def Direction.Before : Direction → ExtRat → ExtRat → Prop
  | up, u, v => u ≤ v
  | down, u, v => v ≤ u

theorem Direction.before_refl (direction : Direction) (v : ExtRat) : direction.Before v v := by
  cases direction with
  | up => exact le_refl v
  | down => exact le_refl v

/-! ### Stretching a region -/

namespace Interval

theorem mem_setHigh_of_mem {i : Interval} {limit : Bound} {closed : Bool} {v : ExtRat}
    (member : v ∈ i) (below : v ≤ limit.val) (ends : v = limit.val → closed = true) :
    v ∈ i.setHigh limit closed := by
  refine ⟨member.1, ?_⟩
  rcases below.lt_or_eq with less | same
  · exact Or.inl less
  · exact Or.inr ⟨same, ends same⟩

theorem mem_setLow_of_mem {i : Interval} {limit : Bound} {closed : Bool} {v : ExtRat}
    (member : v ∈ i) (above : limit.val ≤ v) (ends : v = limit.val → closed = true) :
    v ∈ i.setLow limit closed := by
  refine ⟨?_, member.2⟩
  rcases above.lt_or_eq with less | same
  · exact Or.inl less
  · exact Or.inr ⟨same, ends same.symm⟩

/-- Whatever a raised upper end adds lies above a value that was there. -/
theorem exists_le_of_mem_setHigh {i : Interval} {limit : Bound} {closed : Bool} {v : ExtRat}
    (inhabited : i.isEmpty = false) (member : v ∈ i.setHigh limit closed) :
    ∃ u ∈ i, u ≤ v ∧ v ≤ limit.val ∧ (v = limit.val → closed = true) := by
  have above : i.AboveLow v := member.1
  have below : v < limit.val ∨ (v = limit.val ∧ closed = true) := member.2
  have ends : v ≤ limit.val ∧ (v = limit.val → closed = true) := by
    rcases below with less | ⟨same, isClosed⟩
    · exact ⟨less.le, fun same => absurd same less.ne⟩
    · exact ⟨same.le, fun _ => isClosed⟩
  by_cases inside : i.BelowHigh v
  · exact ⟨v, ⟨above, inside⟩, le_refl v, ends⟩
  · obtain ⟨u, there⟩ := exists_mem inhabited
    have beyond : i.high.val ≤ v := by
      by_contra less
      exact inside (Or.inl (not_le.mp less))
    exact ⟨u, there, (le_high_of_mem there).trans beyond, ends⟩

/-- Whatever a lowered lower end adds lies below a value that was there. -/
theorem exists_ge_of_mem_setLow {i : Interval} {limit : Bound} {closed : Bool} {v : ExtRat}
    (inhabited : i.isEmpty = false) (member : v ∈ i.setLow limit closed) :
    ∃ u ∈ i, v ≤ u ∧ limit.val ≤ v ∧ (v = limit.val → closed = true) := by
  have below : i.BelowHigh v := member.2
  have above : limit.val < v ∨ (limit.val = v ∧ closed = true) := member.1
  have ends : limit.val ≤ v ∧ (v = limit.val → closed = true) := by
    rcases above with less | ⟨same, isClosed⟩
    · exact ⟨less.le, fun same => absurd same less.ne'⟩
    · exact ⟨same.le, fun _ => isClosed⟩
  by_cases inside : i.AboveLow v
  · exact ⟨v, ⟨inside, below⟩, le_refl v, ends⟩
  · obtain ⟨u, there⟩ := exists_mem inhabited
    have beyond : v ≤ i.low.val := by
      by_contra less
      exact inside (Or.inl (not_le.mp less))
    exact ⟨u, there, beyond.trans (low_le_of_mem there), ends⟩

end Interval

namespace Region

theorem setLastHigh_append (high : Bound) (closed : Bool) (front : List Interval)
    (last : Interval) :
    setLastHigh high closed (front ++ [last]) = front ++ [last.setHigh high closed] := by
  induction front with
  | nil => rfl
  | cons first rest ih =>
      cases rest with
      | nil => rfl
      | cons second others =>
          change first :: setLastHigh high closed (second :: others ++ [last]) = _
          rw [ih]
          rfl

/-- The outcome of a stretch: still in normal form, with all the values from before, and with
others only between those and the limit. -/
structure Stretched (direction : Direction) (limit : Bound) (closed : Bool)
    (before after : Region) : Prop where
  normal : after.Normal
  keeps : ∀ v ∈ before, v ∈ after
  between : ∀ v ∈ after, ∃ u ∈ before, direction.Before u v ∧ direction.Before v limit.val ∧
    (v = limit.val → closed = true)

/-- Widening one piece in a direction, provided that it stays apart from the others. -/
theorem Normal.widen {direction : Direction} {limit : Bound} {closed : Bool}
    (front : List Interval) {back : List Interval} {piece wider : Interval}
    (normal : Normal ⟨front ++ piece :: back⟩)
    (apart : (front ++ wider :: back).Pairwise Interval.Apart)
    (bounded : ∀ v ∈ (⟨front ++ piece :: back⟩ : Region), direction.Before v limit.val ∧
      (v = limit.val → closed = true))
    (keeps : ∀ v ∈ piece, v ∈ wider)
    (reaches : ∀ v ∈ wider, ∃ u ∈ piece, direction.Before u v ∧ direction.Before v limit.val ∧
      (v = limit.val → closed = true)) :
    Stretched direction limit closed ⟨front ++ piece :: back⟩ ⟨front ++ wider :: back⟩ := by
  have pieces : ∀ {i k : Interval}, k ∈ front ++ i :: back ↔ k = i ∨ k ∈ front ++ back := by
    intro i k
    rw [List.mem_append, List.mem_cons, List.mem_append, or_left_comm]
  have own : piece ∈ front ++ piece :: back := pieces.mpr (Or.inl rfl)
  refine ⟨⟨?_, apart⟩, ?_, ?_⟩
  · intro i present
    rcases pieces.mp present with same | other
    · obtain ⟨v, member⟩ := Interval.exists_mem (normal.inhabited piece own)
      exact same ▸ Interval.isEmpty_eq_false_of_mem (keeps v member)
    · exact normal.inhabited i (pieces.mpr (Or.inr other))
  · rintro v ⟨i, present, member⟩
    rcases pieces.mp present with same | other
    · exact ⟨wider, pieces.mpr (Or.inl rfl), keeps v (same ▸ member)⟩
    · exact ⟨i, pieces.mpr (Or.inr other), member⟩
  · rintro v ⟨i, present, member⟩
    rcases pieces.mp present with same | other
    · obtain ⟨u, there, facts⟩ := reaches v (same ▸ member)
      exact ⟨u, ⟨piece, own, there⟩, facts⟩
    · have there : v ∈ (⟨front ++ piece :: back⟩ : Region) :=
        ⟨i, pieces.mpr (Or.inr other), member⟩
      exact ⟨v, there, direction.before_refl v, bounded v there⟩

variable {r : Region} {limit : Bound} {closed : Bool}

theorem Stretched.of_empty {direction : Direction} :
    Stretched direction limit closed empty empty :=
  ⟨normal_empty, fun _ member => member, fun v member => absurd member (not_mem_empty v)⟩

theorem Normal.setSup (normal : r.Normal) (below : ∀ v ∈ r, v ≤ limit.val)
    (ends : limit.val ∈ r → closed = true) :
    Stretched .up limit closed r (r.setSup limit closed) := by
  obtain ⟨pieces⟩ := r
  have bounded : ∀ v ∈ (⟨pieces⟩ : Region), v ≤ limit.val ∧ (v = limit.val → closed = true) :=
    fun v member => ⟨below v member, fun same => ends (same ▸ member)⟩
  rcases List.eq_nil_or_concat pieces with rfl | ⟨front, last, rfl⟩
  · exact Stretched.of_empty
  · rw [List.concat_eq_append] at *
    have result : (⟨front ++ [last]⟩ : Region).setSup limit closed =
        ⟨front ++ [last.setHigh limit closed]⟩ := by
      rw [Region.setSup, setLastHigh_append]
    have lastPiece : last ∈ front ++ [last] := by simp
    rw [result]
    refine normal.widen front ?_ bounded ?_ ?_
    · -- Only where the last piece ends has changed, and nothing comes after it.
      have apart := List.pairwise_append.mp normal.apart
      refine List.pairwise_append.mpr ⟨apart.1, List.pairwise_singleton _ _, ?_⟩
      intro i early j same
      obtain rfl := List.mem_singleton.mp same
      exact apart.2.2 i early last (List.mem_singleton.mpr rfl)
    · intro v member
      obtain ⟨before, closes⟩ := bounded v ⟨last, lastPiece, member⟩
      exact Interval.mem_setHigh_of_mem member before closes
    · intro v member
      exact Interval.exists_le_of_mem_setHigh (normal.inhabited last lastPiece) member

theorem Normal.setInf (normal : r.Normal) (above : ∀ v ∈ r, limit.val ≤ v)
    (ends : limit.val ∈ r → closed = true) :
    Stretched .down limit closed r (r.setInf limit closed) := by
  obtain ⟨pieces⟩ := r
  have bounded : ∀ v ∈ (⟨pieces⟩ : Region), limit.val ≤ v ∧ (v = limit.val → closed = true) :=
    fun v member => ⟨above v member, fun same => ends (same ▸ member)⟩
  cases pieces with
  | nil => exact Stretched.of_empty
  | cons first rest =>
      have parts := List.pairwise_cons.mp normal.apart
      have apart : (first.setLow limit closed :: rest).Pairwise Interval.Apart :=
        List.pairwise_cons.mpr parts
      refine Normal.widen [] normal apart bounded ?_ ?_
      · intro v member
        obtain ⟨after, closes⟩ := bounded v ⟨first, List.mem_cons_self, member⟩
        exact Interval.mem_setLow_of_mem member after closes
      · intro v member
        exact Interval.exists_ge_of_mem_setLow (normal.inhabited first List.mem_cons_self) member

theorem Normal.stretch (normal : r.Normal) {direction : Direction}
    (bounded : ∀ v ∈ r, direction.Before v limit.val) (ends : limit.val ∈ r → closed = true) :
    Stretched direction limit closed r (r.stretch direction limit closed) := by
  cases direction with
  | up => exact normal.setSup bounded ends
  | down => exact normal.setInf bounded ends

end Region

/-! ### The limit of a loop -/

namespace Loop

variable {a : Automaton} {direction : Direction} {nodes : List String}

/-- The nearer of the best limit so far and another one. -/
def nearest (direction : Direction) (best? : Option Limit) (limit : Limit) : Option Limit :=
  match best? with
  | none => some limit
  | some best => if direction.nearer limit.value best.value then some limit else some best

theorem tightest_eq_foldl (direction : Direction) (limits : List Limit) :
    tightest direction limits = limits.foldl (nearest direction) none := rfl

theorem mem_of_foldl_nearest {limits : List Limit} {best? : Option Limit} {best : Limit}
    (found : limits.foldl (nearest direction) best? = some best) :
    best? = some best ∨ best ∈ limits := by
  induction limits generalizing best? with
  | nil => exact Or.inl found
  | cons limit rest ih =>
      rcases ih found with now | later
      · unfold nearest at now
        split at now
        · injection now with now
          exact Or.inr (by simp [now])
        · split at now
          · injection now with now
            exact Or.inr (by simp [now])
          · exact Or.inl now
      · exact Or.inr (List.mem_cons_of_mem limit later)

theorem mem_of_tightest {limits : List Limit} {best : Limit}
    (found : tightest direction limits = some best) : best ∈ limits := by
  rw [tightest_eq_foldl] at found
  rcases mem_of_foldl_nearest found with nothing | member
  · simp at nothing
  · exact member

theorem foldl_nearest_ne_none (limits : List Limit) (best : Limit) :
    limits.foldl (nearest direction) (some best) ≠ none := by
  induction limits generalizing best with
  | nil => simp
  | cons limit rest ih =>
      rw [List.foldl_cons, nearest]
      split
      · exact ih limit
      · exact ih best

theorem limits_eq_nil_of_tightest {limits : List Limit}
    (nothing : tightest direction limits = none) : limits = [] := by
  cases limits with
  | nil => rfl
  | cons limit rest => exact absurd nothing (foldl_nearest_ne_none rest limit)

/-- The predecessors are the same nodes moved by one place, the last one to the front. -/
theorem predecessors_eq_zip (nodes : List String) :
    predecessors nodes = (nodes.rotate (nodes.length - 1)).zip nodes := by
  rcases List.eq_nil_or_concat nodes with rfl | ⟨front, last, rfl⟩
  · rfl
  · have turned : (front ++ [last]).rotate front.length = [last] ++ front :=
      List.rotate_append_length_eq front [last]
    simp [predecessors, turned]

theorem getElem?_predecessors {i : Nat} {pair : String × String} :
    (predecessors nodes)[i]? = some pair ↔
      nodes[(i + nodes.length - 1) % nodes.length]? = some pair.1 ∧ nodes[i]? = some pair.2 := by
  rw [predecessors_eq_zip, List.getElem?_zip_eq_some]
  by_cases inside : i < nodes.length
  · have around : i + (nodes.length - 1) = i + nodes.length - 1 := by omega
    rw [List.getElem?_rotate inside, around]
  · have missing : nodes[i]? = none := List.getElem?_eq_none (Nat.le_of_not_lt inside)
    simp [missing]

theorem exists_predecessor {i : Nat} {node : String} (here : nodes[i]? = some node) :
    ∃ preceding, (predecessors nodes)[i]? = some (preceding, node) := by
  obtain ⟨inside, _⟩ := List.getElem?_eq_some_iff.mp here
  have bound : (i + nodes.length - 1) % nodes.length < nodes.length := Nat.mod_lt _ (by omega)
  exact ⟨_, getElem?_predecessors.mpr ⟨List.getElem?_eq_getElem bound, here⟩⟩

theorem mem_predecessors {node : String} (member : node ∈ nodes) :
    ∃ preceding, (preceding, node) ∈ predecessors nodes := by
  obtain ⟨i, here⟩ := List.mem_iff_getElem?.mp member
  obtain ⟨preceding, entered⟩ := exists_predecessor here
  exact ⟨preceding, List.mem_of_getElem? entered⟩

theorem mem_limits_of_condition {node : String} {guard : Instr} (member : node ∈ nodes)
    (condition : a.condition? node = some guard) (bars : guard.op.bars direction = true) :
    limits a direction nodes ≠ [] := by
  obtain ⟨preceding, pair⟩ := mem_predecessors member
  have present : (⟨guard.constant, node, preceding⟩ : Limit) ∈ limits a direction nodes := by
    rw [limits, List.mem_filterMap]
    exact ⟨(preceding, node), pair, by simp [condition, bars]⟩
  exact List.ne_nil_of_mem present

theorem condition_of_mem_limits {limit : Limit} (member : limit ∈ limits a direction nodes) :
    ∃ guard, a.condition? limit.node = some guard ∧ guard.op.bars direction = true ∧
      guard.constant = limit.value := by
  rw [limits, List.mem_filterMap] at member
  obtain ⟨pair, _, found⟩ := member
  cases condition : a.condition? pair.2 with
  | none => simp [condition] at found
  | some guard =>
      simp only [condition] at found
      split at found
      · next bars =>
          injection found with found
          subst found
          exact ⟨guard, condition, bars, rfl⟩
      · simp at found

end Loop

/-- A limit that suits its node: either a guard of the node sets it, and it belongs to what the
guard accepts, or no guard of the node bars the way and it is infinite. -/
inductive Target.Suits (a : Automaton) (direction : Direction) (target : Target) : Prop where
  | guarded (guard : Instr) (condition : a.condition? target.node = some guard)
      (bars : guard.op.bars direction = true) (limit : target.limit = .finite guard.constant)
      (closed : target.closed = true)
  | unguarded (free : ∀ guard, a.condition? target.node = some guard →
        guard.op.bars direction = false)
      (limit : target.limit = direction.infinity) (closed : target.closed = false)

theorem Loop.side_ofNodes (a : Automaton) (nodes : List String) (direction : Direction) :
    (Loop.ofNodes a nodes).side direction = Loop.sideOf a nodes direction := by
  cases direction <;> rfl

theorem Loop.suits_of_target? {a : Automaton} {nodes : List String} {direction : Direction}
    {target : Target} (found : (Loop.ofNodes a nodes).target? direction = some target) :
    target.Suits a direction := by
  rw [target?, side_ofNodes] at found
  cases limit? : (sideOf a nodes direction).limit? with
  | some limit =>
      rw [limit?] at found
      injection found with found
      subst found
      obtain ⟨guard, condition, bars, constant⟩ := condition_of_mem_limits (mem_of_tightest limit?)
      exact .guarded guard condition bars (by rw [constant]) rfl
  | none =>
      rw [limit?] at found
      -- Without a limit no node of the loop has a guard that bars the way.
      have free : ∀ node ∈ nodes, ∀ guard, a.condition? node = some guard →
          guard.op.bars direction = false := by
        intro node member guard condition
        by_contra bars
        rw [Bool.not_eq_false] at bars
        exact mem_limits_of_condition member condition bars (limits_eq_nil_of_tightest limit?)
      cases nodes with
      | nil => cases found
      | cons first rest =>
          cases rest with
          | nil =>
              obtain rfl : ⟨first, first, direction.infinity, false⟩ = target :=
                Option.some.inj found
              exact .unguarded (free first (by simp)) rfl rfl
          | cons second later =>
              obtain rfl : ⟨second, first, direction.infinity, false⟩ = target :=
                Option.some.inj found
              exact .unguarded (free second (by simp)) rfl rfl

namespace Target

variable {a : Automaton} {direction : Direction} {target : Target}

/-- No value that the node admits lies beyond the limit. -/
theorem Suits.before_limit (suits : target.Suits a direction) {v : ExtRat}
    (admits : a.Admits target.node v) : direction.Before v target.limit.val := by
  cases suits with
  | guarded guard condition bars limit closed =>
      have accepts := admits.accepts guard condition
      rw [limit]
      obtain ⟨op, constant⟩ := guard
      cases direction with
      | up =>
          cases op with
          | atMost => exact accepts
          | equal => exact le_of_eq accepts
          | atLeast => simp [Operator.bars] at bars
          | add => simp [Operator.bars] at bars
          | sub => simp [Operator.bars] at bars
      | down =>
          cases op with
          | atLeast => exact accepts
          | equal => exact ge_of_eq accepts
          | atMost => simp [Operator.bars] at bars
          | add => simp [Operator.bars] at bars
          | sub => simp [Operator.bars] at bars
  | unguarded free limit closed =>
      rw [limit]
      cases direction with
      | up => exact le_top
      | down => exact bot_le

/-- The guard of the node accepts everything between a value that it accepts and the limit. -/
theorem Suits.accepts_between (suits : target.Suits a direction) {u v : ExtRat}
    (admits : a.Admits target.node u) (after : direction.Before u v)
    (before : direction.Before v target.limit.val) (guard : Instr)
    (condition : a.condition? target.node = some guard) : guard.Accepts v := by
  have accepts := admits.accepts guard condition
  cases suits with
  | guarded other found bars limit closed =>
      rw [condition] at found
      injection found with found
      subst found
      rw [limit] at before
      -- The guard that bars the way is kept by stopping at its constant.
      obtain ⟨op, constant⟩ := guard
      cases direction with
      | up =>
          cases op with
          | atMost => exact before
          | equal => exact le_antisymm before ((ge_of_eq accepts).trans after)
          | atLeast => exact le_trans accepts after
          | add => trivial
          | sub => trivial
      | down =>
          cases op with
          | atLeast => exact before
          | equal => exact le_antisymm (le_trans after (le_of_eq accepts)) before
          | atMost => exact le_trans after accepts
          | add => trivial
          | sub => trivial
  | unguarded free limit closed =>
      -- A guard that bars only the other way stays satisfied by going on.
      have open_ := free guard condition
      obtain ⟨op, constant⟩ := guard
      cases direction with
      | up =>
          cases op with
          | atLeast => exact le_trans accepts after
          | atMost => simp [Operator.bars] at open_
          | equal => simp [Operator.bars] at open_
          | add => trivial
          | sub => trivial
      | down =>
          cases op with
          | atMost => exact le_trans after accepts
          | atLeast => simp [Operator.bars] at open_
          | equal => simp [Operator.bars] at open_
          | add => trivial
          | sub => trivial

/-- A limit that belongs to the stretched entry is a rational number. -/
theorem Suits.finite_of_closed (suits : target.Suits a direction) (closed : target.closed = true) :
    ∃ x : ℚ, target.limit.val = x := by
  cases suits with
  | guarded guard condition bars limit _ => exact ⟨guard.constant.toInt, by rw [limit]; rfl⟩
  | unguarded free limit isOpen => simp [isOpen] at closed

/-- An open limit is infinite. -/
theorem Suits.infinite_of_open (suits : target.Suits a direction) (x : ℚ)
    (same : target.limit.val = x) : target.closed = true := by
  cases suits with
  | guarded guard condition bars limit closed => exact closed
  | unguarded free limit closed =>
      rw [limit] at same
      cases direction with
      | up => exact absurd same.symm (WithBotTop.coe_ne_top x)
      | down => exact absurd same.symm (WithBotTop.coe_ne_bot x)

/-- Between a rational number and the limit there are only rational ones: an infinite limit is
open. -/
theorem Suits.rational_of_between (suits : target.Suits a direction) {y : ℚ} {v : ExtRat}
    (after : direction.Before y v) (before : direction.Before v target.limit.val)
    (ends : v = target.limit.val → target.closed = true) : ∃ x : ℚ, v = x := by
  cases direction with
  | up =>
      induction v using WithBotTop.rec with
      | coe x => exact ⟨x, rfl⟩
      | bot => exact absurd (le_bot_iff.mp after) (WithBotTop.coe_ne_bot y)
      | top =>
          have same := (top_le_iff.mp before).symm
          rw [same]
          exact suits.finite_of_closed (ends same)
  | down =>
      induction v using WithBotTop.rec with
      | coe x => exact ⟨x, rfl⟩
      | top => exact absurd (top_le_iff.mp after) (WithBotTop.coe_ne_top y)
      | bot =>
          have same := (le_bot_iff.mp before).symm
          rw [same]
          exact suits.finite_of_closed (ends same)

end Target

/-! ### Jumps -/

theorem Jump.values?_apply {reach : Reach} {jump : Jump} (present : jump.node ∈ reach.keys)
    (node origin : String) :
    (jump.apply reach).values? node origin =
      if node = jump.node ∧ origin = jump.origin then some jump.values
      else reach.values? node origin := by
  rw [Table.mem_keys_iff, Option.isSome_iff_exists] at present
  obtain ⟨arrivals, found⟩ := present
  rw [Reach.values?, apply, Table.get?_modify, Reach.values?]
  by_cases here : node = jump.node
  · subst here
    by_cases same : origin = jump.origin <;> simp [found, Table.get?_insert, same]
  · simp [here]

theorem Jump.keys_apply (reach : Reach) (jump : Jump) : (jump.apply reach).keys = reach.keys :=
  Table.keys_modify reach jump.node _

namespace Solver

variable {s : Solver} {reach : Reach} {tracker : Tracker} {direction : Direction} {jump : Jump}

/-- Everything that makes a loop jump, and where it jumps to. -/
theorem jump?_eq_some (found : s.jump? reach tracker direction = some jump) :
    ∃ target values, tracker.loop.target? direction = some target ∧
      reach.values? target.node target.origin = some values ∧ values.isEmpty = false ∧
      (tracker.gauge direction).grown = true ∧ (tracker.loop.side direction).moves = true ∧
      jump = ⟨tracker.loop, direction, target.node, target.origin,
        (values.stretch direction target.limit target.closed).restrict s.automaton.lower
          s.automaton.upper none⟩ := by
  simp only [jump?, guard, Bool.and_eq_true, Option.pure_def, Option.failure_eq_none,
    Bool.not_eq_eq_eq_not, Bool.not_true, Option.bind_eq_bind, Option.bind_eq_some_iff,
    ite_eq_left_iff, not_and, Bool.not_eq_true, reduceCtorEq, imp_false, Classical.not_imp,
    Bool.not_eq_false, Option.some.injEq, exists_const] at found
  obtain ⟨⟨grown, moves⟩, target, aims, values, present, inhabited, equal⟩ := found
  exact ⟨target, values, aims, present, inhabited, grown, moves, equal.symm⟩

variable {initial : String}

/-- A jump replaces one entry by a larger one that is still valid. -/
theorem jump_spec {nodes : List String} (read : tracker.loop = Loop.ofNodes s.automaton nodes)
    (valid : reach.Valid s.automaton initial)
    (found : s.jump? reach tracker direction = some jump) :
    ∃ values, reach.values? jump.node jump.origin = some values ∧ jump.values.Normal ∧
      (∀ v ∈ values, v ∈ jump.values) ∧
      ∀ v ∈ jump.values, ∃ x : ℚ, v = x ∧ s.automaton.Admits jump.node x := by
  obtain ⟨target, values, aims, present, inhabited, _, _, rfl⟩ := jump?_eq_some found
  rw [read] at aims
  have suits := Loop.suits_of_target? aims
  have ordered := valid.ordered present inhabited
  have finite := valid.finite present
  have stretched : Region.Stretched direction target.limit target.closed values
      (values.stretch direction target.limit target.closed) := by
    apply (valid.normal _ _ _ present).stretch
    · intro v member
      exact suits.before_limit (valid.admits_of_mem present member)
    · -- The entry holds rational values only, so a limit among them is not an infinity.
      intro member
      obtain ⟨x, same⟩ := finite _ member
      exact suits.infinite_of_open x same
  refine ⟨values, present, stretched.normal.restrict ordered none, ?_, ?_⟩
  · intro v member
    have admits := valid.admits_of_mem present member
    rw [Region.mem_restrict_iff _ ordered]
    exact ⟨stretched.keeps v member, admits.lower_le, admits.le_upper, by simp⟩
  · intro v member
    obtain ⟨grown, inside⟩ := (Region.mem_restrict_iff _ ordered none v).mp member
    obtain ⟨u, there, after, before, ends⟩ := stretched.between v grown
    have admits := valid.admits_of_mem present there
    obtain ⟨y, rfl⟩ := finite u there
    obtain ⟨x, rfl⟩ := suits.rational_of_between after before ends
    exact ⟨x, rfl, inside.lower_le, inside.le_upper,
      suits.accepts_between admits after before⟩

theorem jump_valid {nodes : List String} (read : tracker.loop = Loop.ofNodes s.automaton nodes)
    (valid : reach.Valid s.automaton initial)
    (found : s.jump? reach tracker direction = some jump) :
    (jump.apply reach).Valid s.automaton initial ∧ reach.Within (jump.apply reach) := by
  obtain ⟨known, present, normal, keeps, admits⟩ := jump_spec read valid found
  have changes : ∀ node origin values, (jump.apply reach).values? node origin = some values →
      (node = jump.node ∧ origin = jump.origin ∧ values = jump.values) ∨
        reach.values? node origin = some values := by
    intro node origin values stored
    rw [Jump.values?_apply (Reach.mem_keys_of_values? present)] at stored
    split at stored
    · next here =>
        injection stored with stored
        exact Or.inl ⟨here.1, here.2, stored.symm⟩
    · exact Or.inr stored
  refine ⟨⟨(Jump.keys_apply reach jump).trans valid.keys, ?_, ?_, ?_⟩, ?_⟩
  · intro node origin values stored
    rcases changes node origin values stored with ⟨rfl, rfl, _⟩ | same
    · exact valid.origin _ _ known present
    · exact valid.origin node origin values same
  · intro node origin values stored
    rcases changes node origin values stored with ⟨_, _, rfl⟩ | same
    · exact normal
    · exact valid.normal node origin values same
  · intro node origin values stored
    rcases changes node origin values stored with ⟨rfl, _, rfl⟩ | same
    · exact admits
    · exact valid.admits node origin values same
  · intro node origin values stored
    rw [Jump.values?_apply (Reach.mem_keys_of_values? present)]
    split
    · next here =>
        obtain ⟨rfl, rfl⟩ := here
        rw [present] at stored
        injection stored with stored
        exact ⟨jump.values, rfl, stored ▸ keeps⟩
    · exact ⟨values, stored, fun _ member => member⟩

/-- Every tracker follows a loop that was read off the automaton as it is. -/
def LoopsRead (s : Solver) : Prop :=
  ∀ tracker ∈ s.trackers, ∃ nodes, tracker.loop = Loop.ofNodes s.automaton nodes

theorem mem_due_iff (s : Solver) (tracker : Tracker) (direction : Direction) :
    (tracker, direction) ∈ s.due ↔
      tracker ∈ s.trackers ∧ s.threshold ≤ (tracker.gauge direction).streak := by
  simp only [Solver.due, List.mem_flatMap, List.mem_map, List.mem_filter, Prod.mk.injEq,
    decide_eq_true_eq]
  constructor
  · rintro ⟨other, member, way, ⟨_, long⟩, rfl, rfl⟩
    exact ⟨member, long⟩
  · rintro ⟨member, long⟩
    exact ⟨tracker, member, direction, ⟨by cases direction <;> simp, long⟩, rfl, rfl⟩

/-- The jumps of any loops of the automaton, one after the other. -/
theorem jumps_valid (loops : s.LoopsRead) {due : List (Tracker × Direction)}
    (tracked : ∀ pair ∈ due, pair.1 ∈ s.trackers) (valid : reach.Valid s.automaton initial) :
    ((s.jumps reach due).foldl Jump.apply reach).Valid s.automaton initial ∧
      reach.Within ((s.jumps reach due).foldl Jump.apply reach) := by
  induction due generalizing reach with
  | nil => exact ⟨valid, Reach.Within.refl reach⟩
  | cons pair rest ih =>
      obtain ⟨tracker, direction⟩ := pair
      have later : ∀ pair ∈ rest, pair.1 ∈ s.trackers := fun pair member =>
        tracked pair (List.mem_cons_of_mem _ member)
      simp only [jumps]
      split
      · exact ih later valid
      · next jump found =>
          -- A later jump starts from what this one has left, which is valid again.
          obtain ⟨nodes, read⟩ := loops tracker (tracked (tracker, direction) List.mem_cons_self)
          obtain ⟨stillValid, grows⟩ := jump_valid read valid found
          obtain ⟨finalValid, growsOn⟩ := ih later stillValid
          exact ⟨finalValid, grows.trans growsOn⟩

theorem accelerate_valid (loops : s.LoopsRead) (valid : reach.Valid s.automaton initial) :
    (s.accelerate reach).Valid s.automaton initial ∧ reach.Within (s.accelerate reach) :=
  jumps_valid loops (fun turn due => ((mem_due_iff s turn.1 turn.2).mp due).1) valid

end Solver

end OneCounter
