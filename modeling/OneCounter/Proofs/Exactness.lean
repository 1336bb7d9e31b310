import OneCounter.Proofs.Soundness

/-!
Exactness of the first rounds. As long as no loop is due for acceleration and no end of an
interval saturates, the values held after as many rounds are those of the runs of at most that
length.
-/

namespace OneCounter

theorem Count.Adds.abs_le {delta : Count} {t : ℚ} (adds : delta.Adds t) :
    |t| ≤ delta.toInt.natAbs := by
  rw [Nat.cast_natAbs, Int.cast_abs]
  rcases adds with ⟨_, positive, below⟩ | ⟨_, above, negative⟩ | ⟨_, rfl⟩
  · rw [abs_of_pos positive]
    exact below.trans (le_abs_self _)
  · rw [abs_of_neg negative]
    exact (neg_le_neg above).trans (neg_le_abs _)
  · simp

namespace Automaton

/-- The largest change of the counter along an edge. -/
def largestDelta (a : Automaton) : Nat :=
  (a.edges.map fun edge => edge.delta.toInt.natAbs).foldr max 0

theorem natAbs_delta_le {a : Automaton} {start stop : String} {data : EdgeData}
    (edge : a.edgeData? start stop = some data) : data.delta.toInt.natAbs ≤ a.largestDelta := by
  have member : (⟨data, start, stop⟩ : Edge) ∈ a.edges := (mem_edges_iff a _).mpr edge
  exact List.le_max_of_le' 0 (List.mem_map_of_mem member) le_rfl

/-- A run cannot get further from the start than its edges take it. -/
theorem Run.near_start {a : Automaton} {allowed : ℚ → Prop} {n : Nat} {origin node : String}
    {x : ℚ} (run : a.Run allowed n origin node x) :
    |x - a.start.toInt| ≤ ((n * a.largestDelta : Nat) : ℚ) := by
  induction run with
  | start => simp
  | @step n origin node stop x t data before edge visible adds admits inside ih =>
      have largest : (data.delta.toInt.natAbs : ℚ) ≤ a.largestDelta := by
        exact_mod_cast natAbs_delta_le edge
      calc |x + t - a.start.toInt| = |(x - a.start.toInt) + t| := by ring_nf
        _ ≤ |x - a.start.toInt| + |t| := abs_add_le _ _
        _ ≤ ((n * a.largestDelta : Nat) : ℚ) + a.largestDelta :=
            add_le_add ih (adds.abs_le.trans largest)
        _ = (((n + 1) * a.largestDelta : Nat) : ℚ) := by push_cast; ring

end Automaton

/-! ### Room for the ends -/

namespace Interval

variable {i : Interval} {center : Int} {radius : Nat}

/-- The ends of an interval are no further from a point than its values. -/
theorem ends_near (inhabited : i.isEmpty = false) (finite : i.Finite)
    (near : ∀ x : ℚ, (x : ExtRat) ∈ i → |x - center| ≤ radius) {c : Count}
    (isEnd : i.low = .finite c ∨ i.high = .finite c) : |c.toInt - center| ≤ radius := by
  have between : ∀ v ∈ i, (((center - radius : Int) : ℚ) : ExtRat) ≤ v ∧
      v ≤ (((center + radius : Int) : ℚ) : ExtRat) := by
    intro v member
    obtain ⟨x, rfl⟩ := finite v member
    have close := abs_le.mp (near x member)
    push_cast
    exact ⟨WithBotTop.coe_le_coe.mpr (by linarith [close.1]),
      WithBotTop.coe_le_coe.mpr (by linarith [close.2])⟩
  obtain ⟨x, member⟩ := finite.exists_mem inhabited
  have low := low_le_of_mem member
  have high := le_high_of_mem member
  -- Values come as close to an end as one likes, so it cannot lie further out than they do.
  have lowest := le_low_of_forall_le inhabited fun v held => (between v held).1
  have highest := high_le_of_forall_le inhabited fun v held => (between v held).2
  have ends : (((center - radius : Int) : ℚ) : ExtRat) ≤ ((c.toInt : ℚ) : ExtRat) ∧
      ((c.toInt : ℚ) : ExtRat) ≤ (((center + radius : Int) : ℚ) : ExtRat) := by
    rcases isEnd with equal | equal
    · rw [equal, Bound.val_finite] at low lowest
      exact ⟨lowest, low.trans (between x member).2⟩
    · rw [equal, Bound.val_finite] at high highest
      exact ⟨(between x member).1.trans high, highest⟩
  rw [WithBotTop.coe_le_coe, WithBotTop.coe_le_coe, Int.cast_le, Int.cast_le] at ends
  rw [abs_le]
  omega

end Interval

namespace Region

theorem ends_of_ofDelta? {delta : Count} {step : Region} (steps : ofDelta? delta = some step)
    {j : Interval} (piece : j ∈ step.pieces) {c : Count}
    (isEnd : j.low = .finite c ∨ j.high = .finite c) : c.toInt.natAbs ≤ delta.toInt.natAbs := by
  unfold ofDelta? at steps
  split at steps
  · cases steps
  · split at steps
    · injection steps with steps
      subst steps
      obtain rfl := List.mem_singleton.mp piece
      rcases isEnd with equal | equal
      · obtain rfl : 0 = c := Bound.finite.inj equal
        exact Nat.zero_le _
      · obtain rfl : delta = c := Bound.finite.inj equal
        exact le_refl _
    · injection steps with steps
      subst steps
      obtain rfl := List.mem_singleton.mp piece
      rcases isEnd with equal | equal
      · obtain rfl : delta = c := Bound.finite.inj equal
        exact le_refl _
      · obtain rfl : 0 = c := Bound.finite.inj equal
        exact Nat.zero_le _

end Region

theorem Edge.roomy_of_near {edge : Edge} {values : Region} (center : Int) (radius : Nat)
    (normal : values.Normal) (finite : values.Finite)
    (near : ∀ x : ℚ, (x : ExtRat) ∈ values → |x - center| ≤ radius)
    (low : Count.least.toInt ≤ center - (radius + edge.delta.toInt.natAbs : Nat))
    (high : center + (radius + edge.delta.toInt.natAbs : Nat) ≤ Count.greatest.toInt) :
    edge.Roomy values := by
  intro step steps i first j second
  have left : ∀ c, i.low = .finite c ∨ i.high = .finite c → |c.toInt - center| ≤ radius :=
    fun c isEnd => Interval.ends_near (normal.inhabited i first) (finite.piece first)
      (fun x member => near x ⟨i, first, member⟩) isEnd
  have right : ∀ c, j.low = .finite c ∨ j.high = .finite c →
      c.toInt.natAbs ≤ edge.delta.toInt.natAbs :=
    fun c isEnd => Region.ends_of_ofDelta? steps second isEnd
  have fits : ∀ b c : Count, |b.toInt - center| ≤ radius →
      c.toInt.natAbs ≤ edge.delta.toInt.natAbs →
      Count.least.toInt ≤ b.toInt + c.toInt ∧ b.toInt + c.toInt ≤ Count.greatest.toInt := by
    intro b c close small
    rw [abs_le] at close
    omega
  constructor
  · intro b c first second
    exact fits b c (left b (Or.inl first)) (right c (Or.inl second))
  · intro b c first second
    exact fits b c (left b (Or.inr first)) (right c (Or.inr second))

/-! ### No loop is due -/

theorem Gauge.streak_advance_le (gauge : Gauge) (grows : Bool) :
    (gauge.advance grows).streak ≤ gauge.streak + 1 := by
  unfold Gauge.advance
  split
  · exact le_refl _
  · exact Nat.zero_le _

/-- A round lets each gauge of a loop go on or start again. -/
theorem Tracker.gauge_update (before after : Reach) (tracker : Tracker) (direction : Direction) :
    ∃ grows, (tracker.update before after).gauge direction =
      (tracker.gauge direction).advance grows := by
  unfold Tracker.update
  split
  · next growth _ =>
      cases direction with
      | up => exact ⟨growth.up, rfl⟩
      | down => exact ⟨growth.down, rfl⟩
  · cases direction <;> exact ⟨false, rfl⟩

namespace Solver

variable {s : Solver} {initial : String}

/-- No loop has been growing for longer than the analysis runs. -/
def Paced (s : Solver) : Prop :=
  ∀ tracker ∈ s.trackers, ∀ direction, (tracker.gauge direction).streak ≤ s.rounds

theorem streak_update_le (before after : Reach) (tracker : Tracker) (direction : Direction) :
    ((tracker.update before after).gauge direction).streak ≤
      (tracker.gauge direction).streak + 1 := by
  obtain ⟨grows, equal⟩ := tracker.gauge_update before after direction
  rw [equal]
  exact Gauge.streak_advance_le _ grows

theorem ofAutomaton_paced (a : Automaton) (initial : String) (settings : Settings) :
    (ofAutomaton a initial settings).Paced := by
  intro tracker member direction
  obtain ⟨loop, _, rfl⟩ := List.mem_map.mp member
  cases direction <;> exact le_refl _

theorem round_paced (paced : s.Paced) : s.round.Paced := by
  cases finished : s.finished with
  | true => exact (round_of_finished finished).symm ▸ paced
  | false =>
      rcases round_cases finished with ⟨_, equal⟩ | ⟨_, equal⟩
      · rw [equal]
        exact paced
      · rw [equal]
        intro tracker member direction
        obtain ⟨old, present, rfl⟩ := List.mem_map.mp member
        exact (streak_update_le _ _ old direction).trans
          (Nat.succ_le_succ (paced old present direction))

theorem rounds_round_le (s : Solver) : s.round.rounds ≤ s.rounds + 1 := by
  unfold round
  split
  · exact Nat.le_succ _
  · simp only
    split
    · exact Nat.le_succ _
    · exact le_refl _

theorem due_eq_nil (paced : s.Paced) (early : s.rounds < s.threshold) : s.due = [] := by
  rw [List.eq_nil_iff_forall_not_mem]
  rintro ⟨tracker, direction⟩ due
  obtain ⟨member, long⟩ := (mem_due_iff s tracker direction).mp due
  exact absurd (long.trans (paced tracker member direction)) (not_le.mpr early)

theorem next_eq_propagate (nothing : s.due = []) : s.next = s.propagate := by
  rw [next, accelerate, nothing]
  rfl

theorem iterate_paced (paced : s.Paced) (n : Nat) :
    (round^[n] s).Paced ∧ (round^[n] s).rounds ≤ s.rounds + n := by
  induction n with
  | zero => exact ⟨paced, le_refl _⟩
  | succ n ih =>
      rw [Function.iterate_succ_apply']
      exact ⟨round_paced ih.1, (rounds_round_le _).trans (Nat.succ_le_succ ih.2)⟩

/-! ### Values and runs -/

/-- The analysis holds the last values of the runs up to a length, and nothing else. -/
def Exact (a : Automaton) (n : Nat) (s : Solver) : Prop :=
  ∀ origin node (x : ℚ), s.live.Holds node origin x ↔
    ∃ k ≤ n, a.Run (fun _ => True) k origin node x

theorem ofAutomaton_exact {a : Automaton} (resolved : a.initial? = some initial)
    (settings : Settings) : (ofAutomaton (a.withLoops initial) initial settings).Exact a 0 := by
  intro origin node x
  change (a.firstArrivals initial).Holds node origin x ↔ _
  rw [Automaton.holds_firstArrivals_iff]
  constructor
  · rintro ⟨rfl, rfl, visible, equal, admits⟩
    obtain rfl := WithBotTop.coe_injective equal
    exact ⟨0, le_refl 0, .start resolved visible admits⟩
  · rintro ⟨k, none, run⟩
    obtain rfl := Nat.le_zero.mp none
    cases run with
    | start found visible admits =>
        obtain rfl := Option.some.inj (found.symm.trans resolved)
        exact ⟨rfl, rfl, visible, rfl, admits⟩

/-- What an edge brings when nothing saturates: values held at its start, changed by a passage. -/
theorem brings_iff {a : Automaton} {n : Nat} (valid : s.live.Valid s.automaton initial)
    (exact : s.Exact a n) {origin node : String} {data : EdgeData}
    (edge : a.edgeData? origin node = some data)
    (low : Count.least.toInt ≤ a.start.toInt - ((n + 1) * a.largestDelta : Nat))
    (high : a.start.toInt + ((n + 1) * a.largestDelta : Nat) ≤ Count.greatest.toInt) (x : ℚ) :
    Edge.Brings ⟨data, origin, node⟩ s.live x ↔
      ∃ before, ∃ y t : ℚ, s.live.Holds origin before y ∧ data.delta.Adds t ∧ x = y + t := by
  -- All values held are those of runs, which have not moved far enough for an end to saturate.
  have roomy : ∀ before values, s.live.values? origin before = some values →
      Edge.Roomy ⟨data, origin, node⟩ values := by
    intro before values found
    have small := Automaton.natAbs_delta_le edge
    rw [Nat.add_mul, Nat.one_mul] at low high
    refine Edge.roomy_of_near a.start.toInt (n * a.largestDelta) (valid.normal _ _ _ found)
      (valid.finite found) ?_ ?_ ?_
    · intro y member
      obtain ⟨k, few, run⟩ := (exact before origin y).mp ⟨values, found, member⟩
      have fewer : k * a.largestDelta ≤ n * a.largestDelta := Nat.mul_le_mul_right _ few
      exact run.near_start.trans (by exact_mod_cast fewer)
    · change _ ≤ _ - ((_ + data.delta.toInt.natAbs : Nat) : Int)
      omega
    · change _ + ((_ + data.delta.toInt.natAbs : Nat) : Int) ≤ _
      omega
  constructor
  · rintro ⟨before, values, found, _, carried⟩
    obtain ⟨y, t, member, adds, equal⟩ := (Edge.mem_carry_iff (valid.normal _ _ _ found)
      (valid.finite found) (roomy before values found) x).mp carried
    exact ⟨before, y, t, ⟨values, found, member⟩, adds, equal⟩
  · rintro ⟨before, y, t, ⟨values, found, member⟩, adds, equal⟩
    exact ⟨before, values, found, Region.isEmpty_eq_false_of_mem member,
      (Edge.mem_carry_iff (valid.normal _ _ _ found) (valid.finite found)
        (roomy before values found) x).mpr ⟨y, t, member, adds, equal⟩⟩

theorem round_exact {a : Automaton} {n : Nat} (steady : s.Steady initial)
    (same : s.automaton = a.withLoops initial) (plain : s.next = s.propagate) (exact : s.Exact a n)
    (low : Count.least.toInt ≤ a.start.toInt - ((n + 1) * a.largestDelta : Nat))
    (high : a.start.toInt + ((n + 1) * a.largestDelta : Nat) ≤ Count.greatest.toInt) :
    s.round.Exact a (n + 1) := by
  intro origin node x
  rw [live_round steady, plain,
    holds_propagate_iff steady.valid (steady.snapshot ▸ steady.valid), steady.snapshot, same,
    exact origin node x]
  constructor
  · rintro (⟨k, few, run⟩ | ⟨visible, data, edge, brought, admits⟩)
    · exact ⟨k, few.trans (Nat.le_succ n), run⟩
    · -- What an edge brings makes a run of at most `n` edges one longer.
      obtain ⟨before, y, t, held, adds, rfl⟩ :=
        (brings_iff steady.valid exact edge low high x).mp brought
      obtain ⟨k, few, run⟩ := (exact before origin y).mp held
      exact ⟨k + 1, Nat.succ_le_succ few, .step run edge visible adds admits trivial⟩
  · rintro ⟨k, few, run⟩
    cases run with
    | start resolved visible admits =>
        exact Or.inl ⟨0, Nat.zero_le n, .start resolved visible admits⟩
    | @step k before _ _ y t data run edge visible adds admits _ =>
        have held := (exact before origin y).mpr ⟨k, Nat.le_of_succ_le_succ few, run⟩
        exact Or.inr ⟨visible, data, edge,
          (brings_iff steady.valid exact edge low high _).mpr ⟨before, y, t, held, adds, rfl⟩,
          admits⟩

/-- Rounds that do nothing but propagate find the runs one edge after the other. -/
theorem iterate_exact_of_plain {a : Automaton} {settings : Settings} (current : a.LoopsCurrent)
    (resolved : a.initial? = some initial) {n : Nat}
    (plain : ∀ m < n, (round^[m] (ofAutomaton (a.withLoops initial) initial settings)).next =
      (round^[m] (ofAutomaton (a.withLoops initial) initial settings)).propagate)
    (low : Count.least.toInt ≤ a.start.toInt - (n * a.largestDelta : Nat))
    (high : a.start.toInt + (n * a.largestDelta : Nat) ≤ Count.greatest.toInt) :
    (round^[n] (ofAutomaton (a.withLoops initial) initial settings)).Exact a n := by
  induction n with
  | zero => exact ofAutomaton_exact resolved settings
  | succ n ih =>
      have smaller : n * a.largestDelta ≤ (n + 1) * a.largestDelta :=
        Nat.mul_le_mul_right _ (Nat.le_succ n)
      have before := ih (fun m less => plain m (less.trans (Nat.lt_succ_self n))) (by omega)
        (by omega)
      rw [Function.iterate_succ_apply']
      exact round_exact (iterate_steady (ofAutomaton_steady current resolved settings) n)
        (frame_iterate _ n).1 (plain n (Nat.lt_succ_self n)) before low high

theorem iterate_exact {a : Automaton} {settings : Settings} (current : a.LoopsCurrent)
    (resolved : a.initial? = some initial) {n : Nat}
    (slow : n ≤ (ofAutomaton (a.withLoops initial) initial settings).threshold)
    (low : Count.least.toInt ≤ a.start.toInt - (n * a.largestDelta : Nat))
    (high : a.start.toInt + (n * a.largestDelta : Nat) ≤ Count.greatest.toInt) :
    (round^[n] (ofAutomaton (a.withLoops initial) initial settings)).Exact a n := by
  refine iterate_exact_of_plain current resolved ?_ low high
  intro m less
  obtain ⟨paced, few⟩ :=
    iterate_paced (ofAutomaton_paced (a.withLoops initial) initial settings) m
  -- No loop can have grown for more rounds than there were.
  have early := few.trans_lt ((Nat.zero_add m).symm ▸ less.trans_le slow)
  rw [← (frame_iterate _ m).2.2] at early
  exact next_eq_propagate (due_eq_nil paced early)

/-- Before any loop can be accelerated, and as long as no run can leave the counter range, a
number of rounds finds just the runs of at most that length. -/
theorem holds_advanceBy_iff {a : Automaton} {settings : Settings} (current : a.LoopsCurrent)
    (started : start a settings = .ok s) {n : Nat} (slow : n ≤ s.threshold)
    (low : Count.least.toInt ≤ a.start.toInt - n * a.largestDelta)
    (high : a.start.toInt + n * a.largestDelta ≤ Count.greatest.toInt) :
    (0 < n ∧ s.overflows = true ∧ s.advanceBy n = .error .deltaOverflow) ∨
      ∃ s', s.advanceBy n = .ok s' ∧ ∀ origin node (x : ℚ),
        s'.live.Holds node origin x ↔ ∃ k ≤ n, a.Run (fun _ => True) k origin node x := by
  obtain ⟨initial, resolved, rfl⟩ := start_eq_ok started
  rcases advanceBy_cases (s := ofAutomaton (a.withLoops initial) initial settings) rfl n with
    overflow | ok
  · exact Or.inl overflow
  · exact Or.inr ⟨_, ok, iterate_exact current resolved slow (by exact_mod_cast low)
      (by exact_mod_cast high)⟩

theorem climb_two_rounds :
    ∃ s s', start .climb ⟨some 2, none⟩ = .ok s ∧ s.advanceBy 2 = .ok s' ∧
      ∀ origin node (x : ℚ), s'.live.Holds node origin x ↔
        ∃ k ≤ 2, Automaton.climb.Run (fun _ => True) k origin node x := by
  have started := start_climb ⟨some 2, none⟩
  rcases holds_advanceBy_iff Automaton.climb_loopsCurrent started (n := 2) (by decide +kernel)
    (by decide +kernel) (by decide +kernel) with ⟨_, overflow, _⟩ | ⟨s', ok, exact⟩
  · exact absurd overflow (by decide +kernel)
  · exact ⟨_, s', started, ok, exact⟩

end Solver

end OneCounter
