import OneCounter.Proofs.Closure
import OneCounter.Proofs.Exactness

/-!
The books that an analysis keeps about its loops: for how many rounds in a row a loop has grown in a
direction, and whether it ever has. Main statement: whatever rounds are taken and values added by
hand, there is one entry for each loop, no loop has grown for longer than there were rounds, a loop
is marked just if it was growing after one of the rounds, a mark stays, and the rounds are counted up
to the one that finishes the analysis, after which another one changes nothing. The automaton that is
handed out carries the marks, and can be analysed again.
-/

namespace OneCounter

/-! ### One round -/

theorem Gauge.grown_advance_iff (gauge : Gauge) (grows : Bool) :
    (gauge.advance grows).grown = true ↔
      gauge.grown = true ∨ 0 < (gauge.advance grows).streak := by
  cases grows <;> simp [Gauge.advance]

/-- A loop is marked after a round if it was before, or if it has grown in the round. -/
theorem Tracker.grown_update_iff (before after : Reach) (tracker : Tracker)
    (direction : Direction) :
    ((tracker.update before after).gauge direction).grown = true ↔
      (tracker.gauge direction).grown = true ∨
        0 < ((tracker.update before after).gauge direction).streak := by
  obtain ⟨grows, equal⟩ := tracker.gauge_update before after direction
  rw [equal]
  exact Gauge.grown_advance_iff _ grows

namespace Solver

variable {s s' : Solver} {i : Nat} {direction : Direction}

/-- The loop at the place has grown at some time. -/
def Marked (s : Solver) (i : Nat) (direction : Direction) : Prop :=
  ∃ tracker, s.trackers[i]? = some tracker ∧ (tracker.gauge direction).grown = true

/-- The loop at the place has grown in the last round. -/
def Growing (s : Solver) (i : Nat) (direction : Direction) : Prop :=
  ∃ tracker, s.trackers[i]? = some tracker ∧ 0 < (tracker.gauge direction).streak

/-- No loop grows without a mark. -/
def Reliable (s : Solver) : Prop := ∀ i direction, s.Growing i direction → s.Marked i direction

theorem trackers_round (s : Solver) : s.round.trackers = s.trackers ∨
    s.round.trackers = s.trackers.map (Tracker.update s.snapshot s.next) := by
  cases finished : s.finished with
  | true => exact Or.inl (by rw [round_of_finished finished])
  | false =>
      rcases round_cases finished with ⟨_, equal⟩ | ⟨_, equal⟩
      · exact Or.inl (by rw [equal])
      · exact Or.inr (by rw [equal])

theorem loops_round (s : Solver) :
    s.round.trackers.map Tracker.loop = s.trackers.map Tracker.loop := by
  rcases trackers_round s with same | updated
  · rw [same]
  · rw [updated, List.map_map]
    exact List.map_congr_left fun tracker _ => loop_update _ _ tracker

/-- A round counts unless the analysis is finished after it. -/
theorem rounds_round (s : Solver) :
    s.round.rounds = s.rounds + if s.round.finished then 0 else 1 := by
  cases finished : s.finished with
  | true => simp [round_of_finished finished, finished]
  | false =>
      rcases round_cases finished with ⟨_, equal⟩ | ⟨_, equal⟩
      · simp [equal]
      · simp [equal, finished]

theorem marked_round (marked : s.Marked i direction) : s.round.Marked i direction := by
  obtain ⟨tracker, here, grown⟩ := marked
  rcases trackers_round s with same | updated
  · exact ⟨tracker, same ▸ here, grown⟩
  · exact ⟨tracker.update s.snapshot s.next, by simp [updated, here],
      (tracker.grown_update_iff _ _ direction).mpr (Or.inl grown)⟩

theorem marked_round_iff (reliable : s.Reliable) :
    s.round.Marked i direction ↔ s.Marked i direction ∨ s.round.Growing i direction := by
  rcases trackers_round s with same | updated
  · have marked : s.round.Marked i direction ↔ s.Marked i direction := by rw [Marked, same]; rfl
    have growing : s.round.Growing i direction ↔ s.Growing i direction := by rw [Growing, same]; rfl
    rw [marked, growing]
    exact (or_iff_left_of_imp (reliable i direction)).symm
  · constructor
    · rintro ⟨tracker, here, grown⟩
      obtain ⟨old, there, rfl⟩ := Option.map_eq_some_iff.mp (List.getElem?_map ▸ updated ▸ here)
      rcases (old.grown_update_iff _ _ direction).mp grown with before | now
      · exact Or.inl ⟨old, there, before⟩
      · exact Or.inr ⟨_, here, now⟩
    · rintro (marked | ⟨tracker, here, growing⟩)
      · exact marked_round marked
      · obtain ⟨old, there, rfl⟩ := Option.map_eq_some_iff.mp (List.getElem?_map ▸ updated ▸ here)
        exact ⟨_, here, (old.grown_update_iff _ _ direction).mpr (Or.inr growing)⟩

theorem round_reliable (reliable : s.Reliable) : s.round.Reliable :=
  fun _ _ growing => (marked_round_iff reliable).mpr (Or.inr growing)

/-! ### The history of a sequence of calls -/

/-- Each call with the state that it leaves, up to the first that fails. -/
def history : List Call → Solver → List (Call × Solver)
  | [], _ => []
  | call :: rest, s =>
      match call.perform s with
      | .ok s' => (call, s') :: history rest s'
      | .error _ => []

theorem history_cons_of_ok {call : Call} {rest : List Call} (performed : call.perform s = .ok s') :
    s.history (call :: rest) = (call, s') :: s'.history rest := by
  rw [history, performed]

/-- A sequence of calls that succeeds is in the history call by call. -/
theorem calls_history {calls : List Call} (called : s.performAll calls = .ok s') :
    (s.history calls).map Prod.fst = calls := by
  induction calls generalizing s with
  | nil => rfl
  | cons call rest ih =>
      obtain ⟨between, performed, later⟩ := performAll_cons_eq_ok called
      rw [history_cons_of_ok performed, List.map_cons, ih later]

/-- From each state of the history further calls lead to the last one. -/
theorem exists_performAll_of_mem_history {calls : List Call}
    (called : s.performAll calls = .ok s') {entry : Call × Solver}
    (listed : entry ∈ s.history calls) : ∃ more, entry.2.performAll more = .ok s' := by
  induction calls generalizing s with
  | nil => cases listed
  | cons call rest ih =>
      obtain ⟨between, performed, later⟩ := performAll_cons_eq_ok called
      rw [history_cons_of_ok performed] at listed
      rcases List.mem_cons.mp listed with rfl | after
      · exact ⟨rest, later⟩
      · exact ih later after

/-! ### The books after a sequence of calls -/

theorem marked_performAll {calls : List Call} (called : s.performAll calls = .ok s')
    (marked : s.Marked i direction) : s'.Marked i direction :=
  performAll_induction (motive := fun t => t.Marked i direction) (fun _ => marked_round)
    (fun _ _ _ _ marked => marked) called marked

theorem performAll_paced {calls : List Call} (called : s.performAll calls = .ok s')
    (paced : s.Paced) : s'.Paced :=
  performAll_induction (motive := Paced) (fun _ => round_paced) (fun _ _ _ _ paced => paced) called
    paced

theorem loops_performAll {calls : List Call} (called : s.performAll calls = .ok s') :
    s'.trackers.map Tracker.loop = s.trackers.map Tracker.loop :=
  performAll_induction (motive := fun t => t.trackers.map Tracker.loop = s.trackers.map Tracker.loop)
    (fun t same => (loops_round t).trans same) (fun _ _ _ _ same => same) called rfl

/-- A loop is marked after some calls if it was before, or if one of them was a round in which it has
grown. -/
theorem marked_performAll_iff {calls : List Call} (single : ∀ call ∈ calls, call ≠ .run)
    (called : s.performAll calls = .ok s') (reliable : s.Reliable) :
    s'.Marked i direction ↔ s.Marked i direction ∨
      ∃ entry ∈ s.history calls, entry.1 = .advance ∧ entry.2.Growing i direction := by
  induction calls generalizing s with
  | nil =>
      obtain rfl := Except.ok.inj called
      simp [history]
  | cons call rest ih =>
      obtain ⟨between, performed, later⟩ := performAll_cons_eq_ok called
      have others := fun other listed => single other (List.mem_cons_of_mem call listed)
      rw [history_cons_of_ok performed, List.exists_mem_cons_iff]
      cases call with
      | advance =>
          obtain rfl := advance_eq_ok performed
          rw [ih others later (round_reliable reliable), marked_round_iff reliable, or_assoc]
          simp
      | add node origin values =>
          obtain rfl := Except.ok.inj performed
          rw [ih others later reliable]
          simp [Marked, addValues]
      | run => exact absurd rfl (single .run List.mem_cons_self)

theorem rounds_performAll {calls : List Call} (single : ∀ call ∈ calls, call ≠ .run)
    (called : s.performAll calls = .ok s') :
    s'.rounds = s.rounds +
      (s.history calls).countP fun entry => entry.1 = .advance && !entry.2.finished := by
  induction calls generalizing s with
  | nil =>
      obtain rfl := Except.ok.inj called
      rfl
  | cons call rest ih =>
      obtain ⟨between, performed, later⟩ := performAll_cons_eq_ok called
      have others := fun other listed => single other (List.mem_cons_of_mem call listed)
      rw [history_cons_of_ok performed, List.countP_cons, ih others later]
      cases call with
      | advance =>
          obtain rfl := advance_eq_ok performed
          rw [rounds_round]
          cases s.round.finished <;> simp [Nat.add_assoc, Nat.add_comm 1]
      | add node origin values =>
          obtain rfl := Except.ok.inj performed
          simp [addValues]
      | run => exact absurd rfl (single .run List.mem_cons_self)

/-- Rounds and additions all succeed, or a round fails because an edge is out of range. -/
theorem performAll_cases {calls : List Call} (single : ∀ call ∈ calls, call ≠ .run)
    (running : s.overflows = true → s.finished = false) :
    (s.overflows = true ∧ .advance ∈ calls ∧ s.performAll calls = .error .deltaOverflow) ∨
      ∃ s', s.performAll calls = .ok s' := by
  induction calls generalizing s with
  | nil => exact Or.inr ⟨s, rfl⟩
  | cons call rest ih =>
      have others := fun other listed => single other (List.mem_cons_of_mem call listed)
      cases call with
      | advance =>
          cases overflow : s.overflows with
          | true =>
              have failed : s.advance = .error .deltaOverflow := by
                simp [advance, overflow, running overflow]
              refine Or.inl ⟨rfl, List.mem_cons_self, ?_⟩
              rw [performAll, Call.perform, failed]
              rfl
          | false =>
              have fits : ¬ s.round.overflows = true := by simp [overflows_round, overflow]
              have performed : Call.advance.perform s = .ok s.round :=
                advance_of_not_overflows overflow
              rw [performAll_cons_of_ok performed]
              rcases ih others (fun past => absurd past fits) with ⟨past, _⟩ | ok
              · exact absurd past fits
              · exact Or.inr ok
      | add node origin values =>
          have performed : (Call.add node origin values).perform s =
              .ok (s.addValues node origin values) := rfl
          rw [performAll_cons_of_ok performed]
          rcases ih others (s := s.addValues node origin values) running with
            ⟨overflow, listed, failed⟩ | ok
          · exact Or.inl ⟨overflow, List.mem_cons_of_mem _ listed, failed⟩
          · exact Or.inr ok
      | run => exact absurd rfl (single .run List.mem_cons_self)

/-- What is on record after calls on an analysis. -/
structure Books (s : Solver) (calls : List Call) (s' : Solver) : Prop where
  complete : (s.history calls).map Prod.fst = calls
  automaton : s'.automaton = s.automaton
  /-- One entry for each loop, in the same order. -/
  loops : s'.trackers.map Tracker.loop = s'.automaton.loops
  rounds : s'.rounds =
    (s.history calls).countP fun entry => entry.1 = .advance && !entry.2.finished
  streaks : ∀ tracker ∈ s'.trackers, ∀ direction, (tracker.gauge direction).streak ≤ s'.rounds
  marks : ∀ i direction, s'.Marked i direction ↔
    ∃ entry ∈ s.history calls, entry.1 = .advance ∧ entry.2.Growing i direction
  marksStay : ∀ entry ∈ s.history calls, ∀ i direction, entry.2.Marked i direction →
    s'.Marked i direction
  finishedStays : ∀ entry ∈ s.history calls, entry.2.finished = true →
    s'.finished = true ∧ s'.advance = .ok s'
  /-- The automaton that is handed out has the marks on its loops, and is else as it was. -/
  solved : { s'.solved with loops? := s.automaton.loops? } = s.automaton ∧
    s'.solved.loops.map Loop.unmarked = s.automaton.loops ∧
    ∀ i direction, s'.Marked i direction ↔
      ∃ loop, s'.solved.loops[i]? = some loop ∧ (loop.side direction).grown = true

theorem unmarked_withLoops {a : Automaton} (unmarked : ∀ loop ∈ a.loops, loop.unmarked = loop)
    (initial : String) : ∀ loop ∈ (a.withLoops initial).loops, loop.unmarked = loop := by
  intro loop listed
  cases known : a.loops? with
  | none =>
      rw [Automaton.loops, Automaton.withLoops, known] at listed
      obtain ⟨nodes, _, rfl⟩ := List.mem_map.mp listed
      rfl
  | some loops =>
      rw [Automaton.withLoops_of_known known] at listed
      exact unmarked loop listed

theorem gauge_ofLoop (loop : Loop) (direction : Direction) :
    (Tracker.ofLoop loop).gauge direction = .ofSide (loop.side direction) := by
  cases direction <;> rfl

theorem ofAutomaton_unmarked {a : Automaton} (unmarked : ∀ loop ∈ a.loops, loop.unmarked = loop)
    (initial : String) (settings : Settings) (i : Nat) (direction : Direction) :
    ¬ (ofAutomaton a initial settings).Marked i direction ∧
      ¬ (ofAutomaton a initial settings).Growing i direction := by
  have zero : ∀ tracker, (ofAutomaton a initial settings).trackers[i]? = some tracker →
      tracker.gauge direction = ⟨0, false⟩ := by
    intro tracker here
    rw [ofAutomaton, List.getElem?_map, Option.map_eq_some_iff] at here
    obtain ⟨loop, there, rfl⟩ := here
    rw [gauge_ofLoop, ← unmarked loop (List.mem_of_getElem? there)]
    cases direction <;> rfl
  constructor
  · rintro ⟨tracker, here, grown⟩
    rw [zero tracker here] at grown
    cases grown
  · rintro ⟨tracker, here, growing⟩
    rw [zero tracker here] at growing
    exact absurd growing (Nat.lt_irrefl 0)

/-! ### The automaton that is handed out -/

theorem grown_side_marked (tracker : Tracker) (direction : Direction) :
    (tracker.marked.side direction).grown = (tracker.gauge direction).grown := by
  cases direction <;> rfl

theorem marked_iff_solved (s : Solver) (i : Nat) (direction : Direction) :
    s.Marked i direction ↔
      ∃ loop, s.solved.loops[i]? = some loop ∧ (loop.side direction).grown = true := by
  have loops : s.solved.loops[i]? = s.trackers[i]?.map Tracker.marked := List.getElem?_map
  simp only [Marked, loops, Option.map_eq_some_iff]
  constructor
  · rintro ⟨tracker, here, grown⟩
    exact ⟨_, ⟨tracker, here, rfl⟩, (grown_side_marked tracker direction).trans grown⟩
  · rintro ⟨_, ⟨tracker, here, rfl⟩, grown⟩
    exact ⟨tracker, here, (grown_side_marked tracker direction).symm.trans grown⟩

/-- Without the marks, the loops that are handed out are those that were taken over. -/
theorem unmarked_solved {a : Automaton} {initial : String} {settings : Settings}
    {calls : List Call} (called : (ofAutomaton a initial settings).performAll calls = .ok s') :
    s'.solved.loops.map Loop.unmarked = a.loops.map Loop.unmarked := by
  have taken : (ofAutomaton a initial settings).trackers.map Tracker.loop =
      a.loops.map Loop.unmarked := List.map_map
  rw [← taken, ← loops_performAll called]
  change (s'.trackers.map Tracker.marked).map Loop.unmarked = _
  rw [List.map_map]
  apply List.map_congr_left
  intro tracker listed
  -- The tracker follows a loop that was taken over without its marks.
  have follows := List.mem_map_of_mem (f := Tracker.loop) listed
  rw [loops_performAll called, taken] at follows
  obtain ⟨loop, _, equal⟩ := List.mem_map.mp follows
  rw [← equal]
  change tracker.marked.unmarked = _
  rw [Tracker.marked, ← equal]
  rfl

/-- The automaton that an analysis hands out can be analysed again like the first one. -/
theorem solved_loopsCurrent {a : Automaton} {settings : Settings} {calls : List Call}
    (current : a.LoopsCurrent) (started : start a settings = .ok s)
    (called : s.performAll calls = .ok s') : s'.solved.LoopsCurrent := by
  obtain ⟨initial, resolved, rfl⟩ := start_eq_ok started
  have same : s'.automaton = a.withLoops initial := automaton_performAll called
  intro other loops found known
  have equal : s'.solved.initial? = a.initial? := by rw [solved, same]; rfl
  obtain rfl := Option.some.inj (resolved.symm.trans (equal.symm.trans found))
  have listed : s'.solved.loops = loops := congrArg (Option.getD · []) known
  have again : s'.solved.loopsFrom initial = a.loopsFrom initial := by rw [solved, same]; rfl
  rw [← listed, unmarked_solved called, current.loops resolved, again]

/-- The books of an analysis are right after every sequence of rounds and additions that does not
fail, and only a change past the range of the counter makes one fail. -/
theorem performAll_books {a : Automaton} {settings : Settings} {calls : List Call}
    (unmarked : ∀ loop ∈ a.loops, loop.unmarked = loop) (started : start a settings = .ok s)
    (single : ∀ call ∈ calls, call ≠ .run) :
    (s.overflows = true ∧ .advance ∈ calls ∧ s.performAll calls = .error .deltaOverflow) ∨
      ∃ s', s.performAll calls = .ok s' ∧ Books s calls s' := by
  obtain ⟨initial, _, rfl⟩ := start_eq_ok started
  rcases performAll_cases (s := ofAutomaton (a.withLoops initial) initial settings) single
    (fun _ => rfl) with failed | ⟨s', called⟩
  · exact Or.inl failed
  · have each := unmarked_withLoops unmarked initial
    have plain : (a.withLoops initial).loops.map Loop.unmarked = (a.withLoops initial).loops :=
      (List.map_congr_left each).trans (List.map_id _)
    have first := ofAutomaton_unmarked each initial settings
    have reliable : (ofAutomaton (a.withLoops initial) initial settings).Reliable :=
      fun i direction growing => absurd growing (first i direction).2
    have same := automaton_performAll called
    have handed : { s'.solved with loops? := (a.withLoops initial).loops? } =
        a.withLoops initial := by rw [solved, same]; rfl
    refine Or.inr ⟨s', called, calls_history called, same, ?_, ?_, ?_, ?_, ?_, ?_, handed,
      (unmarked_solved called).trans plain, marked_iff_solved s'⟩
    · rw [loops_performAll called, same, ofAutomaton, List.map_map]
      exact plain
    · rw [rounds_performAll single called]
      exact Nat.zero_add _
    · exact performAll_paced called (ofAutomaton_paced (a.withLoops initial) initial settings)
    · intro i direction
      rw [marked_performAll_iff single called reliable, or_iff_right (first i direction).1]
    · intro entry listed i direction marked
      obtain ⟨more, later⟩ := exists_performAll_of_mem_history called listed
      exact marked_performAll later marked
    · intro entry listed finished
      obtain ⟨more, later⟩ := exists_performAll_of_mem_history called listed
      have still := (performAll_of_finished later finished).1
      refine ⟨still, ?_⟩
      rw [advance, if_neg (by simp [still]), round_of_finished still]

/-- The climb grows in its first round, and the mark stays when values are added. -/
theorem climb_books : (∀ loop ∈ Automaton.climb.loops, loop.unmarked = loop) ∧
    (∀ call ∈ [Call.advance, .add "loop" "exit" (.point 0)], call ≠ .run) ∧
    ∃ s s', start .climb ⟨some 2, none⟩ = .ok s ∧
      s.performAll [.advance, .add "loop" "exit" (.point 0)] = .ok s' ∧
      Books s [.advance, .add "loop" "exit" (.point 0)] s' ∧ s'.rounds = 1 ∧ s'.Marked 0 .up := by
  have single : ∀ call ∈ [Call.advance, .add "loop" "exit" (.point 0)], call ≠ .run := by decide
  have unmarked : ∀ loop ∈ Automaton.climb.loops, loop.unmarked = loop := by decide +kernel
  rcases performAll_books unmarked (start_climb ⟨some 2, none⟩) single with
    ⟨overflow, _⟩ | ⟨s', called, books⟩
  · exact absurd overflow (by decide +kernel)
  · have facts : ((ofAutomaton (Automaton.climb.withLoops "loop") "loop" ⟨some 2, none⟩).performAll
        [.advance, .add "loop" "exit" (.point 0)]).toOption.any (fun t =>
          t.rounds = 1 && t.trackers[0]?.any fun tracker => tracker.rising.grown) = true := by
      decide +kernel
    rw [called] at facts
    have both : s'.rounds = 1 ∧ s'.trackers[0]?.any (fun tracker => tracker.rising.grown) = true := by
      simpa [Except.toOption] using facts
    exact ⟨unmarked, single, _, s', start_climb _, called, books, both.1, Option.any_eq_true _ _ |>.mp both.2⟩

end Solver

end OneCounter
