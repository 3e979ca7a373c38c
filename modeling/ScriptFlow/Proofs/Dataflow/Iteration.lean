import ScriptFlow.Dataflow.Engine
import ScriptFlow.Proofs.Graph.Reachability
import Mathlib.Logic.Function.Iterate

/-!
# Visits and runs

What one visit does to every part of the state, and what a run is made of: the visits it makes are
an initial piece of one sequence of states, which depends on neither the cap nor the cancellation.
All invariants of runs are shown along that sequence.

Main statements:
- `advance_*`: what one visit does to the values, the markers, the queue and the counters
- `settle_spec`: the loop stops on a state of the sequence, for the reason it gives
- `stateAfter_induction`: what the start has and every visit keeps holds in every state of a run
-/

namespace ScriptFlow

/-! ## Sets of points -/

namespace PointMap

@[simp] theorem contains_foldl_mark (l : List Nat) (s : PointSet) (q : Nat) :
    (l.foldl mark s).contains q = (decide (q ∈ l) || s.contains q) := by
  induction l generalizing s with
  | nil => simp
  | cons p rest ih =>
    rw [List.foldl_cons, ih, contains_mark]
    by_cases hq : q = p <;> simp [hq]

end PointMap

namespace Memory

variable {T : Type}

/-- Forgetting a list of points leaves nothing on them and everything elsewhere. -/
theorem foldl_forget (l : List Nat) (m : Memory T) (q : Nat) :
    ((l.foldl forget m).current.get? q = if q ∈ l then none else m.current.get? q) ∧
      ((l.foldl forget m).input.get? q = if q ∈ l then none else m.input.get? q) ∧
      (l.foldl forget m).analyzed.contains q = (!decide (q ∈ l) && m.analyzed.contains q) := by
  -- By induction on the list; a point that occurs again finds nothing left to forget.
  induction l generalizing m with
  | nil => simp
  | cons p rest ih =>
    rw [List.foldl_cons]
    obtain ⟨hcurrent, hinput, hanalyzed⟩ := ih (m.forget p)
    rw [hcurrent, hinput, hanalyzed]
    by_cases hq : q = p <;> by_cases hrest : q ∈ rest <;> simp [forget, hq, hrest]

end Memory

namespace Engine

variable {T : Type} (net : Network) (d : Domain T)

/-- The entries of a run as a set. -/
def entrySet (entries : List Nat) : PointSet :=
  entries.foldl PointMap.mark .empty

@[simp] theorem contains_entrySet (entries : List Nat) (q : Nat) :
    (entrySet entries).contains q = decide (q ∈ entries) := by
  simp [entrySet]

/-! ## Queueing -/

section Schedule

variable (ps : List Nat) (s : Progress T)

theorem schedule_memory : (schedule ps s).memory = s.memory := by
  induction ps generalizing s with
  | nil => rfl
  | cons p rest ih =>
    unfold schedule
    split
    · exact ih s
    · exact ih _

theorem schedule_iterations : (schedule ps s).iterations = s.iterations := by
  induction ps generalizing s with
  | nil => rfl
  | cons p rest ih =>
    unfold schedule
    split
    · exact ih s
    · exact ih _

/-- The points that do not wait yet are appended, each once. -/
theorem schedule_queue :
    (schedule ps s).queue.toList = s.queue.toList ++ Network.distinct ps s.waiting := by
  induction ps generalizing s with
  | nil => simp [schedule, Network.distinct]
  | cons p rest ih =>
    unfold schedule Network.distinct
    split
    · exact ih s
    · -- A point that does not wait is appended, and waits when the rest is gone through.
      rw [ih]
      simp

/-- Each appended point counts as a propagation. -/
theorem schedule_propagations :
    (schedule ps s).propagations = s.propagations + (Network.distinct ps s.waiting).length := by
  induction ps generalizing s with
  | nil => simp [schedule, Network.distinct]
  | cons p rest ih =>
    unfold schedule Network.distinct
    split
    · exact ih s
    · rw [ih, List.length_cons]
      simp only
      omega

/-- Afterwards the given points wait beside those that waited before. -/
theorem schedule_waiting (q : Nat) :
    (schedule ps s).waiting.contains q = (decide (q ∈ ps) || s.waiting.contains q) := by
  induction ps generalizing s with
  | nil => simp [schedule]
  | cons p rest ih =>
    unfold schedule
    split
    · -- The first point waits already, so nothing is lost by passing it over.
      rw [ih]
      by_cases hq : q = p
      · subst hq
        simp [*]
      · simp [hq]
    · rw [ih, PointMap.contains_mark]
      by_cases hq : q = p <;> simp [hq]

end Schedule

/-! ## One visit -/

/-- The value after a point, computed from the current values. -/
def outputAt (entry : Bool) (current : PointMap T) (p : Nat) : T :=
  d.transfer (net.site p) (inputAt net d entry current p)

/-- Whether a visit of a point ends without queueing anything: the point was visited before and
its outcome counts as the same. -/
def settled (marks : PointSet) (m : Memory T) (p : Nat) : Bool :=
  m.analyzed.contains p &&
    (m.current.get? p).any fun v => d.equal v (outputAt net d (marks.contains p) m.current p)

section Advance

variable (marks : PointSet) (s : Progress T) (p : Nat) (queue : Queue Nat)

/-- The state of a visit once both values are stored, before successors are queued. -/
def stored : Progress T :=
  { s with
    memory :=
      { current := s.memory.current.set p (outputAt net d (marks.contains p) s.memory.current p)
        input := s.memory.input.set p (inputAt net d (marks.contains p) s.memory.current p)
        analyzed :=
          if settled net d marks s.memory p then s.memory.analyzed
          else PointMap.mark s.memory.analyzed p }
    queue := queue
    waiting := s.waiting.erase p
    iterations := s.iterations + 1 }

/-- A visit stores the values of its point and queues the successors unless it is settled. -/
theorem advance_eq :
    advance net d marks s p queue =
      if settled net d marks s.memory p then stored net d marks s p queue
      else schedule (net.successors p) (stored net d marks s p queue) :=
  rfl

theorem advance_memory :
    (advance net d marks s p queue).memory = (stored net d marks s p queue).memory := by
  rw [advance_eq]
  split
  · rfl
  · exact schedule_memory _ _

/-- After a visit only the visited point has a new value. -/
theorem advance_current (q : Nat) :
    (advance net d marks s p queue).memory.current.get? q =
      if q = p then some (outputAt net d (marks.contains p) s.memory.current p)
      else s.memory.current.get? q := by
  rw [advance_memory]
  exact PointMap.get?_set _ _ _ _

theorem advance_input (q : Nat) :
    (advance net d marks s p queue).memory.input.get? q =
      if q = p then some (inputAt net d (marks.contains p) s.memory.current p)
      else s.memory.input.get? q := by
  rw [advance_memory]
  exact PointMap.get?_set _ _ _ _

/-- The visited point is marked in any case: a settled one was marked before. -/
theorem advance_analyzed (q : Nat) :
    (advance net d marks s p queue).memory.analyzed.contains q =
      (decide (q = p) || s.memory.analyzed.contains q) := by
  rw [advance_memory]
  unfold stored
  by_cases hsettled : settled net d marks s.memory p = true
  · -- Only a marked point settles, so leaving the markers alone does not lose the mark.
    simp only [hsettled, if_true]
    by_cases hq : q = p
    · subst hq
      simpa using (Bool.and_eq_true_iff.mp hsettled).1
    · simp [hq]
  · simp [hsettled]

theorem advance_iterations :
    (advance net d marks s p queue).iterations = s.iterations + 1 := by
  rw [advance_eq]
  split
  · rfl
  · exact schedule_iterations _ _

/-- A settled visit queues nothing; every other one appends the successors that do not wait. -/
theorem advance_queue :
    (advance net d marks s p queue).queue.toList = queue.toList ++
      if settled net d marks s.memory p then []
      else Network.distinct (net.successors p) (s.waiting.erase p) := by
  rw [advance_eq]
  split
  · exact (List.append_nil _).symm
  · exact schedule_queue _ _

/-- The visited point waits no longer, unless it is queued again as its own successor. -/
theorem advance_waiting (q : Nat) :
    (advance net d marks s p queue).waiting.contains q =
      (!settled net d marks s.memory p && decide (q ∈ net.successors p) ||
        !decide (q = p) && s.waiting.contains q) := by
  rw [advance_eq]
  split
  · rename_i hsettled
    simp [stored, hsettled]
  · rename_i hsettled
    rw [schedule_waiting]
    simp [stored, hsettled]

theorem advance_propagations :
    (advance net d marks s p queue).propagations = s.propagations +
      if settled net d marks s.memory p then 0
      else (Network.distinct (net.successors p) (s.waiting.erase p)).length := by
  rw [advance_eq]
  split
  · rfl
  · exact schedule_propagations _ _

end Advance

/-! ## Sequences of visits -/

section Turns

variable (marks : PointSet) (c : Cancellation)

/-- One turn of the loop: a visit of the first point in the queue, if there is one. -/
def turn (s : Progress T) : Progress T :=
  match s.queue.pop? with
  | none => s
  | some (p, queue) => advance net d marks s p queue

variable {net d marks c} {s : Progress T} {p : Nat} {queue : Queue Nat} {room : Nat}

theorem turn_of_pop? (h : s.queue.pop? = some (p, queue)) :
    turn net d marks s = advance net d marks s p queue := by
  simp [turn, h]

theorem turn_iterations (h : s.queue.toList ≠ []) :
    (turn net d marks s).iterations = s.iterations + 1 := by
  -- With points waiting a turn is a visit, and a visit counts once.
  cases hpop : s.queue.pop? with
  | none => exact absurd (Queue.pop?_eq_none.mp hpop) h
  | some next => rw [turn_of_pop? hpop, advance_iterations]

/-- The loop in terms of turns: an empty queue is looked for first, then the cancellation, then
the cap. -/
theorem settle_eq (room : Nat) (s : Progress T) :
    settle net d marks c room s =
      if s.queue.toList = [] then (s, .fixedPoint)
      else if c.noticed s.iterations then (s, .cancelled)
      else match room with
        | 0 => (s, .exhausted)
        | room + 1 => settle net d marks c room (turn net d marks s) := by
  conv_lhs => unfold settle
  -- Both sides ask whether the queue has a first point.
  cases hpop : s.queue.pop? with
  | none => rw [if_pos (Queue.pop?_eq_none.mp hpop)]
  | some next =>
    have hbusy : s.queue.toList ≠ [] := by
      intro hempty
      rw [Queue.pop?_eq_none.mpr hempty] at hpop
      exact absurd hpop (by simp)
    cases room with
    | zero => simp [hbusy]
    | succ room => simp [hbusy, turn_of_pop? hpop]

variable (net d marks c)

/-- The loop started on `s` with `room` visits allowed stops after `k` of them for the given
reason, and not before. -/
structure Halts (room : Nat) (s : Progress T) (k : Nat) (ending : Ending) : Prop where
  within : k ≤ room
  busy : ∀ j < k, ((turn net d marks)^[j] s).queue.toList ≠ [] ∧
    c.noticed (s.iterations + j) = false
  reason :
    match ending with
    | .fixedPoint => ((turn net d marks)^[k] s).queue.toList = []
    | .cancelled =>
      ((turn net d marks)^[k] s).queue.toList ≠ [] ∧ c.noticed (s.iterations + k) = true
    | .exhausted =>
      ((turn net d marks)^[k] s).queue.toList ≠ [] ∧ c.noticed (s.iterations + k) = false ∧ k = room
    | .idle => False

variable {net d marks c}

/-- A loop that goes on after a turn halts one turn later than the loop from there. -/
theorem Halts.succ {room k : Nat} {s : Progress T} {ending : Ending} (hq : s.queue.toList ≠ [])
    (hc : c.noticed s.iterations = false)
    (h : Halts net d marks c room (turn net d marks s) k ending) :
    Halts net d marks c (room + 1) s (k + 1) ending := by
  obtain ⟨hwithin, hbusy, hreason⟩ := h
  rw [turn_iterations hq] at hbusy hreason
  refine ⟨by omega, fun j hj => ?_, ?_⟩
  · cases j with
    | zero => exact ⟨hq, hc⟩
    | succ j =>
      obtain ⟨hne, hnot⟩ := hbusy j (by omega)
      exact ⟨hne, by rwa [Nat.add_assoc, Nat.add_comm 1 j] at hnot⟩
  · -- The first turn shifts the count of the visits made after it by one.
    rw [Nat.add_assoc, Nat.add_comm 1 k] at hreason
    -- Only running out of visits mentions the number of visits allowed.
    cases ending with
    | exhausted =>
      obtain ⟨hne, hnot, hk⟩ := hreason
      exact ⟨hne, hnot, congrArg (· + 1) hk⟩
    | _ => exact hreason

variable (net d marks c)

/-- The loop ends on the state after some number of turns. -/
theorem settle_spec (room : Nat) (s : Progress T) :
    ∃ k, (settle net d marks c room s).1 = (turn net d marks)^[k] s ∧
      (settle net d marks c room s).1.iterations = s.iterations + k ∧
      Halts net d marks c room s k (settle net d marks c room s).2 := by
  induction room generalizing s with
  -- Without room for a visit the loop ends here, for one of the three reasons in the order asked.
  | zero =>
    refine ⟨0, ?_⟩
    rw [settle_eq]
    split
    · exact ⟨rfl, rfl, Nat.le_refl 0, by simp, ‹_›⟩
    · rename_i hq
      split
      · exact ⟨rfl, rfl, Nat.le_refl 0, by simp, hq, ‹_›⟩
      · rename_i hc
        exact ⟨rfl, rfl, Nat.le_refl 0, by simp, hq, Bool.eq_false_iff.mpr hc, rfl⟩
  | succ room ih =>
    rw [settle_eq]
    split
    · -- Nothing waits: the loop is at a fixed point after no further turn.
      exact ⟨0, rfl, rfl, Nat.zero_le _, by simp, ‹_›⟩
    · rename_i hq
      split
      · -- The cancellation is noticed before the turn.
        exact ⟨0, rfl, rfl, Nat.zero_le _, by simp, hq, ‹_›⟩
      · -- One turn is made, and what follows it is known by induction.
        rename_i hc
        obtain ⟨k, hstate, hiterations, hhalts⟩ := ih (turn net d marks s)
        rw [turn_iterations hq] at hiterations
        refine ⟨k + 1, hstate, ?_, hhalts.succ hq (Bool.eq_false_iff.mpr hc)⟩
        exact hiterations.trans (by omega)

end Turns

/-! ## Runs -/

section Runs

variable (entries : List Nat) (m : Memory T)

/-- The state of a run after `n` visits, or at its fixed point if it gets there earlier. -/
def stateAfter (n : Nat) : Progress T :=
  (turn net d (entrySet entries))^[n] (start net entries m)

/-- The last visit comes on top of the visits before. -/
theorem stateAfter_succ (n : Nat) :
    stateAfter net d entries m (n + 1) =
      turn net d (entrySet entries) (stateAfter net d entries m n) :=
  Function.iterate_succ_apply' _ _ _

/-- What holds at the start and is kept by every visit holds in every state of a run. -/
theorem stateAfter_induction {I : Progress T → Prop} (hstart : I (start net entries m))
    (hvisit : ∀ n p queue, (stateAfter net d entries m n).queue.pop? = some (p, queue) →
      I (stateAfter net d entries m n) →
        I (advance net d (entrySet entries) (stateAfter net d entries m n) p queue)) (n : Nat) :
    I (stateAfter net d entries m n) := by
  induction n with
  | zero => exact hstart
  | succ n ih =>
    rw [stateAfter_succ]
    cases hpop : (stateAfter net d entries m n).queue.pop? with
    -- At a fixed point the state stays as it is.
    | none => simpa [turn, hpop] using ih
    | some next => simpa [turn_of_pop? hpop] using hvisit n next.1 next.2 hpop ih

/-- A run never takes a mark back. -/
theorem analyzed_stateAfter_succ {n q : Nat}
    (h : (stateAfter net d entries m n).memory.analyzed.contains q = true) :
    (stateAfter net d entries m (n + 1)).memory.analyzed.contains q = true := by
  rw [stateAfter_succ]
  cases hpop : (stateAfter net d entries m n).queue.pop? with
  | none => simpa [turn, hpop] using h
  | some next => rw [turn_of_pop? hpop, advance_analyzed, h, Bool.or_true]

/-- A run with entries tells what the loop ended on. -/
theorem run_eq (cap : Nat) (c : Cancellation) (hne : entries ≠ []) :
    run net d cap c entries m =
      let ended := settle net d (entrySet entries) c cap (start net entries m)
      { memory := ended.1.memory
        iterations := ended.1.iterations
        propagations := ended.1.propagations
        flowPoints := (net.reachableFrom entries).length
        ending := ended.2 } := by
  have hempty : entries.isEmpty = false := by simpa using hne
  simp [run, hempty, entrySet]

/-- A run with entries makes the visits of its state sequence up to the point where it stops. -/
theorem run_spec (cap : Nat) (c : Cancellation) (hne : entries ≠ []) :
    let o := run net d cap c entries m
    o.memory = (stateAfter net d entries m o.iterations).memory ∧
      o.propagations = (stateAfter net d entries m o.iterations).propagations ∧
      o.flowPoints = (net.reachableFrom entries).length ∧
      Halts net d (entrySet entries) c cap (start net entries m) o.iterations o.ending := by
  obtain ⟨k, hstate, hiterations, hhalts⟩ :=
    settle_spec net d (entrySet entries) c cap (start net entries m)
  -- The loop starts with no visits made, so the counter is the number of turns.
  have hk : (settle net d (entrySet entries) c cap (start net entries m)).1.iterations = k := by
    rw [hiterations]
    exact Nat.zero_add k
  rw [run_eq net d entries m cap c hne]
  dsimp only
  rw [hk]
  exact ⟨congrArg Progress.memory hstate, congrArg Progress.propagations hstate, rfl, hhalts⟩

end Runs

end Engine

end ScriptFlow
