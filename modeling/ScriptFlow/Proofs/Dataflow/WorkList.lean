import ScriptFlow.Proofs.Dataflow.Iteration

/-!
# The work-list

The queue of a run and its set of waiting points tell the same story: the queue holds points
reached from the entries, each at most once, and the set holds exactly the queued ones.

So a run works on reached points alone and leaves all others as they were.

Main statements: `bookkeeping_stateAfter`, for every state of every run, and `run_of_not_reached`.
-/

namespace ScriptFlow

namespace Engine

variable {T : Type} {net : Network} {d : Domain T} {entries : List Nat} {m : Memory T}

/-! ## The queue -/

/-- The queue holds reached points without repetitions, and the waiting set holds the same. -/
structure Bookkeeping (net : Network) (entries : List Nat) (s : Progress T) : Prop where
  waiting_iff : ∀ q, s.waiting.contains q = true ↔ q ∈ s.queue.toList
  nodup : s.queue.toList.Nodup
  reached : ∀ q ∈ s.queue.toList, net.ReachedFrom entries q

theorem mem_start_queue {q : Nat} :
    q ∈ (start net entries m).queue.toList ↔ q ∈ entries := by
  simp [start, Network.mem_distinct]

theorem Bookkeeping.initial : Bookkeeping net entries (start net entries m) where
  waiting_iff q := by
    rw [mem_start_queue]
    simp [start]
  nodup := by
    simpa [start] using Network.nodup_distinct entries .empty
  reached q hq := .of_mem (mem_start_queue.mp hq)

section Visit

variable {marks : PointSet} {s : Progress T} {p : Nat} {queue : Queue Nat}

/-- After a visit the rest of the queue waits, and the successors do unless the visit settled. -/
theorem Bookkeeping.mem_advance_queue (h : Bookkeeping net entries s)
    (hpop : s.queue.pop? = some (p, queue)) {q : Nat} :
    q ∈ (advance net d marks s p queue).queue.toList ↔
      q ∈ queue.toList ∨ settled net d marks s.memory p = false ∧ q ∈ net.successors p := by
  have hqueue := Queue.toList_of_pop? hpop
  rw [advance_queue, List.mem_append]
  cases hsettled : settled net d marks s.memory p with
  | true => simp
  | false =>
    simp only [Bool.false_eq_true, if_false, true_and, Network.mem_distinct]
    constructor
    · rintro (hq | ⟨hq, -⟩)
      · exact Or.inl hq
      · exact Or.inr hq
    · rintro (hq | hq)
      · exact Or.inl hq
      · -- A successor that waits already is in the queue, and it is not `p`, which was taken off.
        by_cases hwaits : (s.waiting.erase p).contains q = true
        · rw [PointMap.contains_erase, Bool.and_eq_true, Bool.not_eq_true', decide_eq_false_iff_not,
            h.waiting_iff, hqueue, List.mem_cons] at hwaits
          exact Or.inl (hwaits.2.resolve_left hwaits.1)
        · exact Or.inr ⟨hq, by simpa using hwaits⟩

/-- The queue and the waiting points still agree after a visit. -/
theorem Bookkeeping.step (h : Bookkeeping net entries s)
    (hpop : s.queue.pop? = some (p, queue)) :
    Bookkeeping net entries (advance net d marks s p queue) := by
  have hqueue := Queue.toList_of_pop? hpop
  have hnodup := h.nodup
  rw [hqueue, List.nodup_cons] at hnodup
  refine ⟨fun q => ?_, ?_, fun q hq => ?_⟩
  · -- The visited point is no longer queued nor waiting, unless it leads to itself.
    rw [h.mem_advance_queue hpop, advance_waiting]
    have hq := h.waiting_iff q
    rw [hqueue, List.mem_cons] at hq
    by_cases hqp : q = p
    · subst hqp
      simp [hnodup.1]
    · simp only [hqp, false_or] at hq
      simp [hqp, hq, or_comm]
  · rw [advance_queue]
    split
    · simpa using hnodup.2
    · refine List.nodup_append.mpr ⟨hnodup.2, Network.nodup_distinct _ _, fun q hq r hr hqr => ?_⟩
      subst hqr
      -- What is left in the queue waits, and only points that do not wait are appended.
      have hwaits : s.waiting.contains q = true := by
        rw [h.waiting_iff, hqueue]
        exact List.mem_cons_of_mem p hq
      have hqp : q ≠ p := fun he => hnodup.1 (he ▸ hq)
      have hfree := (Network.mem_distinct.mp hr).2
      simp [hwaits, hqp] at hfree
  · rcases (h.mem_advance_queue hpop).mp hq with hq | ⟨-, hq⟩
    · -- What was left in the queue was reached before.
      exact h.reached q (hqueue ▸ List.mem_cons_of_mem p hq)
    · -- A successor of the visited point is reached through it.
      exact (h.reached p (hqueue ▸ List.mem_cons_self)).step hq

end Visit

/-- In every state of every run the queue and the waiting points agree. -/
theorem bookkeeping_stateAfter (net : Network) (d : Domain T) (entries : List Nat) (m : Memory T)
    (n : Nat) : Bookkeeping net entries (stateAfter net d entries m n) :=
  stateAfter_induction net d entries m Bookkeeping.initial
    (fun _ _ _ hpop h => h.step hpop) n

/-- The point visited next is reached from the entries. -/
theorem reached_of_pop? {n p : Nat} {queue : Queue Nat}
    (hpop : (stateAfter net d entries m n).queue.pop? = some (p, queue)) :
    net.ReachedFrom entries p :=
  (bookkeeping_stateAfter net d entries m n).reached p
    (Queue.toList_of_pop? hpop ▸ List.mem_cons_self)

/-! ## Points outside the reached part -/

/-- No visit of a run writes to a point that is not reached. -/
theorem stateAfter_of_not_reached {q : Nat} (hq : ¬ net.ReachedFrom entries q) (n : Nat) :
    (stateAfter net d entries m n).memory.current.get? q = m.current.get? q ∧
      (stateAfter net d entries m n).memory.input.get? q = m.input.get? q ∧
      (stateAfter net d entries m n).memory.analyzed.contains q = m.analyzed.contains q := by
  refine stateAfter_induction net d entries m
    (I := fun s => s.memory.current.get? q = m.current.get? q ∧
      s.memory.input.get? q = m.input.get? q ∧
      s.memory.analyzed.contains q = m.analyzed.contains q) ?_ ?_ n
  -- The start drops the values of reached points only.
  · have hkept : q ∉ net.reachableFrom entries := fun h => hq (Network.mem_reachableFrom.mp h)
    obtain ⟨hcurrent, hinput, hanalyzed⟩ := Memory.foldl_forget (net.reachableFrom entries) m q
    simp [start, hcurrent, hinput, hanalyzed, hkept]
  · -- Only reached points are visited, so a visit writes elsewhere.
    intro n p queue hpop ih
    have hne : q ≠ p := fun h => hq (h ▸ reached_of_pop? hpop)
    rw [advance_current, advance_input, advance_analyzed, if_neg hne, if_neg hne]
    simpa [hne] using ih

/-- A run leaves the values and markers of unreached points as they were. -/
theorem run_of_not_reached {q : Nat} (hq : ¬ net.ReachedFrom entries q) (cap : Nat)
    (c : Cancellation) :
    (run net d cap c entries m).memory.current.get? q = m.current.get? q ∧
      (run net d cap c entries m).memory.input.get? q = m.input.get? q ∧
      (run net d cap c entries m).memory.analyzed.contains q = m.analyzed.contains q := by
  by_cases hne : entries = []
  · subst hne
    exact ⟨rfl, rfl, rfl⟩
  · rw [(run_spec net d entries m cap c hne).1]
    exact stateAfter_of_not_reached hq _

end Engine

end ScriptFlow
