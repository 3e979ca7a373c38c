import ScriptFlow.Proofs.Dataflow.FixedPoint
import ScriptFlow.Proofs.Dataflow.Truncation
import Mathlib.Data.Set.Card

/-!
# The balance of the counters

Every point that is put on the queue is taken off it once: it was one of the distinct entries, or it
was counted as a propagation. Whenever the loop looks at its queue, what was put on it is therefore
what was taken off it and what still waits. The counters of a run are in balance with the queue on
which it stops, and that queue is empty only at a fixed point.

Each visit marks at most one point that was not marked before, so a run that has marked every
reached point has made at least as many visits.

Main statement: `counters_balance`.
-/

namespace ScriptFlow

namespace Engine

variable {T : Type} {net : Network} {d : Domain T} {entries : List Nat} {m : Memory T}

/-! ## What was queued and what was visited -/

/-- The points that were ever queued are the visited ones and the waiting ones. -/
def Balanced (entries : List Nat) (s : Progress T) : Prop :=
  entries.toFinset.card + s.propagations = s.iterations + s.queue.toList.length

theorem Balanced.initial : Balanced entries (start net entries m) := by
  show entries.toFinset.card + 0 =
    0 + (Queue.ofList (Network.distinct entries .empty)).toList.length
  rw [Queue.toList_ofList, length_distinct_entries, Nat.add_comm]

/-- A visit moves one point from the queue to the visits, and each point that it queues is counted
as a propagation. -/
theorem Balanced.step {marks : PointSet} {s : Progress T} {p : Nat} {queue : Queue Nat}
    (h : Balanced entries s) (hpop : s.queue.pop? = some (p, queue)) :
    Balanced entries (advance net d marks s p queue) := by
  unfold Balanced at *
  -- The visited point leaves the queue on the one side and counts as a visit on the other.
  rw [Queue.toList_of_pop? hpop, List.length_cons] at h
  rw [advance_propagations, advance_iterations, advance_queue, List.length_append]
  -- A settled visit queues nothing.
  split
  · rw [List.length_nil]
    omega
  · omega

/-- The balance holds in every state of a run. -/
theorem balanced_stateAfter (net : Network) (d : Domain T) (entries : List Nat) (m : Memory T)
    (n : Nat) : Balanced entries (stateAfter net d entries m n) := by
  apply stateAfter_induction net d entries m
  · exact Balanced.initial
  · intro n p queue hpop h
    exact h.step hpop

/-! ## Marked points -/

/-- The reached points that a run has marked. -/
def marked (net : Network) (entries : List Nat) (s : Progress T) : Finset Nat :=
  (region net entries).filter fun q => s.memory.analyzed.contains q = true

theorem marked_start : marked net entries (start net entries m) = ∅ := by
  apply Finset.filter_eq_empty_iff.mpr
  intro q hq
  rw [start_analyzed (mem_region.mp hq)]
  exact Bool.false_ne_true

/-- A visit marks at most its own point. -/
theorem marked_advance_subset (marks : PointSet) (s : Progress T) (p : Nat) (queue : Queue Nat) :
    marked net entries (advance net d marks s p queue) ⊆ insert p (marked net entries s) := by
  intro q hq
  obtain ⟨hregion, hmark⟩ := Finset.mem_filter.mp hq
  rw [advance_analyzed, Bool.or_eq_true, decide_eq_true_eq] at hmark
  apply Finset.mem_insert.mpr
  rcases hmark with rfl | hmark
  · exact Or.inl rfl
  · exact Or.inr (Finset.mem_filter.mpr ⟨hregion, hmark⟩)

/-- There are at least as many visits as marked points. -/
theorem card_marked_le (net : Network) (d : Domain T) (entries : List Nat) (m : Memory T)
    (n : Nat) :
    (marked net entries (stateAfter net d entries m n)).card ≤
      (stateAfter net d entries m n).iterations := by
  apply stateAfter_induction net d entries m
    (I := fun s => (marked net entries s).card ≤ s.iterations)
  · rw [marked_start]
    exact Nat.zero_le _
  · -- A visit adds at most its own point to the marked ones, and one to the visits.
    intro n p queue hpop h
    rw [advance_iterations]
    calc (marked net entries (advance net d _ _ p queue)).card
        ≤ (insert p (marked net entries (stateAfter net d entries m n))).card :=
          Finset.card_le_card (marked_advance_subset _ _ p queue)
      _ ≤ (marked net entries (stateAfter net d entries m n)).card + 1 := Finset.card_insert_le _ _
      _ ≤ (stateAfter net d entries m n).iterations + 1 := Nat.succ_le_succ h

/-- Where nothing waits, every reached point is marked. -/
theorem marked_eq_region {n : Nat} (hempty : (stateAfter net d entries m n).queue.toList = []) :
    marked net entries (stateAfter net d entries m n) = region net entries := by
  apply Finset.filter_true_of_mem
  intro q hq
  -- Every reached point was visited, since none waits and nothing was forgotten.
  exact (covered_stateAfter net d entries m n).analyzed_of_empty hempty (mem_region.mp hq)

/-! ## Runs -/

theorem card_region (net : Network) (entries : List Nat) :
    (region net entries).card = (net.reachableFrom entries).length :=
  List.toFinset_card_of_nodup (Network.nodup_reachableFrom net entries)

theorem ncard_reached (net : Network) (entries : List Nat) :
    {q | net.ReachedFrom entries q}.ncard = (net.reachableFrom entries).length := by
  have hregion : {q | net.ReachedFrom entries q} = ↑(region net entries) := by
    ext q
    exact mem_region.symm
  rw [hregion, Set.ncard_coe_finset, card_region]

/-- The number of turns is the number of visits. -/
theorem stateAfter_iterations (net : Network) (d : Domain T) (m : Memory T) (hne : entries ≠ [])
    (cap : Nat) (c : Cancellation) :
    (stateAfter net d entries m (run net d cap c entries m).iterations).iterations =
      (run net d cap c entries m).iterations := by
  obtain ⟨k, hstate, hiterations, -⟩ :=
    settle_spec net d (entrySet entries) c cap (start net entries m)
  -- The loop starts with no visits made.
  have hk := hiterations.trans (Nat.zero_add k)
  have hrun : (run net d cap c entries m).iterations = k := by
    rw [run_eq net d entries m cap c hne]
    exact hk
  rw [hrun]
  exact (congrArg Progress.iterations hstate).symm.trans hk

/-- The last state at the head of the loop is the one after all visits. -/
theorem getLast?_runStages (hne : entries ≠ []) (cap : Nat) (c : Cancellation) :
    (runStages net d entries m cap c).getLast? =
      some (stateAfter net d entries m (run net d cap c entries m).iterations) := by
  have hlast : (runStages net d entries m cap c)[(run net d cap c entries m).iterations]? =
      some (stateAfter net d entries m (run net d cap c entries m).iterations) :=
    (getElem?_runStages hne).mpr ⟨Nat.le_refl _, rfl⟩
  have hlength : (runStages net d entries m cap c).length =
      (run net d cap c entries m).iterations + 1 := by
    -- The list of states breaks off after the last visit, so its length is one more than their
    -- number.
    apply Nat.le_antisymm
    · apply List.getElem?_eq_none_iff.mp
      apply Option.eq_none_iff_forall_ne_some.mpr
      intro s hs
      have hle := ((getElem?_runStages hne).mp hs).1
      omega
    · exact (List.getElem?_eq_some_iff.mp hlast).1
  rw [List.getLast?_eq_getElem?, hlength]
  exact hlast

/-- Only a run that comes to its fixed point stops on an empty queue. -/
theorem queue_ne_nil_of_error? {cap : Nat} {c : Cancellation} {name : String} {e : RunError}
    (hne : entries ≠ []) (herror : (run net d cap c entries m).error? name = some e) :
    (stateAfter net d entries m (run net d cap c entries m).iterations).queue.toList ≠ [] := by
  obtain ⟨-, -, -, hhalts⟩ := run_spec net d entries m cap c hne
  have hreason := hhalts.reason
  unfold Outcome.error? at herror
  -- Idle runs and runs at their fixed point report no error; the other two stop while points wait.
  cases hending : (run net d cap c entries m).ending with
  | idle => simp [hending] at herror
  | fixedPoint => simp [hending] at herror
  | cancelled =>
    rw [hending] at hreason
    exact hreason.1
  | exhausted =>
    rw [hending] at hreason
    exact hreason.1

/-- **The queue, its set and the counters of a run are in balance.** Take any domain, network,
entries, memory, cap and cancellation. Whenever the run is at the head of its loop, its queue holds
reached points only and none of them twice, the waiting set holds exactly the points in the queue,
and the distinct entries and the propagations together are as many as the visits made and the points
waiting. The run reports the counters of the last of these states, and the number of points that are
reached from its entries. If it succeeds, its visits are exactly the distinct entries and the
propagations, and at least as many as the reached points. If it fails, by its cap or its
cancellation, it has made fewer visits than that, and no more than its cap allows. -/
theorem counters_balance (net : Network) (d : Domain T) (entries : List Nat) (m : Memory T)
    (name : String) (cap : Nat) (c : Cancellation) :
    let o := run net d cap c entries m
    (∀ s ∈ runStages net d entries m cap c,
        s.queue.toList.Nodup ∧ (∀ q ∈ s.queue.toList, net.ReachedFrom entries q) ∧
          (∀ q, s.waiting.contains q = true ↔ q ∈ s.queue.toList) ∧
          entries.toFinset.card + s.propagations = s.iterations + s.queue.toList.length) ∧
      (entries ≠ [] → ∃ s, (runStages net d entries m cap c).getLast? = some s ∧
        s.memory = o.memory ∧ s.iterations = o.iterations ∧ s.propagations = o.propagations) ∧
      o.flowPoints = {q | net.ReachedFrom entries q}.ncard ∧
      (o.error? name = none → o.iterations = entries.toFinset.card + o.propagations ∧
        o.flowPoints ≤ o.iterations) ∧
      (∀ e, o.error? name = some e → o.iterations < entries.toFinset.card + o.propagations ∧
        o.iterations ≤ cap) := by
  intro o
  by_cases hne : entries = []
  · -- Without entries there is no loop, and nothing is reached.
    subst hne
    refine ⟨by simp [runStages], fun h => absurd rfl h, ?_, fun _ => ⟨rfl, Nat.le_refl 0⟩, nofun⟩
    rw [ncard_reached]
    rfl
  obtain ⟨hmemory, hpropagations, hpoints, hhalts⟩ := run_spec net d entries m cap c hne
  have hiterations := stateAfter_iterations net d m hne cap c
  -- The balance of the last state, in the counters that the run reports.
  have hbalance : entries.toFinset.card + o.propagations =
      o.iterations + (stateAfter net d entries m o.iterations).queue.toList.length := by
    have h := balanced_stateAfter net d entries m o.iterations
    rwa [Balanced, hiterations, ← hpropagations] at h
  refine ⟨fun s hs => ?_, fun _ => ?_, ?_, fun hok => ?_, fun e herror => ?_⟩
  · -- The state stands at some place in the list, hence in the sequence of the states of the run.
    obtain ⟨n, hn⟩ := List.mem_iff_getElem?.mp hs
    obtain ⟨-, rfl⟩ := (getElem?_runStages hne).mp hn
    have hbook := bookkeeping_stateAfter net d entries m n
    exact ⟨hbook.nodup, hbook.reached, hbook.waiting_iff, balanced_stateAfter net d entries m n⟩
  · -- The last state at the head of the loop is the one after all visits.
    exact ⟨_, getLast?_runStages hne cap c, hmemory.symm, hiterations, hpropagations.symm⟩
  · rw [ncard_reached]
    exact hpoints
  · -- Nothing waits at the end, so the balance loses its last term and every reached point is
    -- marked.
    have hempty := queue_empty_of_error?_none hne hok
    constructor
    · rw [hempty, List.length_nil] at hbalance
      exact hbalance.symm
    · calc o.flowPoints
          = (marked net entries (stateAfter net d entries m o.iterations)).card := by
            rw [marked_eq_region hempty, card_region]
            exact hpoints
        _ ≤ (stateAfter net d entries m o.iterations).iterations := card_marked_le net d entries m _
        _ = o.iterations := hiterations
  · -- Points wait at the end, so the visits are fewer.
    have hbusy := List.length_pos_iff.mpr (queue_ne_nil_of_error? hne herror)
    refine ⟨?_, hhalts.within⟩
    rw [hbalance]
    exact Nat.lt_add_of_pos_right hbusy

/-- Two commands that lead to each other, with the first one given twice as an entry. It counts as
one entry, in the run that comes to its fixed point and in the run that its cap stops before. -/
theorem counters_balance_ring :
    let o (cap : Nat) := run Network.ring labels cap none [0, 0] {}
    (o 20).error? "labels" = none ∧ (o 20).iterations = 1 + (o 20).propagations ∧
      (o 20).flowPoints ≤ (o 20).iterations ∧
      (o 1).error? "labels" = some (.noFixedPoint "labels" 1 2) ∧
      (o 1).iterations < 1 + (o 1).propagations ∧ (o 1).iterations ≤ 1 := by
  intro o
  have hok : (o 20).error? "labels" = none := by decide +kernel
  have hfails : (o 1).error? "labels" = some (.noFixedPoint "labels" 1 2) := by decide +kernel
  obtain ⟨-, -, -, hsuccess, -⟩ :=
    counters_balance Network.ring labels [0, 0] {} "labels" 20 none
  obtain ⟨-, -, -, -, hfailure⟩ :=
    counters_balance Network.ring labels [0, 0] {} "labels" 1 none
  obtain ⟨hbalance, hpoints⟩ := hsuccess hok
  obtain ⟨hfewer, hcap⟩ := hfailure _ hfails
  exact ⟨hok, hbalance, hpoints, hfails, hfewer, hcap⟩

end Engine

end ScriptFlow
