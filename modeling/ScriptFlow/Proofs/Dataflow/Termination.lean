import ScriptFlow.Proofs.Dataflow.WorkList
import ScriptFlow.Dataflow.Trace
import Mathlib.Algebra.Order.BigOperators.Group.Finset

/-!
# Runs that come to an end

A visit takes one point off the queue and may put others on it, so the length of the queue alone
says nothing. What falls with every visit is the length of the queue together with the edges that
values can still be passed along: each point gets a budget of visits that may change its value,
and each such visit costs as many queue places as the point has edges.

Main statements: `Budgets.iterations_le`, the budgets bound the visits of every run, and
`Budgets.error?_eq_none`, a run whose cap covers the budgets succeeds.
-/

namespace ScriptFlow

namespace Engine

variable {T : Type} {net : Network} {d : Domain T} {entries : List Nat} {m : Memory T}

/-- The points reached from the entries as a finite set. -/
def region (net : Network) (entries : List Nat) : Finset Nat :=
  (net.reachableFrom entries).toFinset

theorem mem_region {q : Nat} : q ∈ region net entries ↔ net.ReachedFrom entries q := by
  rw [region, List.mem_toFinset, Network.mem_reachableFrom]

/-- The edges out of reached points, each counted once per visit its source has left. -/
def openEdges (net : Network) (entries : List Nat) (budget : Nat → Nat) : Nat :=
  ∑ p ∈ region net entries, budget p * (net.outgoing p).length

/-- A budget that falls at one point frees the edges out of it. -/
theorem openEdges_add_le {budget budget' : Nat → Nat} {p : Nat} (hp : net.ReachedFrom entries p)
    (hle : ∀ q, budget' q ≤ budget q) (hlt : budget' p < budget p) :
    openEdges net entries budget' + (net.outgoing p).length ≤ openEdges net entries budget := by
  unfold openEdges
  -- Split the sum at the point: it pays its own edges, the others pay nothing.
  rw [← Finset.add_sum_erase _ _ (mem_region.mpr hp),
    ← Finset.add_sum_erase _ _ (mem_region.mpr hp)]
  have hrest : ∑ q ∈ (region net entries).erase p, budget' q * (net.outgoing q).length ≤
      ∑ q ∈ (region net entries).erase p, budget q * (net.outgoing q).length :=
    Finset.sum_le_sum fun q _ => Nat.mul_le_mul_right _ (hle q)
  have hhead : budget' p * (net.outgoing p).length + (net.outgoing p).length ≤
      budget p * (net.outgoing p).length := by
    rw [← Nat.succ_mul]
    exact Nat.mul_le_mul_right _ hlt
  omega

theorem openEdges_mono (net : Network) (entries : List Nat) {budget budget' : Nat → Nat}
    (hle : ∀ q, budget' q ≤ budget q) :
    openEdges net entries budget' ≤ openEdges net entries budget :=
  Finset.sum_le_sum fun q _ => Nat.mul_le_mul_right _ (hle q)

/-- Leaving out repetitions makes no list longer. -/
theorem length_distinct_le (l : List Nat) (seen : PointSet) :
    (Network.distinct l seen).length ≤ l.length := by
  induction l generalizing seen with
  | nil => exact Nat.le_refl 0
  | cons p rest ih =>
    unfold Network.distinct
    split
    · exact (ih seen).trans (Nat.le_succ _)
    · exact Nat.succ_le_succ (ih _)

theorem length_distinct_entries (entries : List Nat) :
    (Network.distinct entries .empty).length = entries.toFinset.card := by
  rw [← List.toFinset_card_of_nodup (Network.nodup_distinct entries .empty)]
  congr 1
  ext q
  simp [Network.mem_distinct]

section Budget

variable {budget : Nat → Nat → Nat}

/-- Budgets for the states of a run: they never rise, and a visit that does not settle uses up
part of the budget of its point. -/
structure Budgets (net : Network) (d : Domain T) (entries : List Nat) (m : Memory T)
    (budget : Nat → Nat → Nat) : Prop where
  le : ∀ n q, budget (n + 1) q ≤ budget n q
  lt : ∀ n p queue, (stateAfter net d entries m n).queue.pop? = some (p, queue) →
    settled net d (entrySet entries) (stateAfter net d entries m n).memory p = false →
      budget (n + 1) p < budget n p

/-- Every visit lowers the number of queued points and open edges. -/
-- A busy state visits some point, which may settle or not.
theorem Budgets.step (h : Budgets net d entries m budget) {n : Nat}
    (hbusy : (stateAfter net d entries m n).queue.toList ≠ []) :
    (stateAfter net d entries m (n + 1)).queue.toList.length +
        openEdges net entries (budget (n + 1)) + 1 ≤
      (stateAfter net d entries m n).queue.toList.length + openEdges net entries (budget n) := by
  cases hpop : (stateAfter net d entries m n).queue.pop? with
  | none => exact absurd (Queue.pop?_eq_none.mp hpop) hbusy
  | some next =>
    obtain ⟨p, queue⟩ := next
    rw [stateAfter_succ, turn_of_pop? hpop, advance_queue, List.length_append,
      Queue.toList_of_pop? hpop, List.length_cons]
    -- A settled visit only takes its point off; any other one pays for what it queues.
    cases hsettled : settled net d (entrySet entries) (stateAfter net d entries m n).memory p with
    | true =>
      have hopen := openEdges_mono net entries (h.le n)
      simp only [if_true, List.length_nil]
      omega
    | false =>
      have hopen := openEdges_add_le (reached_of_pop? hpop) (h.le n) (h.lt n p queue hpop hsettled)
      have hqueued := length_distinct_le (net.successors p)
        ((stateAfter net d entries m n).waiting.erase p)
      rw [Network.successors, List.length_map] at hqueued
      simp only [Bool.false_eq_true, if_false]
      rw [Network.successors]
      omega

/-- The visits made so far are paid for by what was queued and open at the start. -/
theorem Budgets.visits_le (h : Budgets net d entries m budget) (n : Nat)
    (hbusy : ∀ j < n, (stateAfter net d entries m j).queue.toList ≠ []) :
    n + (stateAfter net d entries m n).queue.toList.length + openEdges net entries (budget n) ≤
      (Network.distinct entries .empty).length + openEdges net entries (budget 0) := by
  -- Induction on the visits: what one visit pays is `Budgets.step`.
  induction n with
  | zero =>
    have hstart : (stateAfter net d entries m 0).queue.toList = Network.distinct entries .empty :=
      Queue.toList_ofList _
    rw [hstart]
    omega
  | succ n ih =>
    have hstep := h.step (hbusy n (Nat.lt_succ_self n))
    have hsofar := ih fun j hj => hbusy j (Nat.lt_succ_of_lt hj)
    omega

/-- A run, however it ends, makes no more visits than were paid for. -/
theorem Budgets.iterations_le (h : Budgets net d entries m budget) (cap : Nat) (c : Cancellation) :
    (run net d cap c entries m).iterations ≤
      entries.toFinset.card + openEdges net entries (budget 0) := by
  by_cases hne : entries = []
  · subst hne
    exact Nat.zero_le _
  · obtain ⟨-, -, -, hhalts⟩ := run_spec net d entries m cap c hne
    -- All visits were made on a busy queue, so they are paid for.
    have hpaid := h.visits_le _ fun j hj => (hhalts.busy j hj).1
    rw [length_distinct_entries] at hpaid
    omega

/-- A run that is not cancelled ends without noticing a cancellation. -/
theorem ending_ne_cancelled (net : Network) (d : Domain T) (entries : List Nat) (m : Memory T)
    (cap : Nat) : (run net d cap none entries m).ending ≠ .cancelled := by
  intro hending
  by_cases hne : entries = []
  -- Without entries the run is idle.
  · subst hne
    cases hending
  · obtain ⟨-, -, -, hhalts⟩ := run_spec net d entries m cap none hne
    have hreason := hhalts.reason
    rw [hending] at hreason
    exact absurd hreason.2 (by simp [Cancellation.noticed])

/-- A run that is never cancelled has no other error than that it found no fixed point. -/
theorem eq_noFixedPoint_of_error? {cap : Nat} {name : String} {e : RunError}
    (h : (run net d cap none entries m).error? name = some e) :
    ∃ iterations flowPoints, e = .noFixedPoint name iterations flowPoints := by
  have hnot := ending_ne_cancelled net d entries m cap
  unfold Outcome.error? at h
  -- Of the four endings only the last is an error that can still occur.
  split at h
  · cases h
  · cases h
  · exact absurd ‹_› hnot
  · cases h
    exact ⟨_, _, rfl⟩

/-- **A run that is not cancelled succeeds if its cap covers the distinct entries and the open
edges.** -/
theorem Budgets.error?_eq_none (h : Budgets net d entries m budget) {cap : Nat} (name : String)
    (hcap : entries.toFinset.card + openEdges net entries (budget 0) ≤ cap) :
    (run net d cap none entries m).error? name = none := by
  -- The bound counts the queue at the start, which is where the distinct entries stand.
  rw [← length_distinct_entries] at hcap
  by_cases hne : entries = []
  · subst hne
    rfl
  · obtain ⟨-, -, -, hhalts⟩ := run_spec net d entries m cap none hne
    obtain ⟨-, hbusy, hreason⟩ := hhalts
    unfold Outcome.error?
    cases hending : (run net d cap none entries m).ending with
    | idle => rfl
    | fixedPoint => rfl
    | cancelled => exact absurd hending (ending_ne_cancelled net d entries m cap)
    | exhausted =>
      -- All of the cap was used and a point still waits, which is more than was paid for.
      rw [hending] at hreason
      obtain ⟨hwaits, -, hk⟩ := hreason
      rw [hk] at hbusy hwaits
      have hpaid := h.visits_le (cap + 1) fun j hj => by
        rcases Nat.lt_or_eq_of_le (Nat.le_of_lt_succ hj) with hj | rfl
        · exact (hbusy j hj).1
        · exact hwaits
      omega

end Budget

end Engine

end ScriptFlow
