import ScriptFlow.Proofs.Dataflow.Truncation
import Mathlib.Order.Bounds.Basic

/-!
# When a cancellation is noticed

A run looks for its cancellation before the first visit and after every 128 visits, and only while
points wait. Three reasons to stop can meet at such a look. An empty queue comes first, so a
finished run is never given up; the cancellation comes before the cap, so a run that could not go
on anyway is still reported as cancelled. Away from the looks a cancelled run is the run that it
would have been.

Main statement: `cancellation_noticed_at_next_look`.
-/

namespace ScriptFlow

/-! ## Looks -/

namespace Cancellation

theorem noticed_none (visits : Nat) : noticed none visits = false := by
  simp [noticed]

/-- A cancellation is noticed at the looks that come after it. -/
theorem noticed_some_iff {n visits : Nat} :
    noticed (some n) visits = true ↔ 128 ∣ visits ∧ n ≤ visits := by
  simp [noticed, interval, Nat.dvd_iff_mod_eq_zero]

variable {n look : Nat}

theorem noticed_next (h : IsLeast {k | 128 ∣ k ∧ n ≤ k} look) : noticed (some n) look = true :=
  noticed_some_iff.mpr h.1

theorem not_noticed_before (h : IsLeast {k | 128 ∣ k ∧ n ≤ k} look) {visits : Nat}
    (hlt : visits < look) : noticed (some n) visits = false := by
  rw [Bool.eq_false_iff]
  intro hnoticed
  exact Nat.not_le.mpr hlt (h.2 (noticed_some_iff.mp hnoticed))

end Cancellation

namespace Engine

variable {T : Type}

/-! ## Where a cancelled loop stops -/

section Loop

variable {net : Network} {d : Domain T} {marks : PointSet} {c c' : Cancellation} {s : Progress T}
  {room k k' : Nat} {ending ending' : Ending}

/-- The state on which the loop stops decides the reason: an empty queue counts first, then the
cancellation. -/
theorem Halts.ending_eq (h : Halts net d marks c room s k ending) :
    ending =
      if ((turn net d marks)^[k] s).queue.toList = [] then .fixedPoint
      else if c.noticed (s.iterations + k) then .cancelled
      else .exhausted := by
  have hreason := h.reason
  -- The three reasons exclude each other: each one is read off its own condition.
  cases ending with
  | fixedPoint => rw [if_pos hreason]
  | cancelled =>
    obtain ⟨hbusy, hnoticed⟩ := hreason
    rw [if_neg hbusy, if_pos hnoticed]
  | exhausted =>
    obtain ⟨hbusy, hnot, -⟩ := hreason
    rw [if_neg hbusy, if_neg (Bool.eq_false_iff.mp hnot)]
  | idle => exact hreason.elim

/-- The loop stops in one place and for one reason. -/
theorem Halts.unique (h : Halts net d marks c room s k ending)
    (h' : Halts net d marks c room s k' ending') : k = k' ∧ ending = ending' := by
  have hk : k = k' := by
    -- A loop that stops earlier has used up its visits, and the other one has no more of them.
    rcases Nat.lt_trichotomy k k' with hlt | heq | hlt
    · have hroom := (h.of_lt h' hlt).2
      have hwithin := h'.within
      omega
    · exact heq
    · have hroom := (h'.of_lt h hlt).2
      have hwithin := h.within
      omega
  subst hk
  exact ⟨rfl, h.ending_eq.trans h'.ending_eq.symm⟩

/-- Two cancellations that look the same up to the place where one of the loops stops stop both
loops there. At a fixed point itself no look is taken. -/
theorem Halts.congr (h : Halts net d marks c room s k ending)
    (hbefore : ∀ j < k, c'.noticed (s.iterations + j) = c.noticed (s.iterations + j))
    (hlast : ending = .fixedPoint ∨ c'.noticed (s.iterations + k) = c.noticed (s.iterations + k)) :
    Halts net d marks c' room s k ending where
  within := h.within
  busy j hj := by
    rw [hbefore j hj]
    exact h.busy j hj
  reason := by
    have hreason := h.reason
    rcases hlast with rfl | hlast
    · exact hreason
    · rw [hlast]
      exact hreason

/-- Once no point waits, none ever does. -/
theorem busy_of_le {j : Nat} (hbusy : ((turn net d marks)^[k] s).queue.toList ≠ []) (hle : j ≤ k) :
    ((turn net d marks)^[j] s).queue.toList ≠ [] := by
  intro hempty
  apply hbusy
  -- An idle turn repeats the state, so the empty queue would still be there after `k` turns.
  have hidle : turn net d marks ((turn net d marks)^[j] s) = (turn net d marks)^[j] s := by
    simp [turn, Queue.pop?_eq_none.mpr hempty]
  rw [← Nat.sub_add_cancel hle, Function.iterate_add_apply, Function.iterate_fixed hidle]
  exact hempty

end Loop

/-! ## Runs -/

section Runs

variable {net : Network} {d : Domain T} {entries : List Nat} {m : Memory T} {cap n look : Nat}

/-- A run without cancellation and without a cap makes more than so many visits if and only if
points still wait after them. -/
theorem exists_longer_run_iff (hne : entries ≠ []) {k : Nat} :
    (∃ cap', k < (run net d cap' none entries m).iterations) ↔
      (stateAfter net d entries m k).queue.toList ≠ [] := by
  constructor
  · -- The longer run was busy when it began the next visit.
    rintro ⟨cap', hlt⟩
    obtain ⟨-, -, -, hhalts⟩ := run_spec net d entries m cap' none hne
    exact (hhalts.busy k hlt).1
  · intro hbusy
    refine ⟨k + 1, ?_⟩
    obtain ⟨-, -, -, hhalts⟩ := run_spec net d entries m (k + 1) none hne
    -- If it stopped before, then because of its cap, which allows one visit more.
    by_contra hle
    have hcap := (hhalts.of_busy (busy_of_le hbusy (Nat.not_lt.mp hle))
      (Cancellation.noticed_none _)).2
    omega

/-- No visits were made before the start, so the turns of the loop are the visits of the run. -/
theorem iterations_start_add (j : Nat) : (start net entries m).iterations + j = j :=
  Nat.zero_add j

/-- The next look is where a run stops that gets there with points waiting. -/
theorem run_of_noticed (hne : entries ≠ []) (hlook : IsLeast {k | 128 ∣ k ∧ n ≤ k} look)
    (hbusy : (stateAfter net d entries m look).queue.toList ≠ []) (hcap : look ≤ cap) :
    (run net d cap (some n) entries m).iterations = look ∧
      (run net d cap (some n) entries m).ending = .cancelled := by
  obtain ⟨-, -, -, hhalts⟩ := run_spec net d entries m cap (some n) hne
  -- The loop that the look stops: busy and unnoticed up to there, noticed there.
  have hstop : Halts net d (entrySet entries) (some n) cap (start net entries m) look
      .cancelled := by
    refine ⟨hcap, fun j hj => ⟨busy_of_le hbusy hj.le, ?_⟩, hbusy, ?_⟩
    · rw [iterations_start_add]
      exact Cancellation.not_noticed_before hlook hj
    · rw [iterations_start_add]
      exact Cancellation.noticed_next hlook
  -- A loop stops in one place only, so this is where the run stopped.
  exact hhalts.unique hstop

/-- A run that ends before the next look, or at it with no point waiting, does not notice its
cancellation. -/
theorem run_of_unnoticed (hne : entries ≠ []) (hlook : IsLeast {k | 128 ∣ k ∧ n ≤ k} look)
    (hfree : ¬ ((stateAfter net d entries m look).queue.toList ≠ [] ∧ look ≤ cap)) :
    run net d cap (some n) entries m = run net d cap none entries m := by
  obtain ⟨-, -, -, hhalts⟩ := run_spec net d entries m cap (some n) hne
  obtain ⟨-, -, -, hplain⟩ := run_spec net d entries m cap none hne
  generalize hk : (run net d cap none entries m).iterations = k at hplain
  generalize hending : (run net d cap none entries m).ending = ending at hplain
  -- Before the look the two cancellations cannot be told apart.
  have hsame : ∀ j < look, Cancellation.noticed (some n) ((start net entries m).iterations + j) =
      Cancellation.noticed none ((start net entries m).iterations + j) := by
    intro j hj
    rw [iterations_start_add, Cancellation.not_noticed_before hlook hj, Cancellation.noticed_none]
  have hstop : Halts net d (entrySet entries) (some n) cap (start net entries m) k ending := by
    rcases Nat.lt_or_ge k look with hlt | hge
    · -- The plain run stops before the look, where both see the same.
      exact hplain.congr (fun j hj => hsame j (hj.trans hlt)) (Or.inr (hsame k hlt))
    · -- The run gets as far as the look, so its cap allows that and no point waits there.
      have hempty : (stateAfter net d entries m look).queue.toList = [] := by
        by_contra hbusy
        exact hfree ⟨hbusy, hge.trans hplain.within⟩
      -- A busy plain run would have gone on to a visit at the look, where the queue is empty.
      have hk : k = look := by
        by_contra hne'
        exact (hplain.busy look (by omega)).1 hempty
      subst hk
      refine hplain.congr hsame (Or.inl ?_)
      exact hplain.ending_eq.trans (if_pos hempty)
  obtain ⟨hiterations, hends⟩ := hhalts.unique hstop
  exact run_congr hne (hiterations.trans hk.symm) (hends.trans hending.symm)

/-- **A cancellation is noticed at the next look and nowhere else.** Take any domain, network,
entries, memory and cap, let the run be cancelled during its `n`-th visit, or before it starts if
`n` is zero, and let `look` be the least multiple of 128 that is not below `n`. If the run would
make more visits than that without cancellation and cap, and its cap allows so many, it ends as
cancelled after exactly these visits, with the memory and the counters that the run without
cancellation has there; before the first visit that is a memory in which every reached point is
cleared. In all other cases the run is the one without cancellation. -/
theorem cancellation_noticed_at_next_look (net : Network) (d : Domain T) {entries : List Nat}
    (hne : entries ≠ []) (m : Memory T) (name : String) (cap : Nat) {n look : Nat}
    (hlook : IsLeast {k | 128 ∣ k ∧ n ≤ k} look) :
    let o := run net d cap (some n) entries m
    let plain (cap' : Nat) := run net d cap' none entries m
    ((∃ cap', look < (plain cap').iterations) → look ≤ cap →
      o.error? name = some .cancelled ∧ o.iterations = look ∧
        o.flowPoints = (plain cap).flowPoints ∧
        (∀ cap', look ≤ (plain cap').iterations →
          ∃ s, (runStages net d entries m cap' none)[look]? = some s ∧ o.memory = s.memory ∧
            o.propagations = s.propagations) ∧
        (look = 0 → ∀ q, net.ReachedFrom entries q → o.memory.current.get? q = none ∧
          o.memory.input.get? q = none ∧ o.memory.analyzed.contains q = false)) ∧
      (¬ ((∃ cap', look < (plain cap').iterations) ∧ look ≤ cap) →
        o = plain cap ∧ o.error? name = (plain cap).error? name) := by
  intro o plain
  obtain ⟨hmemory, hpropagations, hpoints, -⟩ := run_spec net d entries m cap (some n) hne
  rw [exists_longer_run_iff hne]
  constructor
  · intro hbusy hcap
    obtain ⟨hiterations, hending⟩ := run_of_noticed hne hlook hbusy hcap
    rw [hiterations] at hmemory hpropagations
    refine ⟨by simp [o, Outcome.error?, hending], hiterations, ?_, fun cap' hreached => ?_, ?_⟩
    · -- The number of reached points does not depend on the cancellation.
      exact hpoints.trans (run_spec net d entries m cap none hne).2.2.1.symm
    · -- The state at the look is the same in all runs that get there.
      exact ⟨_, (getElem?_runStages hne).mpr ⟨hreached, rfl⟩, hmemory, hpropagations⟩
    · -- Before the first visit the memory is the one the run starts on.
      rintro rfl q hq
      have hmem : q ∈ net.reachableFrom entries := Network.mem_reachableFrom.mpr hq
      obtain ⟨hcurrent, hinput, hanalyzed⟩ :=
        Memory.foldl_forget (net.reachableFrom entries) m q
      have hcleared : o.memory = (net.reachableFrom entries).foldl Memory.forget m := hmemory
      rw [hcleared, hcurrent, hinput, hanalyzed]
      simp [hmem]
  · intro hfree
    have hsame : o = plain cap := run_of_unnoticed hne hlook hfree
    exact ⟨hsame, congrArg (Outcome.error? · name) hsame⟩

/-- A count that goes on without end, cancelled during its fifth visit under a cap of 128: the
cancellation is noticed after 128 visits, where the cap would have stopped the run as well. -/
theorem cancellation_noticed_at_next_look_ring :
    IsLeast {k | 128 ∣ k ∧ 5 ≤ k} 128 ∧
      (∃ cap', 128 < (run Network.ring counting cap' none [0] {}).iterations) ∧
      (run Network.ring counting 128 none [0] {}).error? "count" =
        some (.noFixedPoint "count" 128 2) ∧
      (run Network.ring counting 128 (some 5) [0] {}).error? "count" = some .cancelled ∧
      (run Network.ring counting 128 (some 5) [0] {}).iterations = 128 := by
  have hlook : IsLeast {k | 128 ∣ k ∧ 5 ≤ k} 128 :=
    ⟨by simp, fun k hk => Nat.le_of_dvd (by have := hk.2; omega) hk.1⟩
  have hlonger : ∃ cap', 128 < (run Network.ring counting cap' none [0] {}).iterations :=
    ⟨129, by decide +kernel⟩
  obtain ⟨hstops, -⟩ := cancellation_noticed_at_next_look Network.ring counting
    (show [0] ≠ [] by simp) {} "count" 128 hlook
  obtain ⟨herror, hiterations, -⟩ := hstops hlonger (Nat.le_refl 128)
  exact ⟨hlook, hlonger, by decide +kernel, herror, hiterations⟩

end Runs

end Engine

end ScriptFlow
