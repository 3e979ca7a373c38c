import ScriptFlow.Proofs.Dataflow.Walks
import ScriptFlow.Proofs.Graph.Rearrangement
import ScriptFlow.Proofs.Lattice.ItemSet

/-!
# Least solutions

Over a partial order in which merges are least upper bounds and transfers are monotone, the values
a successful run leaves are the least ones that satisfy the dataflow equations. A run starts with
no values at all rather than with least ones: a predecessor without a value is left out of the
merge, which keeps every value that exists below every assignment that the equations push
upwards.

The least solution is unique and the equations do not mention any order, so neither the order of
the entries nor that of the edges shows in the values.

Main statement: `run_least_solution`.
-/

namespace ScriptFlow

/-- Merges are least upper bounds, transfers at the points of a network are monotone, and the test
for sameness decides equality. -/
structure Domain.Ordered {T : Type} [PartialOrder T] (d : Domain T) (net : Network) : Prop where
  merge : ∀ a b, IsLUB {a, b} (d.merge a b)
  transfer : ∀ p, Monotone (d.transfer (net.site p))
  equal : ∀ a b, d.equal a b = true ↔ a = b

theorem Domain.Ordered.merge_le_iff {T : Type} [PartialOrder T] {d : Domain T} {net : Network}
    (h : d.Ordered net) {a b u : T} : d.merge a b ≤ u ↔ a ≤ u ∧ b ≤ u := by
  rw [isLUB_le_iff (h.merge a b)]
  simp [upperBounds]

/-- Orderedness speaks of the texts at the points, which two networks with the same edges share. -/
theorem Domain.Ordered.of_sameEdges {T : Type} [PartialOrder T] {d : Domain T}
    {net net' : Network} (h : d.Ordered net) (hsame : net.SameEdges net') : d.Ordered net' :=
  ⟨h.merge, fun p => hsame.site p ▸ h.transfer p, h.equal⟩

namespace Engine

variable {T : Type} {net net' : Network} {d : Domain T} {entries entries' : List Nat}
  {m m' : Memory T}

/-! ## The equations -/

/-- What the equations let flow into a point, for given values after the reached points: the
initial value at an entry, and the value after each reached predecessor. -/
def flowing (net : Network) (d : Domain T) (entries : List Nat) (s : Nat → T) (n : Nat) : List T :=
  (if n ∈ entries then [d.initial] else []) ++
    ((net.predecessors n).filter (· ∈ net.reachableFrom entries)).map s

/-- The values after all reached points are the transfers of what flows into them. -/
def Solution (net : Network) (d : Domain T) (entries : List Nat) (s : Nat → T) : Prop :=
  ∀ n, net.ReachedFrom entries n →
    s n = d.transfer (net.site n) (mergeAll d (flowing net d entries s n))

/-- The values after all reached points are above the transfers of what flows into them: the
equations do not push them further up. -/
def PostSolution [LE T] (net : Network) (d : Domain T) (entries : List Nat) (s : Nat → T) : Prop :=
  ∀ n, net.ReachedFrom entries n →
    d.transfer (net.site n) (mergeAll d (flowing net d entries s n)) ≤ s n

/-- A solution that is below every post-solution. -/
structure LeastSolution [LE T] (net : Network) (d : Domain T) (entries : List Nat)
    (s : Nat → T) : Prop where
  solution : Solution net d entries s
  least : ∀ s', PostSolution net d entries s' → ∀ n, net.ReachedFrom entries n → s n ≤ s' n

/-- What flows into a point depends on the values after reached points only. -/
theorem flowing_congr {s s' : Nat → T} (h : ∀ r, net.ReachedFrom entries r → s r = s' r) (n : Nat) :
    flowing net d entries s n = flowing net d entries s' n := by
  unfold flowing
  congr 1
  refine List.map_congr_left fun r hr => h r ?_
  exact Network.mem_reachableFrom.mp (by simpa using (List.mem_filter.mp hr).2)

/-- The sources of the equations at a point: the entry and the reached predecessors. -/
theorem mem_flowing {s : Nat → T} {n : Nat} {v : T} :
    v ∈ flowing net d entries s n ↔
      n ∈ entries ∧ v = d.initial ∨
        ∃ r ∈ net.predecessors n, net.ReachedFrom entries r ∧ s r = v := by
  unfold flowing
  rw [List.mem_append, List.mem_map]
  simp only [List.mem_filter, decide_eq_true_eq, Network.mem_reachableFrom, and_assoc]
  by_cases hn : n ∈ entries <;> simp [hn]

/-- Something flows into every reached point. -/
theorem flowing_ne_nil (hnet : net.Built) {s : Nat → T} {n : Nat}
    (hn : net.ReachedFrom entries n) : flowing net d entries s n ≠ [] := by
  -- A reached point is an entry or comes after a reached point.
  rcases hn.mem_or_step with he | ⟨r, hr, hsucc⟩
  · exact List.ne_nil_of_mem (mem_flowing.mpr (Or.inl ⟨he, rfl⟩))
  · exact List.ne_nil_of_mem
      (mem_flowing.mpr (Or.inr ⟨r, hnet.mem_predecessors_iff.mpr hsucc, hr, rfl⟩))

/-! ## Merges as least upper bounds -/

/-- Where merging two values gives their least upper bound, so does merging many. -/
theorem mergeAll_le_iff_of_keeps [Preorder T] {Q : T → Prop}
    (hkeeps : ∀ a b, Q a → Q b → Q (d.merge a b))
    (hle : ∀ a b u, Q a → Q b → Q u → (d.merge a b ≤ u ↔ a ≤ u ∧ b ≤ u)) {l : List T}
    (hne : l ≠ []) (hl : ∀ v ∈ l, Q v) {u : T} (hu : Q u) :
    mergeAll d l ≤ u ↔ ∀ v ∈ l, v ≤ u := by
  -- A merge is not below `u` exactly if one of its sides is not.
  have hnot := mergeAll_iff_exists (P := fun v => ¬ v ≤ u) hkeeps
    (fun a b ha hb => by rw [hle a b u ha hb hu, not_and_or]) hne hl
  rw [← not_iff_not, hnot]
  simp only [not_forall, exists_prop]

section Order

variable [PartialOrder T]

/-- In an ordered domain a merge of any values is below a bound exactly if all of them are. -/
theorem mergeAll_le_iff (hd : d.Ordered net) {l : List T} (hne : l ≠ []) {u : T} :
    mergeAll d l ≤ u ↔ ∀ v ∈ l, v ≤ u :=
  mergeAll_le_iff_of_keeps (Q := fun _ => True) (fun _ _ _ _ => trivial)
    (fun _ _ _ _ _ _ => hd.merge_le_iff) hne (fun _ _ => trivial) trivial

/-- Merges of larger values are larger. -/
theorem mergeAll_mono (hd : d.Ordered net) {l l' : List T} (hne : l ≠ []) (hne' : l' ≠ [])
    (h : ∀ v ∈ l, ∃ v' ∈ l', v ≤ v') : mergeAll d l ≤ mergeAll d l' := by
  rw [mergeAll_le_iff hd hne]
  intro v hv
  obtain ⟨v', hv', hle⟩ := h v hv
  exact hle.trans ((mergeAll_le_iff hd hne').mp le_rfl v' hv')

/-- A merge depends on which values are merged, not on their order or number. -/
theorem mergeAll_eq_of_mem_iff (hd : d.Ordered net) {l l' : List T} (hne : l ≠ [])
    (h : ∀ v, v ∈ l ↔ v ∈ l') : mergeAll d l = mergeAll d l' := by
  have hne' : l' ≠ [] := by
    obtain ⟨v, hv⟩ := List.exists_mem_of_ne_nil l hne
    exact List.ne_nil_of_mem ((h v).mp hv)
  apply le_antisymm
  · exact mergeAll_mono hd hne hne' fun v hv => ⟨v, (h v).mp hv, le_rfl⟩
  · exact mergeAll_mono hd hne' hne fun v hv => ⟨v, (h v).mpr hv, le_rfl⟩

/-! ## The values of a run are below every post-solution -/

/-- **No value of a run exceeds a post-solution**, however the run ends. -/
theorem value_le_postSolution (hnet : net.Built) (hd : d.Ordered net) (hunused : m.Unused)
    {s : Nat → T} (hs : PostSolution net d entries s) {cap : Nat} {c : Cancellation} {r : Nat}
    {v : T} (hv : (run net d cap c entries m).memory.current.get? r = some v) : v ≤ s r := by
  refine (values_run (I := fun r v => net.ReachedFrom entries r ∧ v ≤ s r) hnet hunused ?_ cap c
    hv).2
  -- It is enough that a visit keeps the bound: all values come from visits.
  intro current p hvalues hp harrives
  refine ⟨hp, ?_⟩
  -- Whatever arrives is the initial value or below a value that flows in.
  have hinput : inputAt net d (decide (p ∈ entries)) current p ≤
      mergeAll d (flowing net d entries s p) := by
    refine mergeAll_mono hd harrives (flowing_ne_nil hnet hp) fun v hv => ?_
    rcases mem_arriving.mp hv with ⟨he, rfl⟩ | ⟨r, hr, hcurrent⟩
    · exact ⟨d.initial, mem_flowing.mpr (Or.inl ⟨he, rfl⟩), le_rfl⟩
    · obtain ⟨hreached, hle⟩ := hvalues r v hcurrent
      -- The predecessor holds a value, so it is reached and flows in.
      exact ⟨s r, mem_flowing.mpr (Or.inr ⟨r, hr, hreached, rfl⟩), hle⟩
  calc outputAt net d (decide (p ∈ entries)) current p
      ≤ d.transfer (net.site p) (mergeAll d (flowing net d entries s p)) := hd.transfer p hinput
    _ ≤ s p := hs p hp

end Order

/-! ## The values of a successful run solve the equations -/

/-- On an unused memory what arrives in the end is what flows in. -/
theorem arriving_eq_flowing (hnet : net.Built) (hunused : m.Unused) {cap : Nat} {c : Cancellation}
    {value : Nat → T}
    (hvalue : ∀ n, net.ReachedFrom entries n →
      (run net d cap c entries m).memory.current.get? n = some (value n)) (n : Nat) :
    arriving net d (decide (n ∈ entries)) (run net d cap c entries m).memory.current n =
      flowing net d entries value n := by
  unfold arriving flowing
  rw [← List.filterMap_eq_map, List.filterMap_filter]
  congr 1
  · -- Entries are told by membership in both.
    simp
  · -- Exactly the reached predecessors hold a value, so both lists leave out the same points.
    refine List.filterMap_congr fun r _ => ?_
    by_cases hr : net.ReachedFrom entries r
    · simp [hvalue r hr, Network.mem_reachableFrom.mpr hr]
    · have hnone : (run net d cap c entries m).memory.current.get? r = none := by
        by_contra hsome
        obtain ⟨v, hv⟩ := Option.ne_none_iff_exists'.mp hsome
        exact hr (reached_of_value hnet hunused hv)
      have hmem : r ∉ net.reachableFrom entries := fun h => hr (Network.mem_reachableFrom.mp h)
      simp [hnone, hmem]

/-- The values of a successful run as a solution of the equations. -/
theorem exists_solution (hnet : net.Built) (hequal : ∀ a b, d.equal a b = true → a = b)
    (hunused : m.Unused) {cap : Nat} {c : Cancellation} {name : String}
    (hok : (run net d cap c entries m).error? name = none) :
    ∃ value, Solution net d entries value ∧ ∀ n, net.ReachedFrom entries n →
      (run net d cap c entries m).memory.current.get? n = some (value n) ∧
        (run net d cap c entries m).memory.input.get? n =
          some (mergeAll d (flowing net d entries value n)) := by
  let value n := ((run net d cap c entries m).memory.current.get? n).getD d.initial
  have hvalue : ∀ n, net.ReachedFrom entries n →
      (run net d cap c entries m).memory.current.get? n = some (value n) := by
    intro n hn
    -- Every reached point was given a value, so the default is never used.
    obtain ⟨-, -, -, hcurrent⟩ := solved_of_error?_none hnet hequal hok hn
    simp only [value, hcurrent, Option.getD_some]
  have hflow := arriving_eq_flowing hnet hunused hvalue
  refine ⟨value, fun n hn => ?_, fun n hn => ⟨hvalue n hn, ?_⟩⟩
  · -- The outcome the run computed, read as the equation at the point.
    obtain ⟨-, -, -, hcurrent⟩ := solved_of_error?_none hnet hequal hok hn
    rw [hvalue n hn, outputAt, inputAt, hflow] at hcurrent
    exact Option.some.inj hcurrent
  · obtain ⟨-, -, hinput, -⟩ := solved_of_error?_none hnet hequal hok hn
    rw [hinput, inputAt, hflow]

/-! ## Order does not matter -/

section Order

variable [PartialOrder T]

/-- The values of a successful run as the least solution of the equations. -/
theorem exists_leastSolution (hnet : net.Built) (hd : d.Ordered net) (hunused : m.Unused)
    {cap : Nat} {c : Cancellation} {name : String}
    (hok : (run net d cap c entries m).error? name = none) :
    ∃ value, LeastSolution net d entries value ∧ ∀ n, net.ReachedFrom entries n →
      (run net d cap c entries m).memory.current.get? n = some (value n) ∧
        (run net d cap c entries m).memory.input.get? n =
          some (mergeAll d (flowing net d entries value n)) := by
  obtain ⟨value, hsolution, hvalue⟩ :=
    exists_solution hnet (fun a b => (hd.equal a b).mp) hunused hok
  refine ⟨value, ⟨hsolution, fun s hs n hn => ?_⟩, hvalue⟩
  exact value_le_postSolution hnet hd hunused hs (hvalue n hn).1

/-- Networks with the same edges have the same equations. -/
theorem mergeAll_flowing_eq (hd : d.Ordered net) (hnet : net.Built) (hnet' : net'.Built)
    (h : net.SameEdges net') (hentries : ∀ e, e ∈ entries' ↔ e ∈ entries) (s : Nat → T) {n : Nat}
    (hn : net.ReachedFrom entries n) :
    mergeAll d (flowing net' d entries' s n) = mergeAll d (flowing net d entries s n) := by
  refine (mergeAll_eq_of_mem_iff hd (flowing_ne_nil hnet hn) fun v => ?_).symm
  rw [mem_flowing, mem_flowing, hentries]
  -- The flowing values are described by the edges alone, which the networks share.
  simp only [h.mem_predecessors hnet hnet', h.reachedFrom_iff hentries]

/-- A solution on one network is a post-solution on another with the same edges and entries. -/
theorem Solution.postSolution_of_sameEdges {s : Nat → T} (hs : Solution net d entries s)
    (hd : d.Ordered net) (hnet : net.Built) (hnet' : net'.Built) (h : net.SameEdges net')
    (hentries : ∀ e, e ∈ entries' ↔ e ∈ entries) : PostSolution net' d entries' s := by
  intro n hn
  have hn := (h.reachedFrom_iff hentries n).mp hn
  rw [h.site, mergeAll_flowing_eq hd hnet hnet' h hentries s hn]
  exact (hs n hn).ge

/-- Least solutions of the same equations are the same. -/
theorem LeastSolution.eq_of_sameEdges {s s' : Nat → T} (hs : LeastSolution net d entries s)
    (hs' : LeastSolution net' d entries' s') (hd : d.Ordered net) (hnet : net.Built)
    (hnet' : net'.Built) (h : net.SameEdges net') (hentries : ∀ e, e ∈ entries' ↔ e ∈ entries)
    {n : Nat} (hn : net.ReachedFrom entries n) : s' n = s n := by
  have hd' := hd.of_sameEdges h
  -- Each of the two solves the equations of the other network as well.
  apply le_antisymm
  · refine hs'.least s ?_ n ((h.reachedFrom_iff hentries n).mpr hn)
    exact hs.solution.postSolution_of_sameEdges hd hnet hnet' h hentries
  · refine hs.least s' ?_ n hn
    exact hs'.solution.postSolution_of_sameEdges hd' hnet' hnet h.symm fun e => (hentries e).symm

/-- **A successful run on an unused memory leaves the least solution of the equations**, for any
domain over a partial order with least upper bounds as merges. Hence every other successful run
that starts from the same points on a network with the same edges leaves the same values before
and after each of them, in whatever order entries are listed and edges were made. -/
theorem run_least_solution (hnet : net.Built) (hd : d.Ordered net) (hunused : m.Unused) {cap : Nat}
    {c : Cancellation} {name : String} (hok : (run net d cap c entries m).error? name = none) :
    (∃ value, LeastSolution net d entries value ∧ ∀ n, net.ReachedFrom entries n →
      (run net d cap c entries m).memory.current.get? n = some (value n)) ∧
      ∀ (net' : Network) (entries' : List Nat) (cap' : Nat) (c' : Cancellation) (m' : Memory T)
        (name' : String), net'.Built → net.SameEdges net' → (∀ e, e ∈ entries' ↔ e ∈ entries) →
        m'.Unused → (run net' d cap' c' entries' m').error? name' = none →
        ∀ n, net.ReachedFrom entries n →
          (run net' d cap' c' entries' m').memory.current.get? n =
              (run net d cap c entries m).memory.current.get? n ∧
            (run net' d cap' c' entries' m').memory.input.get? n =
              (run net d cap c entries m).memory.input.get? n := by
  obtain ⟨value, hleast, hvalue⟩ := exists_leastSolution hnet hd hunused hok
  refine ⟨⟨value, hleast, fun n hn => (hvalue n hn).1⟩, ?_⟩
  -- The other run leaves a least solution of its own equations, and these are the same equations.
  intro net' entries' cap' c' m' name' hnet' hsame hentries hunused' hok' n hn
  obtain ⟨value', hleast', hvalue'⟩ :=
    exists_leastSolution hnet' (hd.of_sameEdges hsame) hunused' hok'
  have heq : ∀ r, net.ReachedFrom entries r → value' r = value r :=
    fun r hr => hleast.eq_of_sameEdges hleast' hd hnet hnet' hsame hentries hr
  obtain ⟨hcurrent, hinput⟩ := hvalue n hn
  obtain ⟨hcurrent', hinput'⟩ := hvalue' n ((hsame.reachedFrom_iff hentries n).mpr hn)
  -- Both slots of both runs, written as merges and transfers of the common solution.
  rw [hcurrent, hinput, hcurrent', hinput', heq n hn,
    mergeAll_flowing_eq hd hnet hnet' hsame hentries value' hn, flowing_congr heq]
  exact ⟨rfl, rfl⟩

end Order

/-! ## Command names on a loop with an exit -/

/-- Command names form an ordered domain on every network: sets grow by union and by insertion. -/
theorem labels_ordered (net : Network) : labels.Ordered net where
  merge := ItemSet.isLUB_union
  transfer p := by
    intro a b hab
    dsimp only [labels]
    split
    · exact hab
    · exact ItemSet.insert_mono _ hab
  equal _ _ := decide_eq_true_iff

/-- Three commands with the given edges. -/
def threeCommands (pairs : List (Nat × Nat)) : Network :=
  (((Network.empty.newGraph.1.newPoint 0 "mkdir a").1.newPoint 0 "rm a").1.newPoint 0
    "touch b").1.linkAll pairs

theorem threeCommands_built (pairs : List (Nat × Nat)) : (threeCommands pairs).Built := by
  refine .linkAll (.newPoint 0 "touch b" (.newPoint 0 "rm a" (.newPoint 0 "mkdir a"
    (.newGraph .empty) ?_) ?_) ?_) pairs
  · decide
  · decide
  · decide

/-- The first two commands form a loop that is left at either of them. -/
def loopWithExit : Network := threeCommands [(0, 1), (1, 0), (0, 2), (1, 2)]

/-- The same loop with its edges made in the opposite order. -/
def loopWithExitReversed : Network := threeCommands [(1, 2), (0, 2), (1, 0), (0, 1)]

theorem loopWithExit_sameEdges : loopWithExit.SameEdges loopWithExitReversed :=
  Network.sameEdges_of_perm (List.reverse_perm [(1, 2), (0, 2), (1, 0), (0, 1)])

/-- The names collected at the exit are the same whichever way the loop was made and entered. -/
theorem run_least_solution_loopWithExit :
    loopWithExit.Built ∧ labels.Ordered loopWithExit ∧ ({} : Memory (ItemSet String)).Unused ∧
      (run loopWithExit labels 20 none [0, 1] {}).error? "labels" = none ∧
      (∃ value, LeastSolution loopWithExit labels [0, 1] value ∧
        ∀ n, loopWithExit.ReachedFrom [0, 1] n →
          (run loopWithExit labels 20 none [0, 1] {}).memory.current.get? n = some (value n)) ∧
      (run loopWithExitReversed labels 20 none [1, 0, 1] {}).memory.current.get? 2 =
        (run loopWithExit labels 20 none [0, 1] {}).memory.current.get? 2 := by
  have hok : (run loopWithExit labels 20 none [0, 1] {}).error? "labels" = none := by
    decide +kernel
  have hok' : (run loopWithExitReversed labels 20 none [1, 0, 1] {}).error? "labels" = none := by
    decide +kernel
  -- The entries differ in order and repetition only.
  have hentries : ∀ e, e ∈ [1, 0, 1] ↔ e ∈ [0, 1] := by grind
  have hreached : loopWithExit.ReachedFrom [0, 1] 2 :=
    (Network.ReachedFrom.of_mem List.mem_cons_self).step (by decide +kernel)
  obtain ⟨hleast, hsame⟩ := run_least_solution (threeCommands_built _) (labels_ordered loopWithExit)
    Memory.unused_empty hok
  refine ⟨threeCommands_built _, labels_ordered _, Memory.unused_empty, hok, hleast, ?_⟩
  exact (hsame loopWithExitReversed [1, 0, 1] 20 none {} "labels" (threeCommands_built _)
    loopWithExit_sameEdges hentries Memory.unused_empty hok' 2 hreached).1

end Engine

end ScriptFlow
