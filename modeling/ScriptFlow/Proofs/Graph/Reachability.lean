import ScriptFlow.Graph.Traversal
import Mathlib.Algebra.BigOperators.Group.Finset.Basic
import Mathlib.Logic.Relation

/-!
# Reachability

The traversal lists exactly the points that can be reached along edges. The bound on its steps is
never the reason it stops: each step takes one point off the stack, and the points still to be
pushed are at most the edges out of the points not seen yet.

Main statements: `mem_reachable` for one root, `mem_reachableFrom` for a list of entries.
-/

namespace ScriptFlow

namespace Network

/-- There is a way along edges, perhaps an empty one. -/
def Reaches (net : Network) : Nat → Nat → Prop :=
  Relation.ReflTransGen fun p q => q ∈ net.successors p

/-- A point that can be reached from one of the entries. -/
def ReachedFrom (net : Network) (entries : List Nat) (q : Nat) : Prop :=
  ∃ e ∈ entries, net.Reaches e q

variable {net : Network} {entries : List Nat}

theorem ReachedFrom.of_mem {e : Nat} (h : e ∈ entries) : net.ReachedFrom entries e :=
  ⟨e, h, .refl⟩

theorem ReachedFrom.step {p q : Nat} (h : net.ReachedFrom entries p)
    (hq : q ∈ net.successors p) : net.ReachedFrom entries q := by
  obtain ⟨e, he, hep⟩ := h
  exact ⟨e, he, hep.tail hq⟩

/-- What holds of the entries and passes along edges holds of every reached point. -/
theorem ReachedFrom.induction {P : Nat → Prop} (hentry : ∀ e ∈ entries, P e)
    (hstep : ∀ p q, net.ReachedFrom entries p → P p → q ∈ net.successors p → P q) {q : Nat}
    (h : net.ReachedFrom entries q) : P q := by
  obtain ⟨e, he, heq⟩ := h
  -- Along the way from the entry; every point before the last is reached by the piece so far.
  induction heq with
  | refl => exact hentry e he
  | tail hep hq ih => exact hstep _ _ ⟨e, he, hep⟩ ih hq

/-- A reached point is an entry or comes after a reached point. -/
theorem ReachedFrom.mem_or_step {q : Nat} (h : net.ReachedFrom entries q) :
    q ∈ entries ∨ ∃ p, net.ReachedFrom entries p ∧ q ∈ net.successors p := by
  obtain ⟨e, he, heq⟩ := h
  cases heq with
  | refl => exact Or.inl he
  | tail hep hq => exact Or.inr ⟨_, ⟨e, he, hep⟩, hq⟩

/-! ## Lists without repetitions -/

/-- A list keeps one of each of its points, without those seen before. -/
theorem mem_distinct {l : List Nat} {seen : PointSet} {q : Nat} :
    q ∈ distinct l seen ↔ q ∈ l ∧ seen.contains q = false := by
  induction l generalizing seen with
  | nil => simp [distinct]
  -- The first point is left out if it was seen before; otherwise it counts as seen from then on.
  | cons p rest ih =>
    by_cases hp : seen.contains p = true
    · simp only [distinct, hp, if_true, ih, List.mem_cons]
      constructor
      · rintro ⟨hq, hseen⟩
        exact ⟨Or.inr hq, hseen⟩
      · rintro ⟨rfl | hq, hseen⟩
        · rw [hp] at hseen
          exact absurd hseen (by simp)
        · exact ⟨hq, hseen⟩
    · simp only [distinct, hp, Bool.false_eq_true, if_false, List.mem_cons, ih,
        PointMap.contains_mark]
      by_cases hq : q = p
      · subst hq
        simpa using hp
      · simp [hq]

theorem nodup_distinct (l : List Nat) (seen : PointSet) : (distinct l seen).Nodup := by
  induction l generalizing seen with
  | nil => exact List.nodup_nil
  | cons p rest ih =>
    unfold distinct
    split
    · exact ih seen
    · -- The first point is marked before the rest is gone through.
      refine List.nodup_cons.mpr ⟨fun hp => ?_, ih _⟩
      have hseen := (mem_distinct.mp hp).2
      simp at hseen

/-! ## The bound on the steps -/

/-- The number of edges out of points not seen yet. -/
def unseenEdges (net : Network) (seen : PointSet) : Nat :=
  ∑ p ∈ (Finset.range net.points.size).filter (fun p => seen.contains p = false),
    (net.outgoing p).length

theorem outgoing_of_size_le {p : Nat} (h : net.points.size ≤ p) : net.outgoing p = [] := by
  simp [outgoing, Array.getElem?_eq_none h]

/-- Seeing a point takes its edges out of the count. -/
theorem unseenEdges_mark (net : Network) {seen : PointSet} {p : Nat}
    (hp : seen.contains p = false) :
    unseenEdges net (PointMap.mark seen p) + (net.outgoing p).length = unseenEdges net seen := by
  unfold unseenEdges
  -- Marking `p` takes it out of the range summed over, if it is a point of the network at all.
  have herase : (Finset.range net.points.size).filter
        (fun q => (PointMap.mark seen p).contains q = false) =
      ((Finset.range net.points.size).filter (fun q => seen.contains q = false)).erase p := by
    ext q
    by_cases hq : q = p <;> simp [hq]
  rw [herase]
  by_cases hlt : p < net.points.size
  · -- A point of the network gives up its edges.
    exact Finset.sum_erase_add _ _ (by simp [hlt, hp])
  · -- A point that does not exist has no edges to give up.
    rw [Finset.erase_eq_of_notMem (by simp [hlt]), outgoing_of_size_le (Nat.le_of_not_lt hlt)]
    simp

private theorem foldl_outgoing_eq (l : List FlowPoint) (n : Nat) :
    l.foldl (fun n p => n + p.outgoing.size) n =
      n + ∑ i ∈ Finset.range l.length, ((l[i]?.map fun p => p.outgoing.toList).getD []).length := by
  -- By induction on the points, each of which adds its own edges at the front of the sum.
  induction l generalizing n with
  | nil => simp
  | cons p rest ih =>
    rw [List.foldl_cons, ih, List.length_cons, Finset.sum_range_succ']
    simp only [List.getElem?_cons_succ, List.getElem?_cons_zero, Option.map_some, Option.getD_some,
      Array.length_toList]
    omega

/-- The walk is given a step for its root and one for each edge. -/
theorem walkBound_eq (net : Network) : net.walkBound = 1 + unseenEdges net .empty := by
  unfold walkBound unseenEdges
  rw [← Array.foldl_toList, foldl_outgoing_eq]
  simp [outgoing]

/-! ## What the traversal lists -/

/-- Only points that can be reached from the stack are listed. -/
theorem reaches_of_mem_walk {steps : Nat} {stack : List Nat} {seen : PointSet} {q : Nat}
    (h : q ∈ net.walk steps stack seen) : ∃ p ∈ stack, net.Reaches p q := by
  -- A point pushed by `p` is one edge away from it, so `p` on the stack stands for it.
  induction steps generalizing stack seen with
  | zero => simp [walk] at h
  | succ steps ih =>
    cases stack with
    | nil => simp [walk] at h
    | cons p stack =>
      unfold walk at h
      split at h
      · -- A point seen before is taken off and changes nothing.
        obtain ⟨r, hr, hrq⟩ := ih h
        exact ⟨r, List.mem_cons_of_mem p hr, hrq⟩
      · rcases List.mem_cons.mp h with rfl | h
        · exact ⟨q, List.mem_cons_self, .refl⟩
        · obtain ⟨r, hr, hrq⟩ := ih h
          -- A point on the new stack was pushed by `p`, or it stood below it.
          rcases List.mem_append.mp hr with hr | hr
          · exact ⟨p, List.mem_cons_self, .head (List.mem_filter.mp hr).1 hrq⟩
          · exact ⟨r, List.mem_cons_of_mem p hr, hrq⟩

/-- Listing a point pushes at most one point for each of its edges. -/
theorem length_unseen_successors_le (net : Network) (seen : PointSet) (p : Nat) :
    ((net.successors p).filter fun q => !seen.contains q).length ≤ (net.outgoing p).length := by
  refine (List.length_filter_le _ _).trans ?_
  simp [successors]

/-- What is found after `p` was marked was seen before, or is `p` itself. -/
theorem found_of_found_mark {seen : PointSet} {p q : Nat} {l : List Nat}
    (h : (PointMap.mark seen p).contains q = true ∨ q ∈ l) :
    seen.contains q = true ∨ q ∈ p :: l := by
  rcases h with hq | hq
  · rw [PointMap.contains_mark, Bool.or_eq_true, decide_eq_true_eq] at hq
    rcases hq with rfl | hq
    · exact Or.inr List.mem_cons_self
    · exact Or.inl hq
  · exact Or.inr (List.mem_cons_of_mem p hq)

/-- With enough steps the list holds the whole stack and every successor of what it holds, except
for points seen before. -/
theorem walk_closed (net : Network) (steps : Nat) (stack : List Nat) (seen : PointSet)
    (h : stack.length + unseenEdges net seen ≤ steps) :
    (∀ q ∈ stack, seen.contains q = true ∨ q ∈ net.walk steps stack seen) ∧
      ∀ p ∈ net.walk steps stack seen, ∀ q ∈ net.successors p,
        seen.contains q = true ∨ q ∈ net.walk steps stack seen := by
  induction steps generalizing stack seen with
  | zero =>
    have hnil : stack = [] := List.eq_nil_of_length_eq_zero (by omega)
    simp [hnil, walk]
  | succ steps ih =>
    cases stack with
    | nil => simp [walk]
    | cons p stack =>
      rw [List.length_cons] at h
      by_cases hp : seen.contains p = true
      · -- The point was seen before, so the step only takes it off.
        obtain ⟨hstack, hclosed⟩ := ih stack seen (by omega)
        simp only [walk, hp, if_true]
        refine ⟨fun q hq => ?_, hclosed⟩
        rcases List.mem_cons.mp hq with rfl | hq
        · exact Or.inl hp
        · exact hstack q hq
      · -- The edges out of `p` that are pushed are no longer counted as unseen.
        have hp' : seen.contains p = false := by simpa using hp
        have hbound := unseenEdges_mark net hp'
        have hpushed := length_unseen_successors_le net (PointMap.mark seen p) p
        obtain ⟨hstack, hclosed⟩ := ih
          ((net.successors p).filter (fun q => !(PointMap.mark seen p).contains q) ++ stack)
          (PointMap.mark seen p) (by rw [List.length_append]; omega)
        simp only [walk, hp, Bool.false_eq_true, if_false]
        refine ⟨fun q hq => ?_, fun r hr q hq => ?_⟩
        · rcases List.mem_cons.mp hq with rfl | hq
          · exact Or.inr List.mem_cons_self
          · exact found_of_found_mark (hstack q (List.mem_append_right _ hq))
        · rcases List.mem_cons.mp hr with rfl | hr
          · -- A successor of `p` was seen before, is `p` itself or was pushed.
            by_cases hmark : (PointMap.mark seen r).contains q = true
            · exact found_of_found_mark (Or.inl hmark)
            · exact found_of_found_mark (hstack q (List.mem_append_left _
                (List.mem_filter.mpr ⟨hq, by simpa using hmark⟩)))
          · exact found_of_found_mark (hclosed r hr q hq)

/-- **The traversal is exact.** It lists the points that can be reached from its root. -/
theorem mem_reachable {root q : Nat} : q ∈ net.reachable root ↔ net.Reaches root q := by
  unfold reachable
  constructor
  · intro h
    -- All that the stack holds at the start is the root.
    obtain ⟨p, hp, hpq⟩ := reaches_of_mem_walk h
    rw [List.mem_singleton.mp hp] at hpq
    exact hpq
  · intro h
    -- Nothing is seen before the start, so the list is closed under edges without exception.
    obtain ⟨hroot, hclosed⟩ := walk_closed net net.walkBound [root] .empty
      (by rw [walkBound_eq, List.length_singleton])
    induction h with
    | refl => simpa using hroot root List.mem_cons_self
    | tail _ hq ih => simpa using hclosed _ ih _ hq

/-- The points a run works on are those that can be reached from its entries. -/
theorem mem_reachableFrom {q : Nat} :
    q ∈ net.reachableFrom entries ↔ net.ReachedFrom entries q := by
  unfold reachableFrom ReachedFrom
  rw [mem_distinct, List.mem_flatMap]
  simp [mem_reachable]

theorem nodup_reachableFrom (net : Network) (entries : List Nat) :
    (net.reachableFrom entries).Nodup :=
  nodup_distinct _ _

end Network

end ScriptFlow
