import ScriptFlow.Dataflow.Workbench
import ScriptFlow.Proofs.Graph.Reachability

/-!
# The traversal is a depth-first search

The traversal keeps the points that are still to be looked at on a stack, where a point can stand
several times, and leaves out points seen before both when it pushes and when it pops. A recursive
search has no stack: it visits a point, searches the successors of the point one after another, and
goes on with what comes next. The two visit the same points in the same order, because what lies on
the stack is what the recursive search still has to go through, in any state of either.

Main statement: `traversal_depthFirst`, which also tells what is reset.
-/

namespace ScriptFlow

namespace Network

/-! ## The recursive search -/

/-- The recursive search of a list of points: with the points in `visited` visited before, it
visits the points in `order`. -/
inductive DepthFirst (net : Network) : Finset Nat → List Nat → List Nat → Prop
  /-- There is nothing to search. -/
  | done {visited : Finset Nat} : DepthFirst net visited [] []
  /-- A point that was visited before is skipped. -/
  | skip {visited : Finset Nat} {p : Nat} {rest order : List Nat} :
      p ∈ visited → DepthFirst net visited rest order → DepthFirst net visited (p :: rest) order
  /-- A new point is visited, then its successors are searched, then the rest. -/
  | visit {visited : Finset Nat} {p : Nat} {rest below after : List Nat} :
      p ∉ visited → DepthFirst net (insert p visited) (net.successors p) below →
        DepthFirst net (insert p visited ∪ below.toFinset) rest after →
          DepthFirst net visited (p :: rest) (p :: (below ++ after))

namespace DepthFirst

variable {net : Network} {visited skipped : Finset Nat} {ps qs order order' : List Nat}

/-- The search has only one order. -/
theorem unique (h : net.DepthFirst visited ps order) (h' : net.DepthFirst visited ps order') :
    order = order' := by
  -- Induction on the one search: whether a point was visited decides which rule the other one used.
  induction h generalizing order' with
  | done =>
    cases h'
    rfl
  | skip hp _ ih =>
    cases h' with
    | skip _ hrest => exact ih hrest
    | visit hnew => exact absurd hp hnew
  | visit hnew _ _ ihbelow ihafter =>
    cases h' with
    | skip hp => exact absurd hp hnew
    | visit _ hbelow hafter =>
      obtain rfl := ihbelow hbelow
      obtain rfl := ihafter hafter
      rfl

/-- A new point is visited before everything else. -/
theorem head?_eq {p : Nat} (h : net.DepthFirst visited (p :: ps) order) (hnew : p ∉ visited) :
    order.head? = some p := by
  cases h with
  | skip hp => exact absurd hp hnew
  | visit => rfl

/-- No point is visited twice, and none that was visited before. -/
theorem nodup (h : net.DepthFirst visited ps order) :
    order.Nodup ∧ ∀ q ∈ order, q ∉ visited := by
  -- Induction on the search, with the points visited before as the sets grow.
  induction h with
  | done => simp
  | skip _ _ ih => exact ih
  | @visit visited p rest below after hnew _ _ ihbelow ihafter =>
    obtain ⟨hbelow, hbelownew⟩ := ihbelow
    obtain ⟨hafter, hafternew⟩ := ihafter
    simp only [Finset.mem_insert, Finset.mem_union, List.mem_toFinset, not_or]
      at hbelownew hafternew
    refine ⟨List.nodup_cons.mpr ⟨fun hp => ?_, List.nodup_append.mpr ⟨hbelow, hafter, ?_⟩⟩, ?_⟩
    · -- The point itself was visited when the others came.
      rcases List.mem_append.mp hp with hp | hp
      · exact (hbelownew p hp).1 rfl
      · exact (hafternew p hp).1.1 rfl
    · -- What was searched below it was visited when the rest came.
      rintro q hq _ hq' rfl
      exact (hafternew q hq').2 hq
    · intro q hq
      rcases List.mem_cons.mp hq with rfl | hq
      · exact hnew
      · rcases List.mem_append.mp hq with hq | hq
        · exact (hbelownew q hq).2
        · exact (hafternew q hq).1.2

/-- The search of two lists goes through the first one and then through the second. -/
theorem of_append (h : net.DepthFirst visited (ps ++ qs) order) :
    ∃ first second, order = first ++ second ∧ net.DepthFirst visited ps first ∧
      net.DepthFirst (visited ∪ first.toFinset) qs second := by
  induction ps generalizing visited order with
  | nil => exact ⟨[], order, rfl, .done, by simpa using h⟩
  | cons p rest ih =>
    cases h with
    | skip hp hrest =>
      obtain ⟨first, second, rfl, hfirst, hsecond⟩ := ih hrest
      exact ⟨first, second, rfl, .skip hp hfirst, hsecond⟩
    | @visit _ _ _ below _ hnew hbelow hafter =>
      -- The rest is searched with more points visited, so the hypothesis is for any `visited`.
      obtain ⟨first, second, rfl, hfirst, hsecond⟩ := ih hafter
      refine ⟨p :: (below ++ first), second, by simp, .visit hnew hbelow hfirst, ?_⟩
      have hvisited : insert p visited ∪ below.toFinset ∪ first.toFinset =
          visited ∪ (p :: (below ++ first)).toFinset := by
        ext q
        simp only [Finset.mem_union, Finset.mem_insert, List.mem_toFinset, List.mem_cons,
          List.mem_append]
        tauto
      rwa [← hvisited]

/-- Leaving out points that were visited before changes nothing: the search skips them anyway. -/
theorem of_filter (hskipped : skipped ⊆ visited)
    (h : net.DepthFirst visited (ps.filter (· ∉ skipped)) order) :
    net.DepthFirst visited ps order := by
  induction ps generalizing visited order with
  | nil => exact h
  | cons p rest ih =>
    by_cases hp : p ∈ skipped
    · rw [List.filter_cons_of_neg (by simpa using hp)] at h
      exact .skip (hskipped hp) (ih hskipped h)
    · rw [List.filter_cons_of_pos (by simpa using hp)] at h
      cases h with
      | skip hvisited hrest => exact .skip hvisited (ih hskipped hrest)
      | @visit _ _ _ below _ hnew hbelow hafter =>
        -- `skipped` stays what it was when the points were left out; only `visited` grows.
        have hgrown : skipped ⊆ insert p visited ∪ below.toFinset :=
          hskipped.trans ((Finset.subset_insert p visited).trans Finset.subset_union_left)
        exact .visit hnew hbelow (ih hgrown hafter)

end DepthFirst

/-! ## The stack is what is left to search -/

variable (net : Network)

/-- With enough steps the traversal lists what the recursive search of its stack visits. -/
theorem depthFirst_walk (steps : Nat) (stack : List Nat) {seen : PointSet} {visited : Finset Nat}
    (hseen : ∀ q, seen.contains q = true ↔ q ∈ visited)
    (hsteps : stack.length + unseenEdges net seen ≤ steps) :
    net.DepthFirst visited stack (net.walk steps stack seen) := by
  -- On the steps, for every stack: each step takes a point off the stack, and what it pushes are
  -- edges of a point seen for the first time, which no later step follows again.
  induction steps generalizing stack seen visited with
  | zero =>
    obtain rfl : stack = [] := List.eq_nil_of_length_eq_zero (by omega)
    exact .done
  | succ steps ih =>
    cases stack with
    | nil => exact .done
    | cons p stack =>
      rw [List.length_cons] at hsteps
      by_cases hp : seen.contains p = true
      · rw [walk, if_pos hp]
        exact .skip ((hseen p).mp hp) (ih stack hseen (by omega))
      · rw [walk, if_neg hp]
        have hbound := unseenEdges_mark net (Bool.eq_false_iff.mpr hp)
        have hpushed := length_unseen_successors_le net (PointMap.mark seen p) p
        have hmarked : ∀ q, (PointMap.mark seen p).contains q = true ↔ q ∈ insert p visited := by
          intro q
          rw [PointMap.contains_mark, Bool.or_eq_true, decide_eq_true_eq, hseen, Finset.mem_insert]
        -- The pushed points come before the rest of the stack, so they are searched first.
        obtain ⟨below, after, horder, hbelow, hafter⟩ := (ih
          ((net.successors p).filter (fun q => !(PointMap.mark seen p).contains q) ++ stack)
          hmarked (by rw [List.length_append]; omega)).of_append
        have hfilter : (net.successors p).filter (fun q => !(PointMap.mark seen p).contains q) =
            (net.successors p).filter (· ∉ insert p visited) := by
          apply List.filter_congr
          intro q _
          simp [← hmarked]
        rw [hfilter] at hbelow
        dsimp only
        rw [horder]
        exact .visit (mt (hseen p).mpr hp) (hbelow.of_filter (Finset.Subset.refl _)) hafter

/-- From every root the traversal lists what the recursive search visits, as no step is missing. -/
theorem depthFirst_reachable (root : Nat) : net.DepthFirst ∅ [root] (net.reachable root) := by
  apply depthFirst_walk
  · simp
  · rw [walkBound_eq, List.length_singleton]

/-! ## The loop -/

/-- The state of the traversal between two turns of its loop. -/
structure Traversal where
  stack : List Nat
  seen : PointSet := .empty
  /-- The points visited so far. -/
  listed : List Nat := []

/-- One turn of the loop, which goes on as long as the stack is not empty. -/
def Traversal.turn (t : Traversal) : Traversal :=
  match t.stack with
  | [] => t
  | p :: stack =>
    if t.seen.contains p then { t with stack := stack }
    else
      let seen := PointMap.mark t.seen p
      { stack := (net.successors p).filter (fun q => !seen.contains q) ++ stack
        seen := seen
        listed := t.listed ++ [p] }

/-- So many turns list what the traversal lists in so many steps. -/
theorem Traversal.listed_turns (n : Nat) (t : Traversal) :
    ((turn net)^[n] t).listed = t.listed ++ net.walk n t.stack t.seen := by
  induction n generalizing t with
  -- Without steps neither of them goes on.
  | zero => simp [walk]
  | succ n ih =>
    rw [Function.iterate_succ_apply, ih]
    unfold turn
    split
    · -- The stack is empty, so both stand still.
      rename_i hstack
      simp only [hstack]
      cases n <;> simp [walk]
    · rename_i p stack hstack
      rw [hstack, walk]
      split
      · rfl
      · simp

/-- A turn takes one point off the stack, and it pushes no more points than there are edges that it
takes away from those still to be followed. -/
theorem Traversal.turn_lt {t : Traversal} (h : t.stack ≠ []) :
    (turn net t).stack.length + unseenEdges net (turn net t).seen <
      t.stack.length + unseenEdges net t.seen := by
  unfold turn
  split
  · contradiction
  · rename_i p stack hstack
    rw [hstack, List.length_cons]
    split
    · dsimp only
      omega
    · rename_i hp
      -- The edges of the new point leave the bound, which pays for what it pushes.
      have hbound := unseenEdges_mark net (Bool.eq_false_iff.mpr hp)
      have hpushed := length_unseen_successors_le net (PointMap.mark t.seen p) p
      dsimp only
      rw [List.length_append]
      omega

/-- The loop ends: after as many turns as there are points on the stack and edges still to be
followed, the stack is empty. -/
theorem Traversal.stack_turns {n : Nat} {t : Traversal}
    (h : t.stack.length + unseenEdges net t.seen ≤ n) : ((turn net)^[n] t).stack = [] := by
  induction n generalizing t with
  | zero =>
    rw [Function.iterate_zero_apply]
    exact List.eq_nil_of_length_eq_zero (by omega)
  | succ n ih =>
    by_cases hstack : t.stack = []
    · -- The loop has ended before.
      have hidle : turn net t = t := by simp [turn, hstack]
      rw [Function.iterate_fixed hidle, hstack]
    · rw [Function.iterate_succ_apply]
      have hless := turn_lt net hstack
      exact ih (by omega)

end Network

/-! ## Resetting markers -/

theorem PointMap.contains_foldl_erase {α : Type} (l : List Nat) (s : PointMap α) (q : Nat) :
    (l.foldl erase s).contains q = (!decide (q ∈ l) && s.contains q) := by
  induction l generalizing s with
  | nil => simp
  | cons p rest ih =>
    rw [List.foldl_cons, ih, contains_erase]
    by_cases hq : q = p <;> simp [hq]

namespace Workbench

variable {κ : Type} {V : κ → Type}

/-- **The traversal is the recursive depth-first search.** From every point of every network its
loop ends, and the points it lists are those of the recursive search in their order: first the
root, none twice, and exactly the points that can be reached. A reset removes both markers of these
points and leaves those of all others as they were. -/
theorem traversal_depthFirst (w : Workbench κ V) (root : Nat) :
    let net := w.network
    let ended := (Network.Traversal.turn net)^[net.walkBound] { stack := [root] }
    (ended.stack = [] ∧ ended.listed = net.reachable root) ∧
      (∀ order, net.DepthFirst ∅ [root] order ↔ order = net.reachable root) ∧
      (net.reachable root).head? = some root ∧ (net.reachable root).Nodup ∧
      (∀ q, q ∈ net.reachable root ↔ net.Reaches root q) ∧
      (∀ q ∈ net.reachable root, (w.reset root).analyzed.contains q = false ∧
        (w.reset root).visited.contains q = false) ∧
      ∀ q, q ∉ net.reachable root →
        (w.reset root).analyzed.contains q = w.analyzed.contains q ∧
          (w.reset root).visited.contains q = w.visited.contains q := by
  intro net ended
  have hsearch := net.depthFirst_reachable root
  refine ⟨⟨?_, ?_⟩, fun order => ⟨fun h => h.unique hsearch, ?_⟩, ?_, hsearch.nodup.1,
    fun q => Network.mem_reachable, fun q hq => ?_, fun q hq => ?_⟩
  · -- The bound counts the root and all edges.
    apply Network.Traversal.stack_turns
    rw [Network.walkBound_eq, List.length_singleton]
  · exact Network.Traversal.listed_turns net net.walkBound { stack := [root] }
  · rintro rfl
    exact hsearch
  · exact hsearch.head?_eq (Finset.notMem_empty root)
  · simp [reset, PointMap.contains_foldl_erase, net, hq]
  · simp [reset, PointMap.contains_foldl_erase, net, hq]

end Workbench

end ScriptFlow
