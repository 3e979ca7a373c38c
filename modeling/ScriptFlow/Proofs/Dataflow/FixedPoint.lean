import ScriptFlow.Dataflow.Trace
import ScriptFlow.Domains
import ScriptFlow.Proofs.Dataflow.WorkList
import ScriptFlow.Proofs.Graph.Construction

/-!
# Fixed points

A run that ends without an error has solved the dataflow equations: before every reached point
stands the merge of what arrives there, after it the transfer of that. Nothing is assumed about
the domain except that values counted as the same are the same.

The invariant has three parts beside the bookkeeping of the queue, each kept by every visit:
- `Covered`: entries and successors of visited points were visited or wait for a visit
- `Consistent`: a visited point that does not wait agrees with the present values before it
- `Fed`: something arrives at every waiting point

Main statement: `run_satisfies_equations`.
-/

namespace ScriptFlow

/-- No point holds a value of the domain. -/
def Memory.Unused {T : Type} (m : Memory T) : Prop :=
  ∀ p, m.current.get? p = none ∧ m.input.get? p = none

theorem Memory.unused_empty {T : Type} : ({} : Memory T).Unused :=
  fun _ => ⟨rfl, rfl⟩

namespace Engine

variable {T : Type} {net : Network} {d : Domain T} {entries : List Nat} {m : Memory T}

/-! ## Nothing is forgotten -/

/-- Entries, and successors of visited points, were visited or wait. -/
structure Covered (net : Network) (entries : List Nat) (s : Progress T) : Prop where
  entry : ∀ e ∈ entries, e ∈ s.queue.toList ∨ s.memory.analyzed.contains e = true
  successor : ∀ p q, net.ReachedFrom entries p → s.memory.analyzed.contains p = true →
    q ∈ net.successors p → q ∈ s.queue.toList ∨ s.memory.analyzed.contains q = true

/-- No reached point is marked at the start, whatever the markers were before. -/
theorem start_analyzed {q : Nat} (hq : net.ReachedFrom entries q) :
    (start net entries m).memory.analyzed.contains q = false := by
  have hmem : q ∈ net.reachableFrom entries := Network.mem_reachableFrom.mpr hq
  simp [start, (Memory.foldl_forget _ _ _).2.2, hmem]

theorem Covered.initial : Covered net entries (start net entries m) where
  entry e he := Or.inl (mem_start_queue.mpr he)
  successor p q hp hmarked := by
    rw [start_analyzed hp] at hmarked
    exact absurd hmarked (by simp)

section Visit

variable {marks : PointSet} {s : Progress T} {p : Nat} {queue : Queue Nat}

/-- A point that waited or was visited before a visit does so after it. -/
theorem Bookkeeping.known_advance (h : Bookkeeping net entries s)
    (hpop : s.queue.pop? = some (p, queue)) {q : Nat}
    (hq : q ∈ s.queue.toList ∨ s.memory.analyzed.contains q = true) :
    q ∈ (advance net d marks s p queue).queue.toList ∨
      (advance net d marks s p queue).memory.analyzed.contains q = true := by
  rw [h.mem_advance_queue hpop, advance_analyzed]
  rw [Queue.toList_of_pop? hpop, List.mem_cons] at hq
  rcases hq with (rfl | hq) | hq
  · -- The visited point is marked now.
    exact Or.inr (by simp)
  · exact Or.inl (Or.inl hq)
  · exact Or.inr (by simp [hq])

/-- No visit leaves a successor of a visited point behind. -/
theorem Covered.step (h : Covered net entries s) (hbook : Bookkeeping net entries s)
    (hpop : s.queue.pop? = some (p, queue)) :
    Covered net entries (advance net d marks s p queue) := by
  refine ⟨fun e he => hbook.known_advance hpop (h.entry e he), fun r q hr hmarked hq => ?_⟩
  rw [advance_analyzed, Bool.or_eq_true, decide_eq_true_eq] at hmarked
  by_cases hold : s.memory.analyzed.contains r = true
  · exact hbook.known_advance hpop (h.successor r q hr hold hq)
  · -- The point was visited for the first time, so its successors are queued.
    obtain rfl : r = p := hmarked.resolve_right hold
    have hunsettled : settled net d marks s.memory r = false := by
      simp [settled, hold]
    exact Or.inl ((hbook.mem_advance_queue hpop).mpr (Or.inr ⟨hunsettled, hq⟩))

end Visit

/-- Nothing is forgotten in any state of a run. -/
theorem covered_stateAfter (net : Network) (d : Domain T) (entries : List Nat) (m : Memory T)
    (n : Nat) : Covered net entries (stateAfter net d entries m n) :=
  stateAfter_induction net d entries m Covered.initial
    (fun n _ _ hpop h => h.step (bookkeeping_stateAfter net d entries m n) hpop) n

/-- Once the queue is empty, every reached point was visited. -/
theorem Covered.analyzed_of_empty {s : Progress T} (h : Covered net entries s)
    (hempty : s.queue.toList = []) {q : Nat} (hq : net.ReachedFrom entries q) :
    s.memory.analyzed.contains q = true := by
  -- Induction on the way from an entry: with nothing waiting, each point passes its mark on.
  refine hq.induction (P := fun q => s.memory.analyzed.contains q = true) (fun e he => ?_)
    fun p q hp hmarked hq => ?_
  · exact (h.entry e he).resolve_left (by simp [hempty])
  · exact (h.successor p q hp hmarked hq).resolve_left (by simp [hempty])

/-! ## Values agree with what arrives -/

/-- The value before a point depends only on the values after its predecessors. -/
theorem inputAt_congr {entry : Bool} {current current' : PointMap T} {q : Nat}
    (h : ∀ r ∈ net.predecessors q, current'.get? r = current.get? r) :
    inputAt net d entry current' q = inputAt net d entry current q := by
  unfold inputAt arriving
  rw [List.filterMap_congr h]

/-- A visited point that does not wait holds the values computed from the present ones. -/
def Consistent (net : Network) (d : Domain T) (entries : List Nat) (s : Progress T) : Prop :=
  ∀ q, net.ReachedFrom entries q → s.memory.analyzed.contains q = true → q ∉ s.queue.toList →
    s.memory.input.get? q = some (inputAt net d (decide (q ∈ entries)) s.memory.current q) ∧
      s.memory.current.get? q = some (outputAt net d (decide (q ∈ entries)) s.memory.current q)

theorem Consistent.initial : Consistent net d entries (start net entries m) := by
  intro q hq hmarked
  rw [start_analyzed hq] at hmarked
  exact absurd hmarked (by simp)

section Visit

variable {marks : PointSet} {s : Progress T} {p : Nat} {queue : Queue Nat}

/-- A settled visit writes back the value that was there. -/
theorem current_of_settled (hequal : ∀ a b, d.equal a b = true → a = b)
    (h : settled net d marks s.memory p = true) :
    s.memory.current.get? p = some (outputAt net d (marks.contains p) s.memory.current p) := by
  obtain ⟨-, hsame⟩ := Bool.and_eq_true_iff.mp h
  obtain ⟨v, hv, heq⟩ := (Option.any_eq_true ..).mp hsame
  rw [hv, hequal _ _ heq]

/-- A visit changes nothing before the points that do not wait after it: either it writes back
the old value, or every point its value flows into is queued. -/
theorem Bookkeeping.inputAt_advance (hbook : Bookkeeping net entries s) (hnet : net.Built)
    (hequal : ∀ a b, d.equal a b = true → a = b) (hpop : s.queue.pop? = some (p, queue)) {q : Nat}
    (hq : q ∉ (advance net d marks s p queue).queue.toList) (entry : Bool) :
    inputAt net d entry (advance net d marks s p queue).memory.current q =
      inputAt net d entry s.memory.current q := by
  refine inputAt_congr fun r hr => ?_
  rw [advance_current]
  by_cases hrp : r = p
  · subst hrp
    rw [if_pos rfl]
    cases hsettled : settled net d marks s.memory r with
    | true => exact (current_of_settled hequal hsettled).symm
    | false =>
      -- An unsettled visit would have put the point it flows into in the queue.
      have hsucc : q ∈ net.successors r := hnet.mem_predecessors_iff.mp hr
      exact absurd ((hbook.mem_advance_queue hpop).mpr (Or.inr ⟨hsettled, hsucc⟩)) hq
  · rw [if_neg hrp]

/-- A visit keeps every point that does not wait in agreement. -/
theorem Consistent.step (h : Consistent net d entries s) (hbook : Bookkeeping net entries s)
    (hnet : net.Built) (hequal : ∀ a b, d.equal a b = true → a = b)
    (hpop : s.queue.pop? = some (p, queue)) :
    Consistent net d entries (advance net d (entrySet entries) s p queue) := by
  intro q hreached hmarked hq
  unfold outputAt
  rw [hbook.inputAt_advance hnet hequal hpop hq, advance_input, advance_current]
  by_cases hqp : q = p
  · -- The visited point has just been given these values.
    subst hqp
    simp [outputAt]
  · rw [if_neg hqp, if_neg hqp]
    rw [advance_analyzed] at hmarked
    -- Any other point that does not wait now did not wait before, so it agreed before.
    refine h q hreached (by simpa [hqp] using hmarked) fun hold => ?_
    rw [Queue.toList_of_pop? hpop, List.mem_cons] at hold
    exact hq ((hbook.mem_advance_queue hpop).mpr (Or.inl (hold.resolve_left hqp)))

end Visit

/-- The points that do not wait agree in every state of a run. -/
theorem consistent_stateAfter (hnet : net.Built) (hequal : ∀ a b, d.equal a b = true → a = b)
    (entries : List Nat) (m : Memory T) (n : Nat) :
    Consistent net d entries (stateAfter net d entries m n) :=
  stateAfter_induction net d entries m Consistent.initial
    (fun n _ _ hpop h => h.step (bookkeeping_stateAfter net d entries m n) hnet hequal hpop) n

/-! ## Something always arrives -/

/-- Every waiting point is an entry or comes after a point with a value. -/
def Fed (net : Network) (entries : List Nat) (s : Progress T) : Prop :=
  ∀ q ∈ s.queue.toList,
    q ∈ entries ∨ ∃ r ∈ net.predecessors q, (s.memory.current.get? r).isSome = true

/-- Every point a visit puts in the queue has a value flowing into it. -/
theorem Fed.step {marks : PointSet} {s : Progress T} {p : Nat} {queue : Queue Nat}
    (h : Fed net entries s) (hbook : Bookkeeping net entries s) (hnet : net.Built)
    (hpop : s.queue.pop? = some (p, queue)) :
    Fed net entries (advance net d marks s p queue) := by
  intro q hq
  rcases (hbook.mem_advance_queue hpop).mp hq with hq | ⟨-, hq⟩
  · -- A point that waited already: values are never taken away.
    refine (h q (Queue.toList_of_pop? hpop ▸ List.mem_cons_of_mem p hq)).imp_right ?_
    rintro ⟨r, hr, hsome⟩
    refine ⟨r, hr, ?_⟩
    rw [advance_current]
    split
    · rfl
    · exact hsome
  · -- A successor of the visited point, which has a value now.
    refine Or.inr ⟨p, hnet.mem_predecessors_iff.mpr hq, ?_⟩
    rw [advance_current, if_pos rfl]
    rfl

/-- Only fed points wait, in every state of a run. -/
theorem fed_stateAfter (hnet : net.Built) (d : Domain T) (entries : List Nat) (m : Memory T)
    (n : Nat) : Fed net entries (stateAfter net d entries m n) :=
  stateAfter_induction net d entries m (fun _ hq => Or.inl (mem_start_queue.mp hq))
    (fun n _ _ hpop h => h.step (bookkeeping_stateAfter net d entries m n) hnet hpop) n

/-- Something arrives at every fed point. -/
theorem arriving_ne_nil {current : PointMap T} {q : Nat}
    (h : q ∈ entries ∨ ∃ r ∈ net.predecessors q, (current.get? r).isSome = true) :
    arriving net d (decide (q ∈ entries)) current q ≠ [] := by
  unfold arriving
  -- The initial value at an entry, else the value of the predecessor.
  rcases h with hq | ⟨r, hr, hsome⟩
  · simp [hq]
  · obtain ⟨v, hv⟩ := Option.isSome_iff_exists.mp hsome
    have hmem : v ∈ (net.predecessors q).filterMap current.get? :=
      List.mem_filterMap.mpr ⟨r, hr, hv⟩
    exact fun hnil => List.ne_nil_of_mem hmem (List.append_eq_nil_iff.mp hnil).2

/-- No visit of a run meets a point at which nothing arrives. -/
theorem arriving_ne_nil_of_pop? (hnet : net.Built) {n p : Nat} {queue : Queue Nat}
    (hpop : (stateAfter net d entries m n).queue.pop? = some (p, queue)) :
    arriving net d (decide (p ∈ entries)) (stateAfter net d entries m n).memory.current p ≠ [] :=
  arriving_ne_nil (fed_stateAfter hnet d entries m n p
    (Queue.toList_of_pop? hpop ▸ List.mem_cons_self))

/-! ## Successful runs -/

/-- A run without an error stops on the state of its sequence at which nothing waits. -/
theorem queue_empty_of_error?_none {cap : Nat} {c : Cancellation} {name : String}
    (hne : entries ≠ []) (hok : (run net d cap c entries m).error? name = none) :
    (stateAfter net d entries m (run net d cap c entries m).iterations).queue.toList = [] := by
  obtain ⟨-, -, -, hhalts⟩ := run_spec net d entries m cap c hne
  have hreason := hhalts.reason
  unfold Outcome.error? at hok
  -- Of the ways to end, only the fixed point is no error, and it means an empty queue.
  cases hending : (run net d cap c entries m).ending with
  | idle =>
    rw [hending] at hreason
    exact hreason.elim
  | fixedPoint =>
    rw [hending] at hreason
    exact hreason
  | cancelled => simp [hending] at hok
  | exhausted => simp [hending] at hok

/-- After a run without an error every reached point is marked, something arrives there, and its
two values are the ones computed from the values the run left. -/
theorem solved_of_error?_none (hnet : net.Built) (hequal : ∀ a b, d.equal a b = true → a = b)
    {cap : Nat} {c : Cancellation} {name : String}
    (hok : (run net d cap c entries m).error? name = none) {n : Nat}
    (hn : net.ReachedFrom entries n) :
    let memory := (run net d cap c entries m).memory
    memory.analyzed.contains n = true ∧
      arriving net d (decide (n ∈ entries)) memory.current n ≠ [] ∧
      memory.input.get? n = some (inputAt net d (decide (n ∈ entries)) memory.current n) ∧
      memory.current.get? n = some (outputAt net d (decide (n ∈ entries)) memory.current n) := by
  -- The two invariants of the run, read where it stopped.
  have hne : entries ≠ [] := by
    obtain ⟨e, he, -⟩ := hn
    exact List.ne_nil_of_mem he
  -- The run stopped on an empty queue, so no point is excused from being visited and consistent.
  have hempty := queue_empty_of_error?_none hne hok
  have hmarked : ∀ q, net.ReachedFrom entries q → _ := fun q hq =>
    (covered_stateAfter net d entries m _).analyzed_of_empty hempty hq
  have hvalues : ∀ q, net.ReachedFrom entries q → _ := fun q hq =>
    consistent_stateAfter hnet hequal entries m _ q hq (hmarked q hq) (by rw [hempty]; simp)
  intro memory
  have hmemory : memory = _ := (run_spec net d entries m cap c hne).1
  rw [hmemory]
  refine ⟨hmarked n hn, arriving_ne_nil ?_, hvalues n hn⟩
  -- Unless it is an entry, a reached point comes after a reached point, which holds a value.
  refine hn.mem_or_step.imp_right ?_
  rintro ⟨r, hr, hsucc⟩
  refine ⟨r, hnet.mem_predecessors_iff.mpr hsucc, ?_⟩
  rw [(hvalues r hr).2]
  rfl

/-! ## Values on an unused memory -/

/-- Everything a run stores in a memory without values comes from visits: what each visit gives to
its outcome, provided that the values before it have it, holds of every value in the end. -/
theorem values_stateAfter (hnet : net.Built) (hunused : m.Unused) {I : Nat → T → Prop}
    (hvisit : ∀ current p, (∀ r v, current.get? r = some v → I r v) →
      net.ReachedFrom entries p → arriving net d (decide (p ∈ entries)) current p ≠ [] →
        I p (outputAt net d (decide (p ∈ entries)) current p)) (n : Nat) :
    ∀ r v, (stateAfter net d entries m n).memory.current.get? r = some v → I r v := by
  refine stateAfter_induction net d entries m
    (I := fun s => ∀ r v, s.memory.current.get? r = some v → I r v) ?_ ?_ n
  · -- A run starts by forgetting values, so none stands at the start.
    intro r v hv
    simp [start, (Memory.foldl_forget _ _ _).1, (hunused r).1] at hv
  · intro n p queue hpop hvalues r v hv
    rw [advance_current, contains_entrySet] at hv
    -- The value is the one just stored, or an older one.
    split at hv
    · rename_i hr
      obtain rfl := Option.some.inj hv
      rw [hr]
      exact hvisit _ p hvalues (reached_of_pop? hpop) (arriving_ne_nil_of_pop? hnet hpop)
    · exact hvalues r v hv

/-- What all visits give to their outcomes holds of the values a run leaves, also of a run that has
no entries and visits nothing. -/
theorem values_run (hnet : net.Built) (hunused : m.Unused) {I : Nat → T → Prop}
    (hvisit : ∀ current p, (∀ r v, current.get? r = some v → I r v) →
      net.ReachedFrom entries p → arriving net d (decide (p ∈ entries)) current p ≠ [] →
        I p (outputAt net d (decide (p ∈ entries)) current p)) (cap : Nat) (c : Cancellation)
    {r : Nat} {v : T} (hv : (run net d cap c entries m).memory.current.get? r = some v) :
    I r v := by
  -- A run without entries leaves the memory alone, and it was unused.
  by_cases hne : entries = []
  · subst hne
    have hmemory : (run net d cap c [] m).memory = m := rfl
    rw [hmemory, (hunused r).1] at hv
    exact absurd hv (by simp)
  · rw [(run_spec net d entries m cap c hne).1] at hv
    exact values_stateAfter hnet hunused hvisit _ r v hv

/-- Only reached points get a value. -/
theorem reached_of_value (hnet : net.Built) (hunused : m.Unused) {cap : Nat} {c : Cancellation}
    {r : Nat} {v : T} (hv : (run net d cap c entries m).memory.current.get? r = some v) :
    net.ReachedFrom entries r :=
  values_run (I := fun r _ => net.ReachedFrom entries r) hnet hunused (fun _ _ _ hp _ => hp)
    cap c hv

/-! ## The equations -/

theorem mergeAll_cons (d : Domain T) (v : T) (rest : List T) :
    mergeAll d (v :: rest) = rest.foldl d.merge v :=
  rfl

/-- **A run without an error has solved the dataflow equations**, for any domain in which values
counted as the same are the same, on any network, from any entries and whatever was stored before.
Every reached point is marked and holds both values: before it the merge from left to right of
what arrives in the final memory, that is of the initial value at an entry and of the values after
its predecessors, and after it the transfer of that merge.

Moreover no visit of any run, successful or not, falls back to the initial value because nothing
arrives. -/
theorem run_satisfies_equations (hnet : net.Built) (d : Domain T)
    (hequal : ∀ a b, d.equal a b = true → a = b) (cap : Nat) (c : Cancellation)
    (hne : entries ≠ []) (m : Memory T) (name : String) :
    let o := run net d cap c entries m
    (o.error? name = none → ∀ n, net.ReachedFrom entries n →
      o.memory.analyzed.contains n = true ∧
        ∃ first rest,
          (if n ∈ entries then [d.initial] else []) ++
              (net.predecessors n).filterMap o.memory.current.get? = first :: rest ∧
            o.memory.input.get? n = some (rest.foldl d.merge first) ∧
            o.memory.current.get? n =
              some (d.transfer (net.site n) (rest.foldl d.merge first))) ∧
      o.memory = (stateAfter net d entries m o.iterations).memory ∧
      ∀ j < o.iterations, ∃ p queue,
        (stateAfter net d entries m j).queue.pop? = some (p, queue) ∧
          arriving net d (decide (p ∈ entries)) (stateAfter net d entries m j).memory.current p ≠
            [] := by
  intro o
  obtain ⟨hmemory, -, -, hhalts⟩ := run_spec net d entries m cap c hne
  refine ⟨fun hok n hn => ?_, hmemory, fun j hj => ?_⟩
  · -- Both values are computed from the list that arrives, which is not empty.
    obtain ⟨hmarked, harrives, hinput, hcurrent⟩ := solved_of_error?_none hnet hequal hok hn
    refine ⟨hmarked, ?_⟩
    obtain ⟨first, rest, harriving⟩ := List.exists_cons_of_ne_nil harrives
    refine ⟨first, rest, by simpa [arriving] using harriving, ?_, ?_⟩
    · rw [hinput, inputAt, harriving, mergeAll_cons]
    · rw [hcurrent, outputAt, inputAt, harriving, mergeAll_cons]
  · -- Before the end the queue is busy, and only fed points wait.
    have hbusy := (hhalts.busy j hj).1
    cases hpop : (stateAfter net d entries m j).queue.pop? with
    | none => exact absurd (Queue.pop?_eq_none.mp hpop) hbusy
    | some next => exact ⟨next.1, next.2, rfl, arriving_ne_nil_of_pop? hnet hpop⟩

/-- What a collection of command names from the second command of a loop leaves. -/
def ringUsed : Memory (ItemSet String) :=
  (run Network.ring labels 10 none [1] {}).memory

/-- The names collected around the loop, entered twice at its first command, with values from an
earlier run in place. -/
theorem run_satisfies_equations_ring :
    Network.ring.Built ∧ (∀ a b, labels.equal a b = true → a = b) ∧
      [0, 0] ≠ ([] : List Nat) ∧ (ringUsed.current.get? 1).isSome = true ∧
      (run Network.ring labels 10 none [0, 0] ringUsed).error? "labels" = none ∧
      (run Network.ring labels 10 none [0, 0] ringUsed).memory.analyzed.contains 0 = true ∧
      ∃ first rest,
        [labels.initial] ++ (Network.ring.predecessors 0).filterMap
            (run Network.ring labels 10 none [0, 0] ringUsed).memory.current.get? =
          first :: rest ∧
        (run Network.ring labels 10 none [0, 0] ringUsed).memory.input.get? 0 =
          some (rest.foldl labels.merge first) ∧
        (run Network.ring labels 10 none [0, 0] ringUsed).memory.current.get? 0 =
          some (labels.transfer (Network.ring.site 0) (rest.foldl labels.merge first)) := by
  -- The concrete run, evaluated.
  have hok : (run Network.ring labels 10 none [0, 0] ringUsed).error? "labels" = none := by
    decide +kernel
  have hequal : ∀ a b, labels.equal a b = true → a = b := fun a b h => of_decide_eq_true h
  refine ⟨Network.ring_built, hequal, by simp, by decide +kernel, hok, ?_⟩
  exact (run_satisfies_equations Network.ring_built labels hequal 10 none (by simp) ringUsed
    "labels").1 hok 0 (.of_mem List.mem_cons_self)

end Engine

end ScriptFlow
