import ScriptFlow.Proofs.Dataflow.FixedPoint

/-!
# Values and walks

What a run finds out about a point is what can be seen on the walks that lead there, although it
never looks at a walk and there may be infinitely many. This holds for properties of values that a
merge has exactly if one of its sides does, and that a point brings about, lets pass or ends.

Main statement: `observed_input_iff`, for the value before every reached point.
-/

namespace ScriptFlow

namespace Network

/-- A walk from an entry to a point: the points passed before it, the latest one first. A point
can be passed any number of times. -/
inductive Walk (net : Network) (entries : List Nat) : List Nat → Nat → Prop
  | entry {e : Nat} : e ∈ entries → Walk net entries [] e
  | step {passed : List Nat} {p q : Nat} :
      Walk net entries passed p → q ∈ net.successors p → Walk net entries (p :: passed) q

variable {net : Network} {entries : List Nat}

/-- Walks lead to reached points. -/
theorem Walk.reachedFrom {passed : List Nat} {q : Nat} (h : net.Walk entries passed q) :
    net.ReachedFrom entries q := by
  induction h with
  | entry he => exact .of_mem he
  | step _ hq ih => exact ih.step hq

theorem ReachedFrom.exists_walk {q : Nat} (h : net.ReachedFrom entries q) :
    ∃ passed, net.Walk entries passed q := by
  -- Along the edges that reach the point; a loop would give more walks, and one is enough.
  refine h.induction (P := fun q => ∃ passed, net.Walk entries passed q) (fun e he => ?_) ?_
  · exact ⟨[], .entry he⟩
  · rintro p q - ⟨passed, hwalk⟩ hq
    exact ⟨p :: passed, hwalk.step hq⟩

end Network

/-! ## Observable properties -/

/-- All values of a run have the property `Q`. -/
structure Domain.Keeps {T : Type} (d : Domain T) (Q : T → Prop) : Prop where
  initial : Q d.initial
  merge : ∀ a b, Q a → Q b → Q (d.merge a b)
  transfer : ∀ site a, Q a → Q (d.transfer site a)

/-- Among the values with `Q`, the property `P` of a merge is that of one of its sides, and a
point has it after itself if it brings it about, or lets it pass and has it before itself. -/
structure Domain.Observes {T : Type} (d : Domain T) (Q P : T → Prop)
    (brings passes : Site → Prop) : Prop extends d.Keeps Q where
  merge_iff : ∀ a b, Q a → Q b → (P (d.merge a b) ↔ P a ∨ P b)
  transfer_iff : ∀ site a, Q a → (P (d.transfer site a) ↔ brings site ∨ passes site ∧ P a)

namespace Engine

variable {T : Type} {net : Network} {d : Domain T} {entries : List Nat} {m : Memory T}
  {Q P : T → Prop} {brings passes : Site → Prop}

/-- Whether the property is seen at the end of a walk, given whether it holds at its entry. -/
def SeenOn (net : Network) (atEntry : Prop) (brings passes : Site → Prop) : List Nat → Prop
  | [] => atEntry
  | p :: passed =>
    brings (net.site p) ∨ passes (net.site p) ∧ SeenOn net atEntry brings passes passed

/-- What merged values have and merges keep, the merge of all of them has. -/
theorem mergeAll_keeps (hkeeps : ∀ a b, Q a → Q b → Q (d.merge a b)) {l : List T} (hne : l ≠ [])
    (hl : ∀ v ∈ l, Q v) : Q (mergeAll d l) := by
  cases l with
  | nil => exact absurd rfl hne
  | cons v rest =>
    rw [mergeAll_cons]
    obtain ⟨hv, hrest⟩ := List.forall_mem_cons.mp hl
    -- The merge takes the values in order, so the first one stands for the merge so far.
    clear hl hne
    induction rest generalizing v with
    | nil => exact hv
    | cons w rest ih =>
      obtain ⟨hw, hrest⟩ := List.forall_mem_cons.mp hrest
      exact ih (d.merge v w) (hkeeps v w hv hw) hrest

/-- If a merge of two values has a property exactly when one of them does, so it is with many. -/
theorem mergeAll_iff_exists (hkeeps : ∀ a b, Q a → Q b → Q (d.merge a b))
    (hiff : ∀ a b, Q a → Q b → (P (d.merge a b) ↔ P a ∨ P b)) {l : List T} (hne : l ≠ [])
    (hl : ∀ v ∈ l, Q v) : P (mergeAll d l) ↔ ∃ v ∈ l, P v := by
  cases l with
  | nil => exact absurd rfl hne
  | cons v rest =>
    rw [mergeAll_cons]
    obtain ⟨hv, hrest⟩ := List.forall_mem_cons.mp hl
    clear hl hne
    -- The merge so far has the property exactly if one of the values in it has it.
    induction rest generalizing v with
    | nil => simp
    | cons w rest ih =>
      obtain ⟨hw, hrest⟩ := List.forall_mem_cons.mp hrest
      rw [List.foldl_cons, ih (d.merge v w) (hkeeps v w hv hw) hrest]
      simp [hiff v w hv hw, or_assoc]

/-- At an entry the initial value arrives, and over each edge the value behind it. -/
theorem mem_arriving {current : PointMap T} {p : Nat} {v : T} :
    v ∈ arriving net d (decide (p ∈ entries)) current p ↔
      p ∈ entries ∧ v = d.initial ∨ ∃ r ∈ net.predecessors p, current.get? r = some v := by
  unfold arriving
  rw [List.mem_append, List.mem_filterMap]
  by_cases hp : p ∈ entries <;> simp [hp]

/-- The value before a point has the property if it is an entry and starts with it, or if the
value after one of its predecessors has it. -/
theorem observes_inputAt (hobs : d.Observes Q P brings passes) {current : PointMap T} {p : Nat}
    (harrives : arriving net d (decide (p ∈ entries)) current p ≠ [])
    (hvalues : ∀ r v, current.get? r = some v → Q v) :
    Q (inputAt net d (decide (p ∈ entries)) current p) ∧
      (P (inputAt net d (decide (p ∈ entries)) current p) ↔
        p ∈ entries ∧ P d.initial ∨
          ∃ r ∈ net.predecessors p, ∃ v, current.get? r = some v ∧ P v) := by
  have hmem : ∀ v ∈ arriving net d (decide (p ∈ entries)) current p, Q v := by
    intro v hv
    rcases mem_arriving.mp hv with ⟨-, rfl⟩ | ⟨r, -, hr⟩
    · exact hobs.initial
    · exact hvalues r v hr
  refine ⟨mergeAll_keeps hobs.merge harrives hmem, ?_⟩
  unfold inputAt
  rw [mergeAll_iff_exists hobs.merge hobs.merge_iff harrives hmem]
  constructor
  · rintro ⟨v, hv, hP⟩
    rcases mem_arriving.mp hv with ⟨he, rfl⟩ | ⟨r, hr, hcurrent⟩
    · exact Or.inl ⟨he, hP⟩
    · exact Or.inr ⟨r, hr, v, hcurrent, hP⟩
  · rintro (⟨he, hP⟩ | ⟨r, hr, v, hcurrent, hP⟩)
    · exact ⟨d.initial, mem_arriving.mpr (Or.inl ⟨he, rfl⟩), hP⟩
    · exact ⟨v, mem_arriving.mpr (Or.inr ⟨r, hr, hcurrent⟩), hP⟩

/-! ## What a value shows was seen on a walk -/

/-- A property that a value of a run has was seen on a walk to its point. -/
theorem exists_walk_of_value (hnet : net.Built) (hunused : m.Unused)
    (hobs : d.Observes Q P brings passes) {cap : Nat} {c : Cancellation} {r : Nat} {v : T}
    (hv : (run net d cap c entries m).memory.current.get? r = some v) :
    Q v ∧ (P v → ∃ passed, net.Walk entries passed r ∧
      SeenOn net (P d.initial) brings passes (r :: passed)) := by
  refine values_run (I := fun r v => Q v ∧ (P v → ∃ passed, net.Walk entries passed r ∧
    SeenOn net (P d.initial) brings passes (r :: passed))) hnet hunused ?_ cap c hv
  -- One visit at a time: the values that arrive were seen on walks to the predecessors.
  intro current p hvalues hp harrives
  obtain ⟨hinput, hiff⟩ := observes_inputAt hobs harrives fun r v hr => (hvalues r v hr).1
  refine ⟨hobs.transfer _ _ hinput, fun hP => ?_⟩
  rcases (hobs.transfer_iff _ _ hinput).mp hP with hbrings | ⟨hpasses, hP⟩
  · -- The point itself brings the property about, on any walk to it.
    obtain ⟨passed, hwalk⟩ := hp.exists_walk
    exact ⟨passed, hwalk, Or.inl hbrings⟩
  · -- The property arrives from the entry itself, or from a point where it was seen before.
    rcases hiff.mp hP with ⟨he, hinitial⟩ | ⟨r, hr, v, hcurrent, hPv⟩
    · exact ⟨[], .entry he, Or.inr ⟨hpasses, hinitial⟩⟩
    · obtain ⟨passed, hwalk, hseen⟩ := (hvalues r v hcurrent).2 hPv
      exact ⟨r :: passed, hwalk.step (hnet.mem_predecessors_iff.mp hr), Or.inr ⟨hpasses, hseen⟩⟩

/-! ## What is seen on a walk shows in the value at its end -/

section Success

variable {cap : Nat} {c : Cancellation} {name : String}

/-- At a fixed point a property is before a point if it is at its entry or after a predecessor. -/
theorem observes_solution (hnet : net.Built) (hequal : ∀ a b, d.equal a b = true → a = b)
    (hunused : m.Unused) (hobs : d.Observes Q P brings passes)
    (hok : (run net d cap c entries m).error? name = none) {n : Nat}
    (hn : net.ReachedFrom entries n) :
    let current := (run net d cap c entries m).memory.current
    Q (inputAt net d (decide (n ∈ entries)) current n) ∧
      (P (inputAt net d (decide (n ∈ entries)) current n) ↔
        n ∈ entries ∧ P d.initial ∨ ∃ r ∈ net.predecessors n, ∃ v, current.get? r = some v ∧ P v) :=
  observes_inputAt hobs (solved_of_error?_none hnet hequal hok hn).2.1
    fun _ _ hr => (exists_walk_of_value hnet hunused hobs hr).1

/-- A property that is seen on a walk is in the value before its end. -/
theorem observed_of_walk (hnet : net.Built) (hequal : ∀ a b, d.equal a b = true → a = b)
    (hunused : m.Unused) (hobs : d.Observes Q P brings passes)
    (hok : (run net d cap c entries m).error? name = none) {passed : List Nat} {n : Nat}
    (hwalk : net.Walk entries passed n)
    (hseen : SeenOn net (P d.initial) brings passes passed) :
    P (inputAt net d (decide (n ∈ entries)) (run net d cap c entries m).memory.current n) := by
  -- Along the walk: what is seen so far shows before each point, and the equations carry it over.
  induction hwalk with
  | @entry e he =>
    -- At an entry nothing has been passed, and the initial value has the property.
    exact (observes_solution hnet hequal hunused hobs hok (.of_mem he)).2.mpr (Or.inl ⟨he, hseen⟩)
  | @step passed p q hwalk hq ih =>
    have hp := hwalk.reachedFrom
    obtain ⟨hinput, -⟩ := observes_solution hnet hequal hunused hobs hok hp
    have hcurrent := (solved_of_error?_none hnet hequal hok hp).2.2.2
    have houtput := (hobs.transfer_iff (net.site p) _ hinput).mpr
      (hseen.imp_right fun h => ⟨h.1, ih h.2⟩)
    -- The property is after the point passed last, so it arrives over the edge from there.
    refine (observes_solution hnet hequal hunused hobs hok (hp.step hq)).2.mpr (Or.inr ?_)
    exact ⟨p, hnet.mem_predecessors_iff.mpr hq, _, hcurrent, houtput⟩

/-- **Before a point a successful run shows what is seen on some walk to it.** -/
theorem observed_input_iff (hnet : net.Built) (hequal : ∀ a b, d.equal a b = true → a = b)
    (hunused : m.Unused) (hobs : d.Observes Q P brings passes)
    (hok : (run net d cap c entries m).error? name = none) {n : Nat}
    (hn : net.ReachedFrom entries n) :
    ∃ v, (run net d cap c entries m).memory.input.get? n = some v ∧ Q v ∧
      (P v ↔ ∃ passed, net.Walk entries passed n ∧
        SeenOn net (P d.initial) brings passes passed) := by
  obtain ⟨hkept, hiff⟩ := observes_solution hnet hequal hunused hobs hok hn
  have hinput := (solved_of_error?_none hnet hequal hok hn).2.2.1
  refine ⟨_, hinput, hkept, fun hP => ?_, ?_⟩
  · -- The last edge of the walk leads from a predecessor, after which the property was seen.
    rcases hiff.mp hP with ⟨he, hinitial⟩ | ⟨r, hr, v, hcurrent, hPv⟩
    · exact ⟨[], .entry he, hinitial⟩
    · obtain ⟨passed, hwalk, hseen⟩ := (exists_walk_of_value hnet hunused hobs hcurrent).2 hPv
      exact ⟨r :: passed, hwalk.step (hnet.mem_predecessors_iff.mp hr), hseen⟩
  · rintro ⟨passed, hwalk, hseen⟩
    exact observed_of_walk hnet hequal hunused hobs hok hwalk hseen

end Success

end Engine

end ScriptFlow
