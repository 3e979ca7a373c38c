import ScriptFlow.Domains
import ScriptFlow.Proofs.Dataflow.LeastSolution
import ScriptFlow.Proofs.Dataflow.Termination
import Mathlib.Algebra.BigOperators.Ring.Finset
import Mathlib.Order.KrullDimension

/-!
# Values that rise

Where merges are least upper bounds and transfers are monotone, the value at a point never falls
during a run. This is not visible in one visit: a value is computed afresh each time, from
predecessors of which more and more have a value. The invariant is that every stored value is at
most what a visit would compute now, so the next visit of its point can only raise it.

If a value can rise only so often, each point has its successors queued only so often, which
bounds the number of visits of the whole run.

Main statements:
- `Domain.Climbs.below_stateAfter`, `Domain.Climbs.iterations_le`, `Domain.Climbs.error?_eq_none`:
  for the values that a domain produces on a given network
- `ordered_run_converges`: for every partial order without long chains
-/

namespace ScriptFlow

/-- On the reached part of a network all values have `Q`, merges of such values are least upper
bounds and transfers are monotone. A value `v` can rise `room v` times, which is less than
`height`. -/
structure Domain.Climbs {T : Type} [Preorder T] (d : Domain T) (net : Network)
    (entries : List Nat) (Q : T → Prop) (room : T → Nat) (height : Nat) : Prop where
  initial : Q d.initial
  merge : ∀ a b, Q a → Q b → Q (d.merge a b)
  transfer : ∀ p, net.ReachedFrom entries p → ∀ a, Q a → Q (d.transfer (net.site p) a)
  merge_le_iff : ∀ a b u, Q a → Q b → Q u → (d.merge a b ≤ u ↔ a ≤ u ∧ b ≤ u)
  transfer_mono : ∀ p, net.ReachedFrom entries p → ∀ a b, Q a → Q b → a ≤ b →
    d.transfer (net.site p) a ≤ d.transfer (net.site p) b
  equal : ∀ a b, d.equal a b = true ↔ a = b
  room_lt : ∀ a, Q a → room a < height
  room_lt_room : ∀ a b, Q a → Q b → a ≤ b → a ≠ b → room b < room a

namespace Engine

variable {T : Type} {net : Network} {d : Domain T} {entries : List Nat} {m : Memory T}

/-- The number of edges that lead out of the reached points. -/
def edgesOut (net : Network) (entries : List Nat) : Nat :=
  ∑ p ∈ region net entries, (net.outgoing p).length

/-- No reached point has a value at the start. -/
theorem start_current {q : Nat} (hq : net.ReachedFrom entries q) :
    (start net entries m).memory.current.get? q = none := by
  have hmem : q ∈ net.reachableFrom entries := Network.mem_reachableFrom.mpr hq
  simp [start, (Memory.foldl_forget _ _ _).1, hmem]

/-- How often the value of a point can still change: before the first visit as often as any value
can, later as often as the present one can rise. -/
def changesLeft (d : Domain T) (net : Network) (entries : List Nat) (m : Memory T)
    (room : T → Nat) (height n q : Nat) : Nat :=
  match (stateAfter net d entries m n).memory.current.get? q with
  | none => height
  | some v => room v

/-- At the start every reached point can still change as often as any value can. -/
theorem openEdges_changesLeft (d : Domain T) (net : Network) (entries : List Nat) (m : Memory T)
    (room : T → Nat) (height : Nat) :
    openEdges net entries (changesLeft d net entries m room height 0) =
      height * edgesOut net entries := by
  unfold openEdges edgesOut
  rw [Finset.mul_sum]
  apply Finset.sum_congr rfl
  intro p hp
  have hnone : (stateAfter net d entries m 0).memory.current.get? p = none :=
    start_current (mem_region.mp hp)
  unfold changesLeft
  -- An unvisited point has the whole height left.
  rw [hnone]

section Below

variable [Preorder T] {current current' current'' : PointMap T}

/-- Every value is still there or replaced by a larger one; new values may have come. -/
def Below (current current' : PointMap T) : Prop :=
  ∀ r v, current.get? r = some v → ∃ v', current'.get? r = some v' ∧ v ≤ v'

theorem Below.refl (current : PointMap T) : Below current current :=
  fun _ v hv => ⟨v, hv, le_rfl⟩

/-- Values that rise twice rise. -/
theorem Below.trans (h : Below current current') (h' : Below current' current'') :
    Below current current'' := by
  intro r v hv
  obtain ⟨v', hv', hle⟩ := h r v hv
  obtain ⟨v'', hv'', hle'⟩ := h' r v' hv'
  exact ⟨v'', hv'', hle.trans hle'⟩

/-- What arrives keeps arriving, perhaps as something larger. -/
theorem Below.arriving (h : Below current current') {p : Nat} {v : T}
    (hv : v ∈ arriving net d (decide (p ∈ entries)) current p) :
    ∃ v' ∈ Engine.arriving net d (decide (p ∈ entries)) current' p, v ≤ v' := by
  rcases mem_arriving.mp hv with ⟨he, rfl⟩ | ⟨r, hr, hcurrent⟩
  · exact ⟨d.initial, mem_arriving.mpr (Or.inl ⟨he, rfl⟩), le_rfl⟩
  · -- The value after the predecessor is there later as well, and it is no smaller.
    obtain ⟨v', hv', hle⟩ := h r v hcurrent
    exact ⟨v', mem_arriving.mpr (Or.inr ⟨r, hr, hv'⟩), hle⟩

theorem Below.arriving_ne_nil (h : Below current current') {p : Nat}
    (hne : Engine.arriving net d (decide (p ∈ entries)) current p ≠ []) :
    Engine.arriving net d (decide (p ∈ entries)) current' p ≠ [] := by
  obtain ⟨v, hv⟩ := List.exists_mem_of_ne_nil _ hne
  obtain ⟨v', hv', -⟩ := h.arriving hv
  exact List.ne_nil_of_mem hv'

end Below

/-- Every stored value has `Q`, belongs to a visited point and is at most what a visit of that
point would compute now. -/
structure Ascending [Preorder T] (net : Network) (d : Domain T) (entries : List Nat)
    (Q : T → Prop) (s : Progress T) : Prop where
  values : ∀ q v, s.memory.current.get? q = some v → Q v
  marked : ∀ q v, net.ReachedFrom entries q → s.memory.current.get? q = some v →
    s.memory.analyzed.contains q = true
  arrives : ∀ q v, net.ReachedFrom entries q → s.memory.current.get? q = some v →
    arriving net d (decide (q ∈ entries)) s.memory.current q ≠ []
  le_output : ∀ q v, net.ReachedFrom entries q → s.memory.current.get? q = some v →
    v ≤ outputAt net d (decide (q ∈ entries)) s.memory.current q

end Engine

/-! ## The invariant -/

namespace Domain.Climbs

open Engine

variable {T : Type} [Preorder T] {d : Domain T} {net : Network} {entries : List Nat}
  {Q : T → Prop} {room : T → Nat} {height : Nat} {m : Memory T}

section Values

variable {current current' : PointMap T} {p : Nat}

theorem arriving_mem (hd : d.Climbs net entries Q room height)
    (hvalues : ∀ r v, current.get? r = some v → Q v) :
    ∀ v ∈ arriving net d (decide (p ∈ entries)) current p, Q v := by
  intro v hv
  rcases mem_arriving.mp hv with ⟨-, rfl⟩ | ⟨r, -, hr⟩
  · exact hd.initial
  · exact hvalues r v hr

theorem input_mem (hd : d.Climbs net entries Q room height)
    (hvalues : ∀ r v, current.get? r = some v → Q v)
    (harrives : arriving net d (decide (p ∈ entries)) current p ≠ []) :
    Q (inputAt net d (decide (p ∈ entries)) current p) :=
  mergeAll_keeps hd.merge harrives (hd.arriving_mem hvalues)

theorem output_mem (hd : d.Climbs net entries Q room height) (hp : net.ReachedFrom entries p)
    (hvalues : ∀ r v, current.get? r = some v → Q v)
    (harrives : arriving net d (decide (p ∈ entries)) current p ≠ []) :
    Q (outputAt net d (decide (p ∈ entries)) current p) :=
  hd.transfer p hp _ (hd.input_mem hvalues harrives)

/-- A run without an error leaves two values on each reached point, and both are among those that
occur. -/
theorem values_of_run (hd : d.Climbs net entries Q room height) (hnet : net.Built) {cap : Nat}
    {c : Cancellation} {name : String} (hok : (run net d cap c entries {}).error? name = none)
    (hp : net.ReachedFrom entries p) {v : T}
    (hv : (run net d cap c entries {}).memory.input.get? p = some v ∨
      (run net d cap c entries {}).memory.current.get? p = some v) : Q v := by
  have hcurrent : ∀ r v, (run net d cap c entries {}).memory.current.get? r = some v → Q v := by
    -- Visits of a run on an empty memory are the only source of values.
    intro r v hr
    refine values_run (I := fun _ v => Q v) hnet Memory.unused_empty ?_ cap c hr
    exact fun current q hvalues hq harrives => hd.output_mem hq hvalues harrives
  rcases hv with hinput | hv
  · -- A value before a point is merged from the values after its predecessors.
    obtain ⟨-, harrives, hsolved, -⟩ :=
      solved_of_error?_none hnet (fun a b => (hd.equal a b).mp) hok hp
    obtain rfl := Option.some.inj (hsolved.symm.trans hinput)
    exact hd.input_mem hcurrent harrives
  · exact hcurrent p v hv

/-- Larger and additional values before a point give a larger value after it. -/
theorem output_le_output (hd : d.Climbs net entries Q room height)
    (hp : net.ReachedFrom entries p) (hbelow : Below current current')
    (hvalues : ∀ r v, current.get? r = some v → Q v)
    (hvalues' : ∀ r v, current'.get? r = some v → Q v)
    (harrives : arriving net d (decide (p ∈ entries)) current p ≠ []) :
    outputAt net d (decide (p ∈ entries)) current p ≤
      outputAt net d (decide (p ∈ entries)) current' p := by
  have harrives' := hbelow.arriving_ne_nil harrives
  have hinput := hd.input_mem hvalues harrives
  have hinput' := hd.input_mem hvalues' harrives'
  apply hd.transfer_mono p hp _ _ hinput hinput'
  -- Each arriving value is below one that arrives later, hence below the later merge.
  have hupper := mergeAll_le_iff_of_keeps hd.merge hd.merge_le_iff harrives'
    (hd.arriving_mem hvalues') hinput'
  apply (mergeAll_le_iff_of_keeps hd.merge hd.merge_le_iff harrives
    (hd.arriving_mem hvalues) hinput').mpr
  intro v hv
  obtain ⟨v', hv', hle⟩ := hbelow.arriving hv
  exact hle.trans (hupper.mp le_rfl v' hv')

end Values

section Visit

variable {s : Progress T} {p : Nat} {queue : Queue Nat}

/-- A visit replaces the value of its point by a larger one, if there was one. -/
theorem below_advance (h : Ascending net d entries Q s) (hp : net.ReachedFrom entries p) :
    Below s.memory.current (advance net d (entrySet entries) s p queue).memory.current := by
  intro r v hv
  rw [advance_current, contains_entrySet]
  by_cases hr : r = p
  · subst hr
    -- What stood there was at most what is computed now.
    exact ⟨_, if_pos rfl, h.le_output r v hp hv⟩
  · exact ⟨v, by rw [if_neg hr, hv], le_rfl⟩

/-- A visit of a reached point at which something arrives keeps the invariant. -/
theorem ascending_advance (hd : d.Climbs net entries Q room height)
    (h : Ascending net d entries Q s) (hp : net.ReachedFrom entries p)
    (harrives : arriving net d (decide (p ∈ entries)) s.memory.current p ≠ []) :
    Ascending net d entries Q (advance net d (entrySet entries) s p queue) := by
  have hbelow : Below s.memory.current
      (advance net d (entrySet entries) s p queue).memory.current := below_advance h hp
  have hvalues : ∀ q v, (advance net d (entrySet entries) s p queue).memory.current.get? q =
      some v → Q v := by
    -- A value now is the computed one or an old one.
    intro q v hv
    rw [advance_current, contains_entrySet] at hv
    split at hv
    · obtain rfl := Option.some.inj hv
      exact hd.output_mem hp h.values harrives
    · exact h.values q v hv
  refine ⟨hvalues, ?_, ?_, ?_⟩
  · intro q v hq hv
    rw [advance_analyzed]
    rw [advance_current] at hv
    by_cases hqp : q = p
    · -- The visited point is marked by this very visit.
      simp [hqp]
    · rw [if_neg hqp] at hv
      simp [h.marked q v hq hv]
  · intro q v hq hv
    rw [advance_current] at hv
    apply hbelow.arriving_ne_nil
    by_cases hqp : q = p
    · exact hqp ▸ harrives
    -- The point had its value before, so something arrived there before.
    · rw [if_neg hqp] at hv
      exact h.arrives q v hq hv
  · -- What was computed before is at most what would be computed from the larger values now.
    intro q v hq hv
    rw [advance_current, contains_entrySet] at hv
    by_cases hqp : q = p
    · subst hqp
      -- The value is the one just computed, from what arrived before the visit.
      rw [if_pos rfl] at hv
      obtain rfl := Option.some.inj hv
      exact hd.output_le_output hp hbelow h.values hvalues harrives
    · rw [if_neg hqp] at hv
      calc v ≤ outputAt net d (decide (q ∈ entries)) s.memory.current q := h.le_output q v hq hv
        _ ≤ _ := hd.output_le_output hq hbelow h.values hvalues (h.arrives q v hq hv)

end Visit

/-- The invariant holds in every state of a run. -/
theorem ascending_stateAfter (hd : d.Climbs net entries Q room height) (hnet : net.Built)
    (hm : ∀ q v, m.current.get? q = some v → Q v) (n : Nat) :
    Ascending net d entries Q (stateAfter net d entries m n) := by
  refine stateAfter_induction net d entries m ?_ ?_ n
  · -- Values of reached points were dropped, so only unreached points still have one.
    have hnone : ∀ q v, net.ReachedFrom entries q →
        (start net entries m).memory.current.get? q ≠ some v := by
      intro q v hq
      rw [start_current hq]
      simp
    refine ⟨?_, ?_, ?_, ?_⟩
    · intro q v hv
      -- Forgetting takes values away and adds none.
      simp only [start, (Memory.foldl_forget _ _ _).1] at hv
      split at hv
      · exact absurd hv (by simp)
      · exact hm q v hv
    · exact fun q v hq hv => absurd hv (hnone q v hq)
    · exact fun q v hq hv => absurd hv (hnone q v hq)
    · exact fun q v hq hv => absurd hv (hnone q v hq)
  · intro n p queue hpop h
    exact hd.ascending_advance h (reached_of_pop? hpop) (arriving_ne_nil_of_pop? hnet hpop)

/-- **Values only rise**: between two states of a run no value is lost and none falls. -/
theorem below_stateAfter (hd : d.Climbs net entries Q room height) (hnet : net.Built)
    (hm : ∀ q v, m.current.get? q = some v → Q v) {i j : Nat} (hij : i ≤ j) :
    Below (stateAfter net d entries m i).memory.current
      (stateAfter net d entries m j).memory.current := by
  -- Induction on the distance between the two states.
  induction hij with
  | refl => exact Below.refl _
  | @step j hij ih =>
    apply ih.trans
    rw [stateAfter_succ]
    cases hpop : (stateAfter net d entries m j).queue.pop? with
    -- An empty queue: the state stays as it is.
    | none =>
      simp only [turn, hpop]
      exact Below.refl _
    | some next =>
      rw [turn_of_pop? hpop]
      exact below_advance (hd.ascending_stateAfter hnet hm j) (reached_of_pop? hpop)

/-! ## The bound -/

theorem room_le_room (hd : d.Climbs net entries Q room height) {a b : T} (ha : Q a) (hb : Q b)
    (hab : a ≤ b) : room b ≤ room a := by
  by_cases h : a = b
  · rw [h]
  · exact (hd.room_lt_room a b ha hb hab h).le

/-- The changes left at each point pay for its visits: no visit raises them, and an unsettled one
lowers those of its point. -/
theorem budgets (hd : d.Climbs net entries Q room height) (hnet : net.Built)
    (hm : ∀ q v, m.current.get? q = some v → Q v) :
    Budgets net d entries m (changesLeft d net entries m room height) where
  le n q := by
    have hrise := hd.below_stateAfter hnet hm (Nat.le_succ n) q
    have hvalues := (hd.ascending_stateAfter hnet hm n).values q
    have hvalues' := (hd.ascending_stateAfter hnet hm (n + 1)).values q
    unfold changesLeft
    cases hv : (stateAfter net d entries m n).memory.current.get? q with
    | none =>
      cases hv' : (stateAfter net d entries m (n + 1)).memory.current.get? q with
      | none => exact le_rfl
      -- The first value uses up a change, as every value has less room than the height.
      | some v' => exact (hd.room_lt v' (hvalues' v' hv')).le
    | some v =>
      -- The value rose or stayed, so its room did not grow.
      obtain ⟨v', hv', hle⟩ := hrise v hv
      rw [hv']
      exact hd.room_le_room (hvalues v hv) (hvalues' v' hv') hle
  lt n p queue hpop hunsettled := by
    have hascending := hd.ascending_stateAfter hnet hm n
    have hp := reached_of_pop? hpop
    have houtput := hd.output_mem hp hascending.values (arriving_ne_nil_of_pop? hnet hpop)
    unfold changesLeft
    rw [stateAfter_succ, turn_of_pop? hpop, advance_current, if_pos rfl, contains_entrySet]
    cases hv : (stateAfter net d entries m n).memory.current.get? p with
    | none => exact hd.room_lt _ houtput
    | some v =>
      -- The point was visited before, so the visit is unsettled because the value changes.
      have hmarked := hascending.marked p v hp hv
      have hle := hascending.le_output p v hp hv
      apply hd.room_lt_room v _ (hascending.values p v hv) houtput hle
      intro hsame
      have hequal := (hd.equal _ _).mpr hsame
      simp [settled, hmarked, hv, hequal] at hunsettled

/-- A run, however it ends, visits its entries and then each edge at most `height` times. -/
theorem iterations_le (hd : d.Climbs net entries Q room height) (hnet : net.Built)
    (hm : ∀ q v, m.current.get? q = some v → Q v) (cap : Nat) (c : Cancellation) :
    (run net d cap c entries m).iterations ≤
      entries.toFinset.card + height * edgesOut net entries := by
  have h := (hd.budgets hnet hm).iterations_le cap c
  rwa [openEdges_changesLeft] at h

/-- A run that is not cancelled and may make that many visits succeeds. -/
theorem error?_eq_none (hd : d.Climbs net entries Q room height) (hnet : net.Built)
    (hm : ∀ q v, m.current.get? q = some v → Q v) {cap : Nat} (name : String)
    (hcap : entries.toFinset.card + height * edgesOut net entries ≤ cap) :
    (run net d cap none entries m).error? name = none := by
  apply (hd.budgets hnet hm).error?_eq_none name
  rwa [openEdges_changesLeft]

end Domain.Climbs

/-! ## Partial orders without long chains -/

section Order

variable {T : Type} [PartialOrder T] {net : Network} {d : Domain T} {height : Nat}

/-- A value begins a chain that is shorter than the longest chain. -/
theorem coheight_lt_of_chains
    (hheight : ∀ chain : List T, chain.Pairwise (· < ·) → chain.length ≤ height) (v : T) :
    Order.coheight v < height := by
  have hpos : 1 ≤ height := hheight [v] (List.pairwise_singleton _ v)
  -- Every chain that starts at the value is a list, so one shorter than the height.
  have hle : Order.coheight v ≤ (height - 1 : Nat) := by
    apply Order.coheight_le
    intro p _
    have hlength := hheight p.toList p.isChain_toList.pairwise
    rw [p.length_toList] at hlength
    exact_mod_cast (by omega : p.length ≤ height - 1)
  calc Order.coheight v ≤ (height - 1 : Nat) := hle
    _ < height := by exact_mod_cast (by omega : height - 1 < height)

/-- The length of the longest chain above a value tells how often it can rise. -/
theorem Domain.Ordered.climbs (hd : d.Ordered net)
    (hheight : ∀ chain : List T, chain.Pairwise (· < ·) → chain.length ≤ height)
    (entries : List Nat) :
    d.Climbs net entries (fun _ => True) (fun v => (Order.coheight v).toNat) height where
  initial := trivial
  merge _ _ _ _ := trivial
  transfer _ _ _ _ := trivial
  merge_le_iff _ _ _ _ _ _ := hd.merge_le_iff
  transfer_mono p _ _ _ _ _ hab := hd.transfer p hab
  equal := hd.equal
  room_lt v _ := by
    -- Below a bound the height above a value is a number, so it may be compared as one.
    have hlt := coheight_lt_of_chains hheight v
    rw [← ENat.natCast_toNat hlt.ne_top] at hlt
    exact_mod_cast hlt
  room_lt_room a b _ _ hab hne := by
    have ha := (coheight_lt_of_chains hheight a).ne_top
    have hb := (coheight_lt_of_chains hheight b).ne_top
    have hlt := Order.coheight_strictAnti (lt_of_le_of_ne hab hne) hb.lt_top
    rw [← ENat.natCast_toNat ha, ← ENat.natCast_toNat hb] at hlt
    exact_mod_cast hlt

end Order

namespace Engine

variable {T : Type} [PartialOrder T] {net : Network} {d : Domain T} {height : Nat}

/-- **Runs converge over every partial order without long chains**, whatever was stored before.
Merges are least upper bounds, transfers are monotone and no strictly increasing chain has more
than `height` values. Then the value stored at a point only rises from one state of a run to the
next, no run makes more visits than there are distinct entries and `height` times the edges out of
reached points, and a run that is not cancelled and may make that many visits succeeds. -/
theorem ordered_run_converges (hnet : net.Built) (hd : d.Ordered net)
    (hheight : ∀ chain : List T, chain.Pairwise (· < ·) → chain.length ≤ height)
    (entries : List Nat) (m : Memory T) :
    (∀ i j, i ≤ j → ∀ q v, (stateAfter net d entries m i).memory.current.get? q = some v →
      ∃ v', (stateAfter net d entries m j).memory.current.get? q = some v' ∧ v ≤ v') ∧
    (∀ cap c,
      (run net d cap c entries m).memory =
          (stateAfter net d entries m (run net d cap c entries m).iterations).memory ∧
        (run net d cap c entries m).iterations ≤
          entries.toFinset.card + height * edgesOut net entries) ∧
    ∀ cap name, entries.toFinset.card + height * edgesOut net entries ≤ cap →
      (run net d cap none entries m).error? name = none := by
  have hclimbs := hd.climbs hheight entries
  have hm : ∀ q v, m.current.get? q = some v → True := fun _ _ _ => trivial
  refine ⟨fun i j hij => hclimbs.below_stateAfter hnet hm hij, fun cap c => ⟨?_, ?_⟩, ?_⟩
  · by_cases hne : entries = []
    -- Without entries there is nothing to visit and the memory stays.
    · subst hne
      rfl
    · exact (run_spec net d entries m cap c hne).1
  · exact hclimbs.iterations_le hnet hm cap c
  · exact fun cap name hcap => hclimbs.error?_eq_none hnet hm name hcap

/-- Reachability flags are ordered: merging is the maximum and transfers change nothing. -/
theorem reachability_ordered (net : Network) : reachability.Ordered net where
  merge a b := by
    refine ⟨?_, fun u hu => ?_⟩
    · rintro v (rfl | rfl)
      · exact Bool.left_le_or v b
      · exact Bool.right_le_or a v
    · exact Bool.or_le (hu (Set.mem_insert a {b})) (hu (Set.mem_insert_of_mem a rfl))
  transfer _ _ _ hab := hab
  equal _ _ := beq_iff_eq

/-- Around a loop of two edges that is entered twice at the same command, five visits are enough,
whatever was stored before. -/
theorem ordered_run_converges_ring :
    Network.ring.Built ∧ reachability.Ordered Network.ring ∧
      (∀ chain : List Bool, chain.Pairwise (· < ·) → chain.length ≤ 2) ∧
      [0, 0].toFinset.card + 2 * edgesOut Network.ring [0, 0] = 5 ∧
      ∀ m, (run Network.ring reachability 5 none [0, 0] m).error? "reachability" = none := by
  have hheight : ∀ chain : List Bool, chain.Pairwise (· < ·) → chain.length ≤ 2 := by
    intro chain hchain
    -- A chain has no repetitions, and there are two flags.
    have hnodup : chain.Nodup := hchain.imp ne_of_lt
    exact hnodup.length_le_card
  have hbound : [0, 0].toFinset.card + 2 * edgesOut Network.ring [0, 0] = 5 := by decide +kernel
  refine ⟨Network.ring_built, reachability_ordered _, hheight, hbound, fun m => ?_⟩
  exact (ordered_run_converges Network.ring_built (reachability_ordered _) hheight [0, 0] m).2.2 5
    "reachability" hbound.le

end Engine

end ScriptFlow
