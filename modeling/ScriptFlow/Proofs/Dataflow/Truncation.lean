import ScriptFlow.Proofs.Dataflow.Termination
import ScriptFlow.Proofs.Graph.Construction

/-!
# What the cap cuts off

Runs of one domain with different caps go through the same states, and the cap decides how far they
get. A run that comes to its fixed point stops there under every cap that lets it get so far. A run
that is stopped by its cap leaves the state that a run with a larger cap was in after as many
visits.

Main statement: `cap_only_truncates`.
-/

namespace ScriptFlow

namespace Engine

variable {T : Type}

/-! ## Where the loop stops -/

section Loop

variable {net : Network} {d : Domain T} {marks : PointSet} {c : Cancellation} {s : Progress T}
  {room room' k k' : Nat} {ending ending' : Ending}

/-- Where a point waits and no cancellation is noticed, only the cap stops the loop. -/
theorem Halts.of_busy (h : Halts net d marks c room s k ending)
    (hbusy : ((turn net d marks)^[k] s).queue.toList ≠ [])
    (hnot : c.noticed (s.iterations + k) = false) : ending = .exhausted ∧ k = room := by
  have hreason := h.reason
  cases ending with
  | fixedPoint => exact absurd hreason hbusy
  | cancelled =>
    rw [hnot] at hreason
    exact absurd hreason.2 (by simp)
  | exhausted => exact ⟨rfl, hreason.2.2⟩
  | idle => exact hreason.elim

/-- If another loop gets further from the same state, the cap stopped this one. -/
theorem Halts.of_lt (h : Halts net d marks c room s k ending)
    (h' : Halts net d marks c room' s k' ending') (hlt : k < k') :
    ending = .exhausted ∧ k = room := by
  -- The loop that gets further did not stop here, so points waited and nothing was noticed.
  obtain ⟨hbusy, hnot⟩ := h'.busy k hlt
  exact h.of_busy hbusy hnot

/-- A fixed point is where the loop stops under every cap that lets it get there. -/
theorem Halts.eq_of_fixedPoint (h : Halts net d marks c room s k .fixedPoint)
    (h' : Halts net d marks c room' s k' ending') (hle : k ≤ room') :
    k' = k ∧ ending' = .fixedPoint := by
  -- Stopping earlier takes a smaller cap, and after a fixed point nothing waits.
  have hk : k' = k := by
    rcases Nat.lt_trichotomy k' k with hlt | heq | hlt
    · have hroom := (h'.of_lt h hlt).2
      omega
    · exact heq
    · cases (h.of_lt h' hlt).1
  refine ⟨hk, ?_⟩
  have hempty : ((turn net d marks)^[k'] s).queue.toList = [] := by
    rw [hk]
    exact h.reason
  -- The queue is empty where both stopped, and that reason counts first.
  have hreason := h'.reason
  cases ending' with
  | fixedPoint => rfl
  | cancelled => exact absurd hempty hreason.1
  | exhausted => exact absurd hempty hreason.1
  | idle => exact hreason.elim

end Loop

/-! ## The states of the loop -/

section Stages

variable (net : Network) (d : Domain T) (marks : PointSet) (c : Cancellation)

/-- The states at the head of the loop: one before each visit, and the one it stops on. -/
def stages : Nat → Progress T → List (Progress T)
  | room, s =>
    s ::
      match s.queue.pop? with
      | none => []
      | some (p, queue) =>
        if c.noticed s.iterations then []
        else match room with
          | 0 => []
          | room + 1 => stages room (advance net d marks s p queue)

variable {net d marks c}

/-- The states by the tests of the loop itself, in place of the queue's first element. -/
theorem stages_eq (room : Nat) (s : Progress T) :
    stages net d marks c room s =
      s :: if s.queue.toList = [] then []
        else if c.noticed s.iterations then []
        else match room with
          | 0 => []
          | room + 1 => stages net d marks c room (turn net d marks s) := by
  conv_lhs => unfold stages
  cases hpop : s.queue.pop? with
  | none => rw [if_pos (Queue.pop?_eq_none.mp hpop)]
  | some next =>
    have hbusy : s.queue.toList ≠ [] := by
      intro hempty
      rw [Queue.pop?_eq_none.mpr hempty] at hpop
      cases hpop
    cases room with
    | zero => simp [hbusy]
    | succ room => simp [hbusy, turn_of_pop? hpop]

variable (net d marks c)

/-- There is one state for each number of turns, up to the turn after which the loop stops. -/
theorem stages_spec (room : Nat) (s : Progress T) :
    ∃ k, (settle net d marks c room s).1.iterations = s.iterations + k ∧
      stages net d marks c room s =
        (List.range (k + 1)).map fun n => (turn net d marks)^[n] s := by
  induction room generalizing s with
  | zero =>
    refine ⟨0, ?_⟩
    -- No visits are left: the list has one state, whichever way the loop stops.
    rw [settle_eq, stages_eq]
    split
    · exact ⟨rfl, rfl⟩
    · split
      · exact ⟨rfl, rfl⟩
      · exact ⟨rfl, rfl⟩
  | succ room ih =>
    rw [settle_eq, stages_eq]
    split
    · exact ⟨0, rfl, rfl⟩
    · rename_i hbusy
      split
      · exact ⟨0, rfl, rfl⟩
      · -- The states after the first turn are those of the loop from there.
        obtain ⟨k, hiterations, hstages⟩ := ih (turn net d marks s)
        rw [turn_iterations hbusy] at hiterations
        refine ⟨k + 1, hiterations.trans (by omega), ?_⟩
        rw [List.range_succ_eq_map, List.map_cons, List.map_map]
        exact congrArg (s :: ·) hstages

end Stages

/-! ## Runs -/

section Runs

variable (net : Network) (d : Domain T) (entries : List Nat) (m : Memory T)

/-- The states of a run at the head of its loop, the first one before any visit. A run without
entries has no loop. -/
def runStages (cap : Nat) (c : Cancellation) : List (Progress T) :=
  if entries.isEmpty then []
  else stages net d (entries.foldl PointMap.mark .empty) c cap (start net entries m)

variable {net d entries m}

/-- After each number of visits that a run makes it is in the state of its sequence. -/
theorem getElem?_runStages (hne : entries ≠ []) {cap n : Nat} {c : Cancellation} {s : Progress T} :
    (runStages net d entries m cap c)[n]? = some s ↔
      n ≤ (run net d cap c entries m).iterations ∧ stateAfter net d entries m n = s := by
  obtain ⟨k, hiterations, hstages⟩ :=
    stages_spec net d (entrySet entries) c cap (start net entries m)
  -- A run makes as many visits as its loop, which starts with none made.
  have hk : (run net d cap c entries m).iterations = k := by
    rw [run_eq net d entries m cap c hne]
    exact hiterations.trans (Nat.zero_add k)
  have hempty : entries.isEmpty = false := by simpa using hne
  rw [hk, runStages, hempty, if_neg (by simp), ← entrySet, hstages, List.getElem?_map]
  by_cases hn : n ≤ k
  · rw [List.getElem?_range (Nat.lt_succ_of_le hn)]
    simp [hn, stateAfter]
  · have hbeyond : (List.range (k + 1))[n]? = none :=
      List.getElem?_eq_none (by rw [List.length_range]; omega)
    rw [hbeyond]
    simp [hn]

/-- A run that is not cancelled comes to its fixed point or is stopped by its cap. -/
theorem ending_cases (net : Network) (d : Domain T) (m : Memory T) (hne : entries ≠ []) (cap : Nat)
    (name : String) :
    let o := run net d cap none entries m
    o.ending = .fixedPoint ∧ o.error? name = none ∨
      o.ending = .exhausted ∧
        o.error? name = some (.noFixedPoint name o.iterations o.flowPoints) := by
  intro o
  cases hending : o.ending with
  | fixedPoint => exact Or.inl ⟨rfl, by simp [Outcome.error?, hending]⟩
  | exhausted => exact Or.inr ⟨rfl, by simp [Outcome.error?, hending]⟩
  | cancelled => exact absurd hending (ending_ne_cancelled net d entries m cap)
  | idle =>
    -- A run with entries does not stay idle.
    have hreason := (run_spec net d entries m cap none hne).2.2.2.reason
    rw [hending] at hreason
    exact hreason.elim

/-- Runs that stop after the same number of visits for the same reason have the same outcome. -/
theorem run_congr (hne : entries ≠ []) {cap cap' : Nat} {c c' : Cancellation}
    (hiterations :
      (run net d cap' c' entries m).iterations = (run net d cap c entries m).iterations)
    (hending : (run net d cap' c' entries m).ending = (run net d cap c entries m).ending) :
    run net d cap' c' entries m = run net d cap c entries m := by
  obtain ⟨hmemory, hpropagations, hflow, -⟩ := run_spec net d entries m cap c hne
  obtain ⟨hmemory', hpropagations', hflow', -⟩ := run_spec net d entries m cap' c' hne
  -- Memory and counters depend on the number of visits alone.
  rw [hiterations, ← hmemory] at hmemory'
  rw [hiterations, ← hpropagations] at hpropagations'
  rw [← hflow] at hflow'
  generalize run net d cap' c' entries m = o' at *
  generalize run net d cap c entries m = o at *
  cases o
  cases o'
  simp_all only

/-- A run that comes to its fixed point has the same outcome under every cap that it does not
exceed. -/
theorem run_eq_of_fixedPoint (hne : entries ≠ []) {cap cap' : Nat} {c : Cancellation}
    (hending : (run net d cap c entries m).ending = .fixedPoint)
    (hle : (run net d cap c entries m).iterations ≤ cap') :
    run net d cap' c entries m = run net d cap c entries m := by
  obtain ⟨-, -, -, hhalts⟩ := run_spec net d entries m cap c hne
  obtain ⟨-, -, -, hhalts'⟩ := run_spec net d entries m cap' c hne
  rw [hending] at hhalts
  obtain ⟨hiterations, hending'⟩ := hhalts.eq_of_fixedPoint hhalts' hle
  exact run_congr hne hiterations (hending'.trans hending.symm)

/-- A run that is stopped by its cap has used it up, and it leaves the state that its sequence has
there. -/
theorem run_of_exhausted (hne : entries ≠ []) {cap : Nat} {c : Cancellation}
    (hending : (run net d cap c entries m).ending = .exhausted) :
    (run net d cap c entries m).iterations = cap ∧
      (run net d cap c entries m).memory = (stateAfter net d entries m cap).memory ∧
      (run net d cap c entries m).propagations = (stateAfter net d entries m cap).propagations ∧
      (stateAfter net d entries m cap).queue.toList ≠ [] := by
  obtain ⟨hmemory, hpropagations, -, hhalts⟩ := run_spec net d entries m cap c hne
  have hreason := hhalts.reason
  rw [hending] at hreason
  obtain ⟨hbusy, -, hcap⟩ := hreason
  rw [hcap] at hmemory hpropagations hbusy
  exact ⟨hcap, hmemory, hpropagations, hbusy⟩

/-- A run is stopped by its cap if and only if a run with a larger cap still has points waiting
after as many visits. -/
theorem exhausted_iff_stage (hne : entries ≠ []) {cap cap' : Nat} (hle : cap ≤ cap') :
    (run net d cap none entries m).ending = .exhausted ↔
      cap ≤ (run net d cap' none entries m).iterations ∧
        (stateAfter net d entries m cap).queue.toList ≠ [] := by
  obtain ⟨-, -, -, hhalts⟩ := run_spec net d entries m cap none hne
  obtain ⟨-, -, -, hhalts'⟩ := run_spec net d entries m cap' none hne
  constructor
  · intro hending
    obtain ⟨hcap, -, -, hbusy⟩ := run_of_exhausted hne hending
    -- The cap has been used up, and points still wait there.
    rw [hcap] at hhalts
    refine ⟨?_, hbusy⟩
    -- The longer run does not stop before, as its own cap is not smaller.
    by_contra hshort
    have hcap' := (hhalts'.of_lt hhalts (Nat.not_le.mp hshort)).2
    omega
  · rintro ⟨hreached, hbusy⟩
    -- Stopping earlier would take a cap below `cap`.
    have hcap : (run net d cap none entries m).iterations = cap := by
      rcases Nat.lt_or_eq_of_le hhalts.within with hlt | heq
      · exact (hhalts.of_lt hhalts' (by omega)).2
      · exact heq
    rw [hcap] at hhalts
    exact (hhalts.of_busy hbusy (by simp [Cancellation.noticed])).1

/-- **The cap only truncates, and never silently.** For every domain, network, entry list and
memory, take two caps of which the second is not smaller, and no cancellation. If the run with the
first cap succeeds, the run with the second one has the same outcome. The run with the first cap
fails if and only if the one with the second still has points waiting after as many visits as the
first cap allows; then it has made exactly these visits, and its memory and counters are those of
the longer run at that moment. A run that needs exactly as many visits as the first cap allows
succeeds with it. -/
theorem cap_only_truncates (net : Network) (d : Domain T) (entries : List Nat) (m : Memory T)
    (name : String) {cap cap' : Nat} (hle : cap ≤ cap') :
    let o := run net d cap none entries m
    let o' := run net d cap' none entries m
    let states := runStages net d entries m cap' none
    (o.error? name = none → o'.error? name = none ∧ o' = o) ∧
      ((∃ visits points, o.error? name = some (.noFixedPoint name visits points)) ↔
        ∃ s, states[cap]? = some s ∧ s.queue.toList ≠ []) ∧
      (∀ s, states[cap]? = some s → s.queue.toList ≠ [] →
        o.error? name = some (.noFixedPoint name cap o'.flowPoints) ∧ o.iterations = cap ∧
          o.memory = s.memory ∧ o.propagations = s.propagations ∧ o.flowPoints = o'.flowPoints) ∧
      (o'.error? name = none → o'.iterations = cap → o.error? name = none ∧ o = o') := by
  intro o o' states
  by_cases hne : entries = []
  · -- Without entries neither run has a loop, and both succeed.
    subst hne
    simp [o, o', states, run, runStages, Outcome.error?]
  obtain ⟨-, -, hpoints, hhalts⟩ := run_spec net d entries m cap none hne
  obtain ⟨-, -, hpoints', -⟩ := run_spec net d entries m cap' none hne
  have hends := ending_cases net d m hne cap name
  have hstage : o.ending = .exhausted ↔ ∃ s, states[cap]? = some s ∧ s.queue.toList ≠ [] := by
    rw [exhausted_iff_stage hne hle]
    simp only [states, getElem?_runStages hne, and_assoc, exists_and_left, exists_eq_left']
  refine ⟨fun hok => ?_, ?_, fun s hs hbusy => ?_, fun hok' hvisits => ?_⟩
  · -- The fixed point of the shorter run lies within the larger cap.
    rcases hends with ⟨hfixed, -⟩ | ⟨-, herror⟩
    · have hsame : o' = o := run_eq_of_fixedPoint hne hfixed (hhalts.within.trans hle)
      exact ⟨hsame ▸ hok, hsame⟩
    · cases hok.symm.trans herror
  · -- The outcome of a run without cancellation is decided by the test at `cap` visits.
    rw [← hstage]
    rcases hends with ⟨hfixed, hok⟩ | ⟨hexhausted, herror⟩
    · simp [o, hok, hfixed]
    · exact iff_of_true ⟨_, _, herror⟩ hexhausted
  · -- The longer run is in the state after `cap` visits, where the shorter one was stopped.
    obtain ⟨-, rfl⟩ := (getElem?_runStages hne).mp hs
    have hexhausted := hstage.mpr ⟨_, hs, hbusy⟩
    obtain ⟨hcap, hmemory, hpropagations, -⟩ := run_of_exhausted hne hexhausted
    have hsame : o.flowPoints = o'.flowPoints := hpoints.trans hpoints'.symm
    refine ⟨?_, hcap, hmemory, hpropagations, hsame⟩
    rcases hends with ⟨hfixed, -⟩ | ⟨-, herror⟩
    · cases hexhausted.symm.trans hfixed
    · rwa [hcap, hpoints, ← hpoints'] at herror
  · -- The same argument the other way: the fixed point of the longer run lies within `cap`.
    rcases ending_cases net d m hne cap' name with ⟨hfixed, -⟩ | ⟨-, herror⟩
    · have hsame : o = o' := run_eq_of_fixedPoint hne hfixed (Nat.le_of_eq hvisits)
      exact ⟨hsame ▸ hok', hsame⟩
    · cases hok'.symm.trans herror

/-! ## A domain without a fixed point -/

/-- Counts the commands on a way, without end on a loop. -/
def counting : Domain Nat where
  initial := 0
  transfer _ n := n + 1
  merge := max
  equal a b := a == b

/-- On two commands that lead to each other a count goes on under every cap: three visits are the
beginning of five. -/
theorem cap_only_truncates_ring :
    3 ≤ 5 ∧ (run Network.ring counting 3 none [0] {}).error? "count" =
        some (.noFixedPoint "count" 3 2) ∧
      ∃ s, (runStages Network.ring counting [0] {} 5 none)[3]? = some s ∧
        s.queue.toList = [1] ∧ (run Network.ring counting 3 none [0] {}).memory = s.memory := by
  have hfails : (run Network.ring counting 3 none [0] {}).error? "count" =
      some (.noFixedPoint "count" 3 2) := by decide +kernel
  have hwaits : (runStages Network.ring counting [0] {} 5 none)[3]?.map (·.queue.toList) =
      some [1] := by decide +kernel
  obtain ⟨-, hiff, hleft, -⟩ :=
    cap_only_truncates Network.ring counting [0] {} "count" (show 3 ≤ 5 by decide)
  obtain ⟨s, hs, hbusy⟩ := hiff.mp ⟨3, 2, hfails⟩
  rw [hs] at hwaits
  exact ⟨by decide, hfails, s, hs, Option.some.inj hwaits, (hleft s hs hbusy).2.2.1⟩

end Runs

end Engine

end ScriptFlow
