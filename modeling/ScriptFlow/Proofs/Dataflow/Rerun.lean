import ScriptFlow.Proofs.Dataflow.Termination
import ScriptFlow.Proofs.Dataflow.Walks
import Mathlib.Logic.Nontrivial.Defs

/-!
# Runs on a memory that was used before

A run drops the values of the points it reaches and leaves all others alone, but a visit merges
the values of all predecessors, reached or not. So an earlier run can show in a later one exactly
through the edges that lead into the reached part from outside.

Two states are `Alike` for a run if it cannot tell them apart. Visits keep this, which settles one
direction; for the other a domain is given that notices every value from outside.

Main statement: `rerun_agrees_iff`.
-/

namespace ScriptFlow

namespace Engine

variable {T : Type} {net : Network} {d : Domain T} {entries : List Nat} {m m' : Memory T}

/-- No point with an edge into the part reached from the entries holds a value, unless it is
reached itself. -/
def CleanAround (net : Network) (entries : List Nat) (m : Memory T) : Prop :=
  ∀ n p, net.ReachedFrom entries n → p ∈ net.predecessors n → ¬ net.ReachedFrom entries p →
    m.current.get? p = none

/-- Two runs tell the same about the points in `R`: the same counters, the same error whatever the
name of the domain, and the same values before and after each of the points. -/
structure Agree (R : Nat → Prop) (o o' : Outcome T) : Prop where
  iterations : o.iterations = o'.iterations
  propagations : o.propagations = o'.propagations
  flowPoints : o.flowPoints = o'.flowPoints
  error : ∀ name, o.error? name = o'.error? name
  current : ∀ q, R q → o.memory.current.get? q = o'.memory.current.get? q
  input : ∀ q, R q → o.memory.input.get? q = o'.memory.input.get? q

/-! ## What a run cannot tell apart -/

/-- The memories look the same from the reached points. -/
structure AlikeMemory (net : Network) (entries : List Nat) (m m' : Memory T) : Prop where
  current : ∀ q, net.ReachedFrom entries q → m.current.get? q = m'.current.get? q
  input : ∀ q, net.ReachedFrom entries q → m.input.get? q = m'.input.get? q
  analyzed : ∀ q, net.ReachedFrom entries q → m.analyzed.contains q = m'.analyzed.contains q
  before : ∀ q, net.ReachedFrom entries q → ∀ p ∈ net.predecessors q,
    m.current.get? p = m'.current.get? p

/-- The states differ at most in their memories, and these look the same. -/
structure Alike (net : Network) (entries : List Nat) (s s' : Progress T) : Prop where
  control : s' = { s with memory := s'.memory }
  memory : AlikeMemory net entries s.memory s'.memory

/-- The memories hold the same values on points with an edge into the part reached from the entries,
as far as these are not reached themselves. -/
def SameAround (net : Network) (entries : List Nat) (m m' : Memory T) : Prop :=
  ∀ n p, net.ReachedFrom entries n → p ∈ net.predecessors n → ¬ net.ReachedFrom entries p →
    m.current.get? p = m'.current.get? p

/-- After the values of the reached points are dropped, only those around them can differ. -/
theorem Alike.initial (h : SameAround net entries m m') :
    Alike net entries (start net entries m) (start net entries m') := by
  have hdropped : ∀ q, net.ReachedFrom entries q → q ∈ net.reachableFrom entries :=
    fun q hq => Network.mem_reachableFrom.mpr hq
  refine ⟨rfl, fun q hq => ?_, fun q hq => ?_, fun q hq => ?_, fun q hq p hp => ?_⟩
  · simp [start, (Memory.foldl_forget _ _ _).1, hdropped q hq]
  · simp [start, (Memory.foldl_forget _ _ _).2.1, hdropped q hq]
  · rw [start_analyzed hq, start_analyzed hq]
  · -- A predecessor was dropped with the others, or stands outside with the same value in both.
    by_cases hreached : net.ReachedFrom entries p
    · simp [start, (Memory.foldl_forget _ _ _).1, hdropped p hreached]
    · simp [start, (Memory.foldl_forget _ _ _).1, h q p hq hp hreached]

/-- Queueing does not look at the memory. -/
theorem schedule_withMemory (ps : List Nat) (s : Progress T) (m : Memory T) :
    schedule ps { s with memory := m } = { schedule ps s with memory := m } := by
  -- Induction on the queued points, for every state: each changes the state the next one meets.
  induction ps generalizing s with
  | nil => rfl
  | cons p rest ih =>
    unfold schedule
    dsimp only
    split
    · -- The point waits already, so nothing happens.
      exact ih s
    · exact ih { s with
        queue := s.queue.push p
        waiting := PointMap.mark s.waiting p
        propagations := s.propagations + 1 }

section Visit

variable {s s' : Progress T} {p : Nat} {queue : Queue Nat}

theorem AlikeMemory.inputAt_eq (h : AlikeMemory net entries m m')
    (hp : net.ReachedFrom entries p) (entry : Bool) :
    inputAt net d entry m'.current p = inputAt net d entry m.current p :=
  inputAt_congr fun r hr => (h.before p hp r hr).symm

theorem AlikeMemory.outputAt_eq (h : AlikeMemory net entries m m')
    (hp : net.ReachedFrom entries p) (entry : Bool) :
    outputAt net d entry m'.current p = outputAt net d entry m.current p := by
  unfold outputAt
  rw [h.inputAt_eq hp]

/-- A visit of a reached point settles in both memories or in neither. -/
theorem AlikeMemory.settled_eq (h : AlikeMemory net entries m m')
    (hp : net.ReachedFrom entries p) (marks : PointSet) :
    settled net d marks m' p = settled net d marks m p := by
  unfold settled
  rw [h.outputAt_eq hp, h.analyzed p hp, h.current p hp]

/-- A visit of a reached point writes the same into both memories. -/
theorem AlikeMemory.advance (h : AlikeMemory net entries s.memory s'.memory)
    (hp : net.ReachedFrom entries p) (marks : PointSet) :
    AlikeMemory net entries (advance net d marks s p queue).memory
      (advance net d marks s' p queue).memory := by
  refine ⟨fun q hq => ?_, fun q hq => ?_, fun q hq => ?_, fun q hq r hr => ?_⟩
  · rw [advance_current, advance_current, h.outputAt_eq hp, h.current q hq]
  · rw [advance_input, advance_input, h.inputAt_eq hp, h.input q hq]
  · rw [advance_analyzed, advance_analyzed, h.analyzed q hq]
  · rw [advance_current, advance_current, h.outputAt_eq hp, h.before q hq r hr]

/-- A visit of a reached point keeps states alike. -/
theorem Alike.advance (h : Alike net entries s s') (hp : net.ReachedFrom entries p)
    (marks : PointSet) :
    Alike net entries (advance net d marks s p queue) (advance net d marks s' p queue) := by
  refine ⟨?_, h.memory.advance hp marks⟩
  -- The two stored states still differ in their memories only.
  have hstored : stored net d marks s' p queue =
      { stored net d marks s p queue with memory := (stored net d marks s' p queue).memory } := by
    unfold stored
    rw [h.control]
  -- Both visits settle or neither does, and what they queue does not depend on the memory.
  rw [advance_memory, advance_eq, advance_eq, h.memory.settled_eq hp]
  cases settled net d marks s.memory p with
  | true => exact hstored
  | false =>
    simp only [Bool.false_eq_true, if_false]
    -- Rewrite one side alone: the other is a record update of the state the rewriting would hit
    -- too.
    conv_lhs => rw [hstored]
    exact schedule_withMemory _ _ _

end Visit

/-! ## Runs that agree -/

section Loop

variable {marks : PointSet} {c : Cancellation} {s s' : Progress T}

theorem Alike.queue_eq (h : Alike net entries s s') : s'.queue = s.queue := by
  rw [h.control]

theorem Alike.iterations_eq (h : Alike net entries s s') : s'.iterations = s.iterations := by
  rw [h.control]

/-- One turn of the loop keeps states alike. -/
theorem Alike.turn (h : Alike net entries s s') (hbook : Bookkeeping net entries s) :
    Alike net entries (turn net d marks s) (turn net d marks s') := by
  cases hpop : s.queue.pop? with
  | none =>
    have hpop' : s'.queue.pop? = none := by rw [h.queue_eq, hpop]
    simpa [Engine.turn, hpop, hpop'] using h
  | some next =>
    obtain ⟨p, queue⟩ := next
    have hpop' : s'.queue.pop? = some (p, queue) := by rw [h.queue_eq, hpop]
    rw [turn_of_pop? hpop, turn_of_pop? hpop']
    -- Whatever waits is reached, which is what a visit needs.
    exact h.advance (hbook.reached p (Queue.toList_of_pop? hpop ▸ List.mem_cons_self)) marks

theorem Bookkeeping.turn (hbook : Bookkeeping net entries s) :
    Bookkeeping net entries (turn net d marks s) := by
  cases hpop : s.queue.pop? with
  | none => simpa [Engine.turn, hpop] using hbook
  | some next =>
    rw [turn_of_pop? hpop]
    exact hbook.step hpop

/-- The loop ends on states that are alike, for the same reason. -/
theorem Alike.settle (d : Domain T) (marks : PointSet) (c : Cancellation) (room : Nat)
    (h : Alike net entries s s') (hbook : Bookkeeping net entries s) :
    Alike net entries (settle net d marks c room s).1 (settle net d marks c room s').1 ∧
      (settle net d marks c room s').2 = (settle net d marks c room s).2 := by
  induction room generalizing s s' with
  | zero =>
    -- Both runs look at the same queue and the same counter, so they leave by the same branch.
    rw [settle_eq 0 s, settle_eq 0 s', h.queue_eq, h.iterations_eq]
    split
    · exact ⟨h, rfl⟩
    · split
      · exact ⟨h, rfl⟩
      · exact ⟨h, rfl⟩
  | succ room ih =>
    rw [settle_eq (room + 1) s, settle_eq (room + 1) s', h.queue_eq, h.iterations_eq]
    split
    · exact ⟨h, rfl⟩
    · split
      · exact ⟨h, rfl⟩
      · -- The round continues in both, on states that are alike again.
        exact ih (h.turn hbook) hbook.turn

end Loop

/-- Runs on memories that hold the same values around the reached part agree there. -/
theorem agree_of_sameAround (h : SameAround net entries m m') (d : Domain T) (cap : Nat)
    (c : Cancellation) :
    Agree (net.ReachedFrom entries) (run net d cap c entries m) (run net d cap c entries m') := by
  by_cases hne : entries = []
  · subst hne
    -- Nothing is reached from no entries, so the memories need not agree anywhere.
    have hnone : ∀ q, ¬ net.ReachedFrom [] q := by
      rintro q ⟨e, he, -⟩
      exact absurd he (by simp)
    exact ⟨rfl, rfl, rfl, fun _ => rfl, fun q hq => absurd hq (hnone q),
      fun q hq => absurd hq (hnone q)⟩
  · obtain ⟨hstates, hending⟩ :=
      (Alike.initial h).settle d (entrySet entries) c cap Bookkeeping.initial
    rw [run_eq net d entries m cap c hne, run_eq net d entries m' cap c hne]
    have hiterations := hstates.iterations_eq
    -- The parts of the outcome, in the order of `Agree`.
    refine ⟨hiterations.symm, ?_, rfl, fun name => ?_, hstates.memory.current, hstates.memory.input⟩
    · exact (congrArg Progress.propagations hstates.control).symm
    · dsimp only [Outcome.error?]
      -- The error is made of the ending and the counter only.
      rw [hending, hiterations]

/-- On a memory that is clean around the reached part a run does what it does on an unused one. -/
theorem agree_of_cleanAround (hclean : CleanAround net entries m) (hunused : m'.Unused)
    (d : Domain T) (cap : Nat) (c : Cancellation) :
    Agree (net.ReachedFrom entries) (run net d cap c entries m) (run net d cap c entries m') := by
  apply agree_of_sameAround
  intro n p hn hp hout
  -- Where the used memory is clean it holds nothing, as the unused one does.
  rw [hclean n p hn hp hout, (hunused p).1]

/-! ## A domain that notices every value from outside -/

/-- Outcomes are always `clean`, and a merge is `stale` as soon as one of its sides is. -/
def probe [DecidableEq T] (stale clean : T) : Domain T where
  initial := clean
  transfer _ _ := clean
  merge a b := if a = stale ∨ b = stale then stale else clean
  equal a b := decide (a = b)

section Probe

variable [DecidableEq T] {stale clean : T}

/-- The probe watches its stale value, which no transfer brings about. -/
theorem probe_observes (hne : clean ≠ stale) :
    (probe stale clean).Observes (fun _ => True) (· = stale) (fun _ => False) (fun _ => False) where
  initial := trivial
  merge _ _ _ _ := trivial
  transfer _ _ _ := trivial
  merge_iff a b _ _ := by
    dsimp only [probe]
    split
    · simp [*]
    · simp [*]
  transfer_iff site a _ := by
    simpa [probe] using hne

/-- The probe counts values as the same exactly when they are equal. -/
theorem probe_equal {a b : T} : (probe stale clean).equal a b = true ↔ a = b :=
  decide_eq_true_iff

/-- Every visited point holds the clean value, whatever was merged there. -/
theorem probe_value (n : Nat) {q : Nat} (hq : net.ReachedFrom entries q)
    (hmarked : (stateAfter net (probe stale clean) entries m n).memory.analyzed.contains q = true) :
    (stateAfter net (probe stale clean) entries m n).memory.current.get? q = some clean := by
  revert hmarked
  refine stateAfter_induction net (probe stale clean) entries m
    (I := fun s => s.memory.analyzed.contains q = true → s.memory.current.get? q = some clean)
    (fun hmarked => ?_) (fun n p queue _ ih hmarked => ?_) n
  · rw [start_analyzed hq] at hmarked
    exact absurd hmarked (by simp)
  · rw [advance_current]
    rw [advance_analyzed, Bool.or_eq_true, decide_eq_true_eq] at hmarked
    split
    · rfl
    -- The mark is not new, so neither is the value.
    · exact ih (hmarked.resolve_left ‹_›)

/-- One visit of each point is enough: the second one settles. -/
theorem probe_budgets : Budgets net (probe stale clean) entries m fun n q =>
      if (stateAfter net (probe stale clean) entries m n).memory.analyzed.contains q then 0
      else 1 where
  le n q := by
    by_cases hmarked :
        (stateAfter net (probe stale clean) entries m n).memory.analyzed.contains q = true
    · -- Marks stay, so nothing was left before and nothing is left now.
      rw [if_pos (analyzed_stateAfter_succ net (probe stale clean) entries m hmarked)]
      exact Nat.zero_le _
    · rw [if_neg hmarked]
      split
      · exact Nat.zero_le 1
      · exact Nat.le_refl 1
  lt n p queue hpop hsettled := by
    have hunmarked :
        (stateAfter net (probe stale clean) entries m n).memory.analyzed.contains p = false := by
      -- A marked point holds the clean value, which is its outcome again.
      by_contra hmarked
      rw [Bool.not_eq_false] at hmarked
      have hvalue := probe_value n (reached_of_pop? hpop) hmarked
      have hsame : (probe stale clean).equal clean (outputAt net (probe stale clean)
          (decide (p ∈ entries)) (stateAfter net (probe stale clean) entries m n).memory.current
          p) = true :=
        probe_equal.mpr rfl
      simp [settled, hmarked, hvalue, hsame] at hsettled
    -- The visit marks the point, and one becomes nothing.
    rw [stateAfter_succ, turn_of_pop? hpop, advance_analyzed, hunmarked]
    simp

/-- Runs of the probe succeed when their cap is large enough. -/
theorem probe_succeeds (net : Network) (stale clean : T) (entries : List Nat) (m : Memory T)
    (name : String) :
    ∃ cap, (run net (probe stale clean) cap none entries m).error? name = none :=
  ⟨_, probe_budgets.error?_eq_none name (Nat.le_refl _)⟩

/-- A run of the probe shows the stale value before a reached point with an unreached predecessor
that holds it. -/
theorem probe_input_of_stale (hnet : net.Built) (hne : clean ≠ stale) {cap : Nat} {name : String}
    (hok : (run net (probe stale clean) cap none entries m).error? name = none) {n p : Nat}
    (hn : net.ReachedFrom entries n) (hp : p ∈ net.predecessors n)
    (hout : ¬ net.ReachedFrom entries p) (hstale : m.current.get? p = some stale) :
    (run net (probe stale clean) cap none entries m).memory.input.get? n = some stale := by
  obtain ⟨-, harrives, hinput, -⟩ :=
    solved_of_error?_none hnet (fun _ _ => probe_equal.mp) hok hn
  have hobserved := (observes_inputAt (probe_observes hne) harrives fun _ _ _ => trivial).2
  -- The value from outside is still there, since runs leave unreached points alone.
  rw [hinput, hobserved.mpr (Or.inr ⟨p, hp, stale, ?_, rfl⟩)]
  rw [(run_of_not_reached hout cap none).1, hstale]

/-- On an unused memory it never does. -/
theorem probe_input_of_unused (hnet : net.Built) (hne : clean ≠ stale) (hunused : m.Unused)
    {cap : Nat} {name : String}
    (hok : (run net (probe stale clean) cap none entries m).error? name = none) {n : Nat}
    (hn : net.ReachedFrom entries n) :
    (run net (probe stale clean) cap none entries m).memory.input.get? n ≠ some stale := by
  obtain ⟨v, hv, -, hseen⟩ :=
    observed_input_iff hnet (fun _ _ => probe_equal.mp) hunused (probe_observes hne) hok hn
  rw [hv]
  intro hstale
  obtain ⟨passed, -, hpassed⟩ := hseen.mp (Option.some.inj hstale)
  -- No point of a walk brings the stale value about, and it does not hold at an entry.
  cases passed with
  | nil => exact hne hpassed
  | cons p passed => exact hpassed.elim id (fun h => h.1)

end Probe

/-! ## The exact condition -/

/-- **When a run cannot be influenced by what was stored before**: if and only if no unreached
predecessor of a reached point holds a value. Then every domain gives the same result, the same
error and the same values on the reached points as on a memory that was never used; otherwise some
domain does not. -/
theorem rerun_agrees_iff [Nontrivial T] (hnet : net.Built) (entries : List Nat) (m : Memory T) :
    (∀ (d : Domain T) (cap : Nat) (m' : Memory T), m'.Unused →
      Agree (net.ReachedFrom entries) (run net d cap none entries m)
        (run net d cap none entries m')) ↔
      CleanAround net entries m := by
  classical
  refine ⟨fun hagree n p hn hp hout => ?_, fun hclean d cap m' hunused =>
    agree_of_cleanAround hclean hunused d cap none⟩
  -- A value found outside is made the stale value of a probe.
  by_contra hsome
  obtain ⟨stale, hstale⟩ := Option.ne_none_iff_exists'.mp hsome
  obtain ⟨clean, hne⟩ := exists_ne stale
  obtain ⟨cap, hok⟩ := probe_succeeds net stale clean entries m ""
  have hsame := hagree (probe stale clean) cap {} Memory.unused_empty
  have hinput := probe_input_of_stale hnet hne hok hn hp hout hstale
  -- The run on the empty memory would have to succeed with the same stale input.
  rw [hsame.error] at hok
  rw [hsame.input n hn] at hinput
  exact probe_input_of_unused hnet hne Memory.unused_empty hok hn hinput

/-! ## Two ways that meet -/

/-- Two commands that both lead to a third. -/
def confluence : Network :=
  ((((Network.empty.newGraph.1.newPoint 0 "a").1.newPoint 0 "b").1.newPoint 0 "c").1.link 0 1).link
    2 1

theorem confluence_built : confluence.Built := by
  refine .link 2 1 (.link 0 1 (.newPoint 0 "c" (.newPoint 0 "b" (.newPoint 0 "a"
    (.newGraph .empty) ?_) ?_) ?_))
  · decide
  · decide
  · decide

/-- What a collection of names from the last command leaves. -/
def confluenceUsed : Memory (ItemSet String) :=
  (run confluence labels 10 none [2] {}).memory

/-- The second way in is not reached from the first, and it holds a value. -/
theorem not_cleanAround_confluence : ¬ CleanAround confluence [0] confluenceUsed := by
  intro hclean
  have hreached : confluence.ReachedFrom [0] 1 :=
    (Network.ReachedFrom.of_mem (List.mem_singleton.mpr rfl)).step (by decide)
  have hout : ¬ confluence.ReachedFrom [0] 2 := by
    rw [← Network.mem_reachableFrom]
    decide +kernel
  have hvalue : (confluenceUsed.current.get? 2).isSome = true := by decide +kernel
  rw [hclean 1 2 hreached (by decide) hout] at hvalue
  exact absurd hvalue (by simp)

/-- Both ways entered at once leave no predecessor outside. -/
theorem cleanAround_confluence : CleanAround confluence [0, 2] confluenceUsed := by
  intro n p hn hp hout
  rw [← Network.mem_reachableFrom] at hn hout
  -- Closed under predecessors: nothing outside leads in.
  have hclosed : ∀ n ∈ confluence.reachableFrom [0, 2], ∀ p ∈ confluence.predecessors n,
      p ∈ confluence.reachableFrom [0, 2] := by
    decide +kernel
  exact absurd (hclosed n hn p hp) hout

/-- Two different sets of names, for the probe. -/
instance : Nontrivial (ItemSet String) :=
  ⟨.empty, ItemSet.insert .empty "a", by decide +kernel⟩

/-- A collection of names from the first command merges what an earlier one from the last command
left there, although the last command is not reached. -/
theorem rerun_merges_stale_value :
    (run confluence labels 10 none [2] {}).error? "labels" = none ∧
      ((run confluence labels 10 none [0] confluenceUsed).memory.input.get? 1).map (·.items) =
        some ["a", "c"] ∧
      ((run confluence labels 10 none [0] {}).memory.input.get? 1).map (·.items) = some ["a"] ∧
      ¬ Agree (confluence.ReachedFrom [0]) (run confluence labels 10 none [0] confluenceUsed)
        (run confluence labels 10 none [0] {}) := by
  have hused : ((run confluence labels 10 none [0] confluenceUsed).memory.input.get? 1).map
      (·.items) = some ["a", "c"] := by decide +kernel
  have hunused : ((run confluence labels 10 none [0] {}).memory.input.get? 1).map (·.items) =
      some ["a"] := by decide +kernel
  refine ⟨by decide +kernel, hused, hunused, fun hagree => ?_⟩
  have hreached : confluence.ReachedFrom [0] 1 :=
    (Network.ReachedFrom.of_mem (List.mem_singleton.mpr rfl)).step (by decide)
  rw [hagree.input 1 hreached, hunused] at hused
  exact absurd hused (by decide)

/-- From the first command alone some domain shows the earlier run; from both ends none does. -/
theorem rerun_agrees_iff_confluence :
    confluence.Built ∧ Nontrivial (ItemSet String) ∧
      (¬ ∀ (d : Domain (ItemSet String)) (cap : Nat) (m' : Memory (ItemSet String)), m'.Unused →
        Agree (confluence.ReachedFrom [0]) (run confluence d cap none [0] confluenceUsed)
          (run confluence d cap none [0] m')) ∧
      ∀ (d : Domain (ItemSet String)) (cap : Nat) (m' : Memory (ItemSet String)), m'.Unused →
        Agree (confluence.ReachedFrom [0, 2]) (run confluence d cap none [0, 2] confluenceUsed)
          (run confluence d cap none [0, 2] m') := by
  refine ⟨confluence_built, inferInstance, fun hagree => ?_, ?_⟩
  · exact not_cleanAround_confluence
      ((rerun_agrees_iff confluence_built [0] confluenceUsed).mp hagree)
  · exact (rerun_agrees_iff confluence_built [0, 2] confluenceUsed).mpr cleanAround_confluence

end Engine

end ScriptFlow
