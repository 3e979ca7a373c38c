import ScriptFlow.Proofs.Analyzer.Findings

/-!
# Paths that are said to be never created

The mildest finding says of a path that the script never creates it. What is known when it is
reported is less: some walk to the point leaves the path alone. Other walks may create it, and the
finding says nothing about them. It is true where the walks to the point agree, either all of them
assigning the path or none.

Main statement: `info_findings_exact`, for every list of points.
-/

namespace ScriptFlow

/-! ## Creation -/

/-- The command creates a path: every operand of `mkdir` and `touch`, and the last of at least two
operands of `cp` and `mv`. -/
def Command.Creates (c : Command) (path : String) : Prop :=
  c.name ∈ ["mkdir", "touch"] ∧ path ∈ c.operands ∨
    c.name ∈ ["cp", "mv"] ∧ 2 ≤ c.operands.length ∧ c.operands.getLast? = some path

/-- What a command creates it assigns. -/
theorem Command.Creates.assignment {c : Command} {path : String} (h : c.Creates path) :
    c.assignment path = some .create := by
  unfold Command.assignment
  rcases h with ⟨hname, hmem⟩ | ⟨hname, hlen, hlast⟩
  · have hmakes : c.name = "mkdir" ∨ c.name = "touch" := by simpa using hname
    rw [if_pos hmakes, if_pos hmem]
  · have hcopies : c.name = "cp" ∨ c.name = "mv" := by simpa using hname
    rcases hcopies with hcp | hmv
    · simp [hcp, hlen, hlast]
    · -- `mv` also removes its other operands, but the last one it creates.
      simp [hmv, Nat.not_lt.mpr hlen, hlast]

namespace Network

/-- No point passed on a walk to `n` creates the path. -/
def Uncreated (net : Network) (entries : List Nat) (n : Nat) (path : String) : Prop :=
  ∀ passed, net.Walk entries passed n → ∀ q ∈ passed, ¬ (Command.parse (net.text q)).Creates path

/-- The walks to `n` agree on whether the path is assigned. -/
def AgreedOn (net : Network) (entries : List Nat) (n : Nat) (path : String) : Prop :=
  ∀ passed passed', net.Walk entries passed n → net.Walk entries passed' n →
    net.lastAssignment path passed = none → net.lastAssignment path passed' = none

variable {net : Network} {entries : List Nat} {n : Nat} {path : String}

theorem lastAssignment_eq_none_iff {passed : List Nat} :
    net.lastAssignment path passed = none ↔
      ∀ q ∈ passed, (Command.parse (net.text q)).assignment path = none :=
  List.findSome?_eq_none_iff

/-- If the walks agree and one of them leaves the path alone, no walk creates it. -/
theorem SometimesLast.uncreated (h : net.SometimesLast entries n path none)
    (hagreed : net.AgreedOn entries n path) : net.Uncreated entries n path := by
  obtain ⟨untouched, hwalk, hnone⟩ := h
  intro passed hpassed q hq hcreates
  -- The walk without an assignment speaks for all others.
  have hnever := lastAssignment_eq_none_iff.mp (hagreed untouched passed hwalk hpassed hnone) q hq
  rw [hcreates.assignment] at hnever
  cases hnever

/-- The finding that the script never creates a path that the command of a point needs. -/
def uncreatedIssue (net : Network) (n : Nat) (path : String) : Issue :=
  { rule := "path-presence"
    filename := ""
    flowPoint := net.idOf n
    text := net.text n
    message :=
      (Command.parse (net.text n)).name ++ ": " ++ path ++ " is never created by the script"
    note := ""
    severity := .info }

/-- The finding tells which path it is about. -/
theorem uncreatedIssue_injective (net : Network) (n : Nat) :
    Function.Injective (net.uncreatedIssue n) := by
  intro path path' h
  have hmessage := congrArg (String.toList ∘ Issue.message) h
  -- The path is what the messages differ in.
  apply String.toList_inj.mp
  simpa [uncreatedIssue] using hmessage

open scoped Classical in
/-- The needed operands at a reached point that some walk leaves alone, in operand order. -/
noncomputable def untouched (net : Network) (entries : List Nat) (n : Nat) : List String :=
  if net.ReachedFrom entries n then
    (Command.parse (net.text n)).required.filter fun path => net.SometimesLast entries n path none
  else []

/-- An untouched operand is needed at a reached point, and some walk leaves it alone. -/
theorem mem_untouched :
    path ∈ net.untouched entries n ↔ net.ReachedFrom entries n ∧
      path ∈ (Command.parse (net.text n)).required ∧ net.SometimesLast entries n path none := by
  unfold untouched
  split
  · rename_i hn
    simp [hn]
  · rename_i hn
    simp [hn]

end Network

/-! ## The mildest findings -/

/-- Among the findings about a path the mildest one is that of a path some walk leaves alone. -/
theorem Fate.issue?_filter_info (f : Fate) (net : Network) (n : Nat) (path : String) :
    (f.issue? (net.idOf n) (net.text n) (Command.parse (net.text n)).name path).filter
        (fun x => decide (x.severity = .info)) =
      if f = .unassigned then some (net.uncreatedIssue n path) else none := by
  cases f <;> rfl

namespace PathPresence

variable {net : Network} {entries : List Nat} {m : Memory PathState} {cap : Nat} {c : Cancellation}
  {name : String}

/-- The findings at a reached point are those that the fates of its needed operands call for. -/
theorem findings_of_reached (hnet : net.Built) (hunused : m.Unused)
    (hok : (Engine.run net pathPresence cap c entries m).error? name = none) {n : Nat}
    (hn : net.ReachedFrom entries n) :
    findings net (Engine.run net pathPresence cap c entries m).memory.input [n] =
      (Command.parse (net.text n)).required.filterMap fun path =>
        (net.fate entries n path).issue? (net.idOf n) (net.text n)
          (Command.parse (net.text n)).name path := by
  obtain ⟨before, hinput, hregular, hallows⟩ := allows_input_iff hnet hunused hok hn
  have hfate : ∀ path, net.fate entries n path = (before.get path).fate :=
    fun path => fate_eq_of_allows (hallows path) (hregular path)
  simp only [findings, List.flatMap_singleton, hinput, findingsAt, finding?_eq, hfate]

/-- There are no findings at a point that is not reached. -/
theorem findings_of_not_reached (hunused : m.Unused) {n : Nat}
    (hn : ¬ net.ReachedFrom entries n) :
    findings net (Engine.run net pathPresence cap c entries m).memory.input [n] = [] := by
  have hinput := (Engine.run_of_not_reached (d := pathPresence) (m := m) hn cap c).2.1
  rw [(hunused n).2] at hinput
  simp [findings, hinput]

/-- The mildest findings at one point. -/
theorem info_findings_point (hnet : net.Built) (hunused : m.Unused)
    (hok : (Engine.run net pathPresence cap c entries m).error? name = none) (n : Nat) :
    (findings net (Engine.run net pathPresence cap c entries m).memory.input [n]).filter
        (fun x => decide (x.severity = .info)) =
      (net.untouched entries n).map (net.uncreatedIssue n) := by
  unfold Network.untouched
  -- At a point that is not reached both lists are empty.
  by_cases hn : net.ReachedFrom entries n
  · rw [findings_of_reached hnet hunused hok hn, List.filter_filterMap, if_pos hn,
      ← List.filterMap_eq_map, List.filterMap_filter]
    -- Both lists go through the needed operands in order; what is left is one operand.
    apply List.filterMap_congr
    intro path _
    have hfate := net.fate_eq_unassigned_iff entries n path
    rw [Fate.issue?_filter_info]
    by_cases hsome : net.SometimesLast entries n path none
    · simp [hfate.mpr hsome, hsome]
    · simp [mt hfate.mp hsome, hsome]
  · rw [findings_of_not_reached hunused hn, if_neg hn]
    rfl

/-- **The mildest finding is reported for the paths that some walk leaves alone.** After a
successful run on an unused memory the findings of this severity at any list of points are, point
by point and in operand order, those about the needed operands that are unassigned on some walk
from an entry. Where the walks to the point agree on whether the path is assigned, no point on any
of them creates the path. -/
theorem info_findings_exact (hnet : net.Built) (hunused : m.Unused)
    (hok : (Engine.run net pathPresence cap c entries m).error? name = none) (points : List Nat) :
    (findings net (Engine.run net pathPresence cap c entries m).memory.input points).filter
        (fun x => decide (x.severity = .info)) =
      points.flatMap (fun n => (net.untouched entries n).map (net.uncreatedIssue n)) ∧
    ∀ n, ∀ path ∈ net.untouched entries n, net.AgreedOn entries n path →
      net.Uncreated entries n path := by
  constructor
  · -- Point by point: the rule is the same at each of them.
    unfold findings
    rw [List.filter_flatMap]
    apply List.flatMap_congr
    intro n _
    rw [← info_findings_point hnet hunused hok n, findings, List.flatMap_singleton]
  · -- Every listed operand is unassigned on some walk.
    intro n path hpath hagreed
    exact (Network.mem_untouched.mp hpath).2.2.uncreated hagreed

/-! ## A directory made on one of two ways -/

/-- A test that leads to the last command over the creation of a directory or past it. -/
def detour : Network :=
  (((Network.empty.newGraph.1.newPoint 0 "test -f flag").1.newPoint 0 "mkdir out").1.newPoint 0
    "cat out notes").1.linkAll [(0, 1), (1, 2), (0, 2)]

theorem detour_built : detour.Built := by
  refine .linkAll (.newPoint 0 "cat out notes" (.newPoint 0 "mkdir out" (.newPoint 0 "test -f flag"
    (.newGraph .empty) ?_) ?_) ?_) _
  · decide
  · decide
  · decide

theorem detour_succeeds :
    (Engine.run detour pathPresence 10 none [0] {}).error? "presence" = none := by
  decide +kernel

theorem detour_findings :
    findings detour (Engine.run detour pathPresence 10 none [0] {}).memory.input [2] =
      [detour.uncreatedIssue 2 "out", detour.uncreatedIssue 2 "notes"] := by
  decide +kernel

/-- No command assigns the second operand. -/
theorem detour_agreedOn : detour.AgreedOn [0] 2 "notes" := by
  have hnever : ∀ q, (Command.parse (detour.text q)).assignment "notes" = none := by
    intro q
    -- There are three commands, and none of them names the path.
    match q with
    | 0 | 1 | 2 => decide +kernel
    | q + 3 => rfl
  intro passed passed' _ _ _
  exact Network.lastAssignment_eq_none_iff.mpr fun q _ => hnever q

/-- Both operands of the last command are reported, and of the second one it is true that nothing
creates it. -/
theorem info_findings_exact_detour :
    detour.Built ∧ ({} : Memory PathState).Unused ∧
      (Engine.run detour pathPresence 10 none [0] {}).error? "presence" = none ∧
      detour.untouched [0] 2 = ["out", "notes"] ∧ detour.Uncreated [0] 2 "notes" := by
  obtain ⟨hfindings, htrue⟩ :=
    info_findings_exact detour_built Memory.unused_empty detour_succeeds [2]
  have hmild : ["out", "notes"].map (detour.uncreatedIssue 2) =
      (detour.untouched [0] 2).map (detour.uncreatedIssue 2) := by
    rw [detour_findings, List.flatMap_singleton] at hfindings
    exact hfindings
  -- Equal findings are about equal paths.
  have huntouched : detour.untouched [0] 2 = ["out", "notes"] :=
    (List.map_injective_iff.mpr (detour.uncreatedIssue_injective 2) hmild).symm
  refine ⟨detour_built, Memory.unused_empty, detour_succeeds, huntouched, ?_⟩
  exact htrue 2 "notes" (by simp [huntouched]) detour_agreedOn

/-- The first operand is reported as never created although the walk over the second command
creates it. -/
theorem info_finding_of_created_path :
    detour.Built ∧ (Engine.run detour pathPresence 10 none [0] {}).error? "presence" = none ∧
      detour.ReachedFrom [0] 2 ∧
      detour.uncreatedIssue 2 "out" ∈
        findings detour (Engine.run detour pathPresence 10 none [0] {}).memory.input [2] ∧
      ¬ detour.Uncreated [0] 2 "out" := by
  -- The walk over the creation of the directory.
  have hwalk : detour.Walk [0] [1, 0] 2 :=
    .step (.step (.entry (List.mem_singleton.mpr rfl)) (by decide +kernel)) (by decide +kernel)
  refine ⟨detour_built, detour_succeeds, hwalk.reachedFrom, ?_, fun hnever => ?_⟩
  · rw [detour_findings]
    exact List.mem_cons_self
  · refine hnever [1, 0] hwalk 1 List.mem_cons_self (Or.inl ?_)
    decide +kernel

end PathPresence

end ScriptFlow
