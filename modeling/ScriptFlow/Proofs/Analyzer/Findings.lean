import ScriptFlow.Proofs.Analyzer.Passes
import ScriptFlow.Proofs.Description.Build
import ScriptFlow.Proofs.Domains.PathPresence

/-!
# Which findings a script gets

The findings of the presence analysis, read off the script alone: at each reached point, for each
operand that the command needs, the last assignments of the path on all walks to the point tell
whether there is a finding and how severe it is.

Main statement: `findings_exact`, from the description of a graph to the report about it.
-/

namespace ScriptFlow

/-! ## The fate of a path -/

/-- What the walks to a point tell about a path. -/
inductive Fate
  /-- Every walk creates it last. -/
  | created
  /-- Every walk removes it last. -/
  | removed
  /-- Every walk assigns it, and the last assignments differ. -/
  | mixed
  /-- Some walk never assigns it. -/
  | unassigned
deriving DecidableEq, Repr

/-- There are only two effects. -/
theorem Command.Effect.eq_iff_ne {e f : Effect} (h : e ≠ f) (g : Effect) : g = e ↔ g ≠ f := by
  cases e <;> cases f <;> cases g <;> simp at h ⊢

namespace Network

variable (net : Network) (entries : List Nat) (n : Nat) (path : String)

/-- On every walk to the point the last assignment of the path is the given one. -/
def AlwaysLast (e : Command.Effect) : Prop :=
  ∀ passed, net.Walk entries passed n → net.lastAssignment path passed = some e

/-- The last assignment of the path, or the lack of any, occurs on some walk to the point. -/
def SometimesLast (e : Option Command.Effect) : Prop :=
  ∃ passed, net.Walk entries passed n ∧ net.lastAssignment path passed = e

open scoped Classical in
/-- The fate of a path before a point. -/
noncomputable def fate : Fate :=
  if net.AlwaysLast entries n path .create then .created
  else if net.AlwaysLast entries n path .remove then .removed
  else if ¬ net.SometimesLast entries n path none ∧
      net.SometimesLast entries n path (some .create) ∧
      net.SometimesLast entries n path (some .remove) then .mixed
  else .unassigned

/-- What is left when no other fate applies is that some walk never assigns the path. -/
theorem fate_eq_unassigned_iff :
    net.fate entries n path = .unassigned ↔ net.SometimesLast entries n path none := by
  constructor
  · intro hfate
    unfold fate at hfate
    -- The last branch is left, so each test before it failed.
    split_ifs at hfate with hcreate hremove hmixed
    by_contra hassigned
    -- All walks assign the path, and neither effect is the last one on all of them.
    have hother : ∀ e f : Command.Effect, e ≠ f → ¬ net.AlwaysLast entries n path e →
        net.SometimesLast entries n path (some f) := by
      intro e f hef hnot
      unfold AlwaysLast at hnot
      push Not at hnot
      obtain ⟨passed, hwalk, hne⟩ := hnot
      obtain ⟨g, hg⟩ := Option.ne_none_iff_exists'.mp fun h => hassigned ⟨passed, hwalk, h⟩
      rw [hg, Ne, Option.some_inj] at hne
      have hgf : g = f := (Command.Effect.eq_iff_ne hef.symm g).mpr hne
      exact ⟨passed, hwalk, hgf ▸ hg⟩
    exact hmixed ⟨hassigned, hother .remove .create (by decide) hremove,
      hother .create .remove (by decide) hcreate⟩
  · rintro ⟨passed, hwalk, hnone⟩
    have hnever : ∀ e, ¬ net.AlwaysLast entries n path e := by
      intro e h
      exact absurd (hnone.symm.trans (h passed hwalk)) (by simp)
    have hsometimes : net.SometimesLast entries n path none := ⟨passed, hwalk, hnone⟩
    simp [fate, hnever, hsometimes]

end Network

/-- The fate that a value of the analysis stands for. -/
def Presence.fate (v : Presence) : Fate :=
  if v = .present ∨ v = .bottom then .created
  else if v = .absent then .removed
  else if v = .maybe then .mixed
  else .unassigned

namespace PathPresence

variable {net : Network} {entries : List Nat} {n : Nat} {path : String}

section Values

variable {v : Presence} (hallows : ∀ E, v.Allows E ↔
  ∃ passed, net.Walk entries passed n ∧ ∀ e, net.lastAssignment path passed = some e → E e)

include hallows

/-- A walk that leaves the path in the other effect, or unassigned, allows that effect. -/
theorem alwaysLast_iff_not_allows {e f : Command.Effect} (hef : e ≠ f) :
    net.AlwaysLast entries n path e ↔ ¬ v.Allows (· = f) := by
  rw [hallows]
  simp only [not_exists, not_and, Network.AlwaysLast]
  -- Walk by walk: its last assignment is the effect, or there is none, or it is the other one.
  refine forall_congr' fun passed => imp_congr_right fun _ => ?_
  cases net.lastAssignment path passed with
  | none => simp
  | some g => simpa using Command.Effect.eq_iff_ne hef g

theorem sometimesLast_none_iff : net.SometimesLast entries n path none ↔ v = .top := by
  rw [Presence.eq_top_iff, hallows]
  simp only [Network.SometimesLast, imp_false, Option.eq_none_iff_forall_ne_some]

/-- For any other value every walk assigns the path. -/
theorem sometimesLast_some_iff (hne : v ≠ .top) {e : Command.Effect} :
    net.SometimesLast entries n path (some e) ↔ v.Allows (· = e) := by
  rw [hallows]
  refine exists_congr fun passed => and_congr_right fun hwalk => ?_
  have hassigned : net.lastAssignment path passed ≠ none := fun h =>
    hne ((sometimesLast_none_iff hallows).mp ⟨passed, hwalk, h⟩)
  obtain ⟨f, hf⟩ := Option.ne_none_iff_exists'.mp hassigned
  simp [hf]

/-- A known value that leaves room for exactly the last assignments on the walks to a point stands
for the fate of the path there. -/
theorem fate_eq_of_allows (hv : v.Known) : net.fate entries n path = v.fate := by
  have hcreated : net.AlwaysLast entries n path .create ↔ v = .present := by
    rw [alwaysLast_iff_not_allows hallows (f := .remove) (by decide), Presence.eq_present_iff hv]
  have hremoved : net.AlwaysLast entries n path .remove ↔ v = .absent := by
    rw [alwaysLast_iff_not_allows hallows (f := .create) (by decide), Presence.eq_absent_iff hv]
  have hmixed : (¬ net.SometimesLast entries n path none ∧
      net.SometimesLast entries n path (some .create) ∧
      net.SometimesLast entries n path (some .remove)) ↔ v = .maybe := by
    rw [Presence.eq_maybe_iff hv, sometimesLast_none_iff hallows]
    refine and_congr_right fun hne => ?_
    rw [sometimesLast_some_iff hallows hne, sometimesLast_some_iff hallows hne]
  -- No known value is the bottom one, so it may be left out of the first case.
  have hbottom : v ≠ .bottom := by
    rcases hv with rfl | rfl | rfl | rfl <;> decide
  simp only [Network.fate, Presence.fate, hcreated, hremoved, hmixed, hbottom, or_false]

end Values

end PathPresence

/-! ## The finding about a path -/

/-- The finding about a path that the command of a point needs, if its fate calls for one. -/
def Fate.issue? (f : Fate) (id : Nat) (text command path : String) : Option Issue :=
  let found (severity : Severity) (ending note : String) : Issue :=
    { rule := "path-presence", filename := "", flowPoint := id, text := text,
      message := command ++ ": " ++ path ++ ending, note := note, severity := severity }
  match f with
  | created => none
  | removed => some (found .error " does not exist on any path" "")
  | mixed =>
    some (found .warning " does not exist on every path" "create it on all branches before use")
  | unassigned => some (found .info " is never created by the script" "")

theorem PathPresence.finding?_eq (id : Nat) (text command path : String) (v : Presence) :
    finding? id text command path v = v.fate.issue? id text command path := by
  unfold finding? Presence.fate
  split_ifs <;> rfl

theorem Fate.of_issue?_eq_some {f : Fate} {id : Nat} {text command path : String} {x : Issue}
    (h : f.issue? id text command path = some x) :
    x.flowPoint = id ∧ x.rule = "path-presence" := by
  cases f with
  | created => cases h
  | removed | mixed | unassigned =>
    cases h
    exact ⟨rfl, rfl⟩

/-! ## Needed operands -/

/-- Whether the operand at a position has to exist: a removal, `cd` and `cat` need all of their
operands, a copy and a move need all but the last. -/
def Command.needs (c : Command) (i : Nat) : Bool :=
  decide (c.name ∈ ["rm", "rmdir", "cd", "cat"]) ||
    decide (c.name ∈ ["cp", "mv"]) && decide (i + 1 < c.operands.length)

/-- The operands that have to exist are those at the needed positions. -/
theorem Command.required_eq (c : Command) :
    c.required = c.operands.zipIdx.filterMap fun x => if c.needs x.2 then some x.1 else none := by
  unfold required
  split
  · -- All operands are needed.
    rename_i hall
    rw [filterMap_zipIdx_of_forall]
    intro i _
    simp [needs, hall]
  · rename_i hall
    split
    · -- All operands but the last are needed.
      rename_i hsources
      have hneeds : ∀ i, c.needs i = decide (i + 1 < c.operands.length) := by
        intro i
        simp [needs, hall, hsources]
      simp only [hneeds]
      rw [filterMap_zipIdx_dropLast]
      -- A single operand is the last one.
      split
      · rename_i hshort
        symm
        rw [← List.length_eq_zero_iff, List.length_dropLast]
        omega
      · rfl
    · -- The command needs nothing.
      rename_i hsources
      have hneeds : ∀ i, c.needs i = false := by
        intro i
        simp [needs, hall, hsources]
      simp [hneeds]

/-! ## The findings at one node -/

/-- The findings about the operands that a node needs, in operand order, given the fates of all
paths before its point. -/
def NodeDescription.findings (n : NodeDescription) (i : Nat) (fates : String → Fate) :
    List Issue :=
  let c := Command.parse n.command
  c.operands.zipIdx.filterMap fun x =>
    if c.needs x.2 then (fates x.1).issue? i n.command c.name x.1 else none

theorem NodeDescription.of_mem_findings {n : NodeDescription} {i : Nat} {fates : String → Fate}
    {x : Issue} (h : x ∈ n.findings i fates) : x.flowPoint = i ∧ x.rule = "path-presence" := by
  obtain ⟨operand, -, hissue⟩ := List.mem_filterMap.mp h
  split at hissue
  · exact Fate.of_issue?_eq_some hissue
  · cases hissue

/-- The findings at a point depend on the state before it through the fates of its paths. -/
theorem PathPresence.findingsAt_eq (n : NodeDescription) (i : Nat) (before : PathState) :
    findingsAt i n.command before = n.findings i fun path => (before.get path).fate := by
  simp only [findingsAt, NodeDescription.findings, Command.required_eq, List.filterMap_filterMap,
    finding?_eq]
  apply List.filterMap_congr
  intro x _
  split <;> rfl

/-! ## The findings of a graph -/

open scoped Classical in
/-- The findings about the point of a node: none if it is not reached, and none if the annotation
of the graph or that of the node switches the rule off. -/
noncomputable def Script.dueAt (s : Script) (note : String) (n : NodeDescription) (i : Nat) :
    List Issue :=
  if s.network.ReachedFrom s.entries i ∧
      ¬ (Scope.switchesOff note "path-presence" ∨ Scope.switchesOff n.nolint "path-presence") then
    n.findings i (s.network.fate s.entries i)
  else []

/-- The findings about the graph of a description, node by node in the order of declaration. -/
noncomputable def Description.due (d : Description) (s : Script) : List Issue :=
  d.nodes.zipIdx.flatMap fun x => s.dueAt d.nolint x.1 x.2

namespace Analyzer

section Presence

variable {note : String} {nodes : List NodeDescription} {s : Script}

/-- All findings about a point have the same rule, so its annotations hide all of them or none. -/
theorem visible_findings_node (hs : s.Lists note nodes) {n : NodeDescription} {i : Nat}
    (hn : nodes[i]? = some n) (fates : String → Fate) :
    visible s (n.findings i fates) =
      if Scope.switchesOff note "path-presence" ∨ Scope.switchesOff n.nolint "path-presence" then []
      else n.findings i fates := by
  have hrule : ∀ x ∈ n.findings i fates, s.suppressions.suppresses x.flowPoint x.rule =
      (Scope.switchesOff note "path-presence" || Scope.switchesOff n.nolint "path-presence") := by
    intro x hx
    obtain ⟨hid, hname⟩ := NodeDescription.of_mem_findings hx
    rw [hid, hname, hs.suppresses, hn, Option.any_some]
  unfold visible
  -- Switched off: every finding is hidden.
  split
  · rename_i hoff
    rw [← Bool.or_eq_true] at hoff
    rw [List.filter_eq_nil_iff]
    intro x hx
    rw [hrule x hx, hoff]
    decide
  · -- Left on: no finding is hidden.
    rename_i hon
    rw [List.filter_eq_self]
    intro x hx
    simpa [hrule x hx] using hon

variable {cap : Nat} {c : Cancellation} {name : String}

/-- The findings that are shown after a successful run are those that are due. -/
theorem visible_findings_run (hs : s.Lists note nodes)
    (hok : (Engine.run s.network pathPresence cap c s.entries {}).error? name = none) :
    visible s (PathPresence.findings s.network
        (Engine.run s.network pathPresence cap c s.entries {}).memory.input s.points) =
      nodes.zipIdx.flatMap fun x => s.dueAt note x.1 x.2 := by
  -- The points of the script are the positions of the nodes.
  have hpoints : s.points = nodes.zipIdx.map Prod.snd := by
    rw [hs.points, List.zipIdx_map_snd, List.range_eq_range']
  unfold visible PathPresence.findings
  rw [List.filter_flatMap, hpoints, List.flatMap_map]
  apply List.flatMap_congr
  intro x hx
  have hn : nodes[x.2]? = some x.1 := List.mem_zipIdx_iff_getElem?.mp hx
  have hsite : s.network.site x.2 = ⟨x.2, x.1.command⟩ := hs.site x.2 x.1 hn
  have hid : s.network.idOf x.2 = x.2 := congrArg Site.id hsite
  have htext : s.network.text x.2 = x.1.command := congrArg Site.text hsite
  by_cases hreached : s.network.ReachedFrom s.entries x.2
  · obtain ⟨before, hinput, hregular, hallows⟩ :=
      PathPresence.allows_input_iff hs.built Memory.unused_empty hok hreached
    have hfate : ∀ path, s.network.fate s.entries x.2 path = (before.get path).fate :=
      fun path => PathPresence.fate_eq_of_allows (hallows path) (hregular path)
    have hnode := visible_findings_node hs hn (s.network.fate s.entries x.2)
    -- The state before the point is replaced by the fates it stands for.
    simp only [hinput, hid, htext, PathPresence.findingsAt_eq, ← hfate, Script.dueAt, hreached,
      true_and, ite_not]
    exact hnode
  · -- No run comes to an unreached point, so there is no state before it.
    have hinput := (Engine.run_of_not_reached (d := pathPresence) (m := {}) hreached cap c).2.1
    have hnone : ({} : Memory PathState).input.get? x.2 = none := rfl
    simp [hinput, hnone, Script.dueAt, hreached]

end Presence

/-- Among passes that succeed only the presence analysis has findings. -/
theorem Succeed.issues {a : Analyzer} {s : Script} {c : Cancellation}
    {xs : List Analysis} {outs : List (DomainReport × List Issue)} (h : a.Succeed s c xs outs) :
    (.presence ∈ xs →
        (Engine.run s.network pathPresence a.cap c s.entries {}).error? "presence" = none) ∧
      outs.flatMap Prod.snd = (List.replicate (xs.count .presence)
        (visible s (PathPresence.findings s.network
          (Engine.run s.network pathPresence a.cap c s.entries {}).memory.input
          s.points))).flatten := by
  -- Induction on the passes: each presence analysis lists the same findings again.
  induction h with
  | nil => simp
  | @cons x out xs outs hx hrest ih =>
    cases x with
    | reachability =>
      obtain ⟨-, rfl⟩ := pass_eq_ok hx
      simpa using ih
    | labels =>
      obtain ⟨-, rfl⟩ := pass_eq_ok hx
      simpa using ih
    | presence =>
      -- Every presence pass runs on fresh values, so all of them find the same.
      obtain ⟨hok, rfl⟩ := pass_eq_ok hx
      refine ⟨fun _ => hok, ?_⟩
      rw [List.flatMap_cons, ih.2, List.count_cons_self, List.replicate_succ, List.flatten_cons]

end Analyzer

/-- **The report holds exactly the findings that are due.** For a graph made from a description and
a configuration that asks for the presence analysis once, an analysis that succeeds reports, node
by node and operand by operand, what the fates of the paths call for. The fate that is left when no
other one applies means that some walk never assigns the path. -/
theorem findings_exact {d : Description} {s : Script} {conf : Config} {a : Analyzer}
    (hbuild : d.build = .ok s) (hnew : Analyzer.new? conf = .ok a)
    (honce : conf.domains.count "presence" = 1) (c : Cancellation)
    (hok : (a.graph s c).error = none) :
    (a.graph s c).report.issues = d.due s ∧
      ∀ i path, s.network.fate s.entries i path = .unassigned ↔
        s.network.SometimesLast s.entries i path none := by
  refine ⟨?_, fun i path => s.network.fate_eq_unassigned_iff s.entries i path⟩
  obtain ⟨outs, hdone, -, hissues⟩ := Analyzer.graph_spec_of_ok hok
  -- The configuration asks for the presence analysis once, so its findings are listed once.
  have hcount : a.analyses.count .presence = 1 := by
    rw [← List.count_map_of_injective _ _ Analysis.name_injective, (Analyzer.new?_eq_ok hnew).1]
    -- Names of analyses are counted as the analyses are.
    exact honce
  have hmem : .presence ∈ a.analyses := by
    rw [← List.count_pos_iff, hcount]
    exact Nat.one_pos
  obtain ⟨hrun, hfound⟩ := hdone.issues
  rw [hissues, hfound, hcount, List.replicate_one, List.flatten_singleton]
  exact Analyzer.visible_findings_run (Description.lists_of_build hbuild) (hrun hmem)

/-- Walks come into the loop over two branches, of which one removes `a` and the other creates `b`.
The removal behind the loop has an annotation that hides its finding, and after it `a` is gone on
every walk. -/
theorem findings_exact_branching :
    ∃ s a, branching.build = .ok s ∧ Analyzer.new? .default = .ok a ∧
      (a.graph s none).error = none ∧ (a.graph s none).report.issues = branching.due s ∧
      (branching.due s).map (fun x => (x.flowPoint, x.severity)) =
        [(3, .warning), (3, .info), (5, .error)] := by
  obtain ⟨s, a, hbuild, hnew, hok, hissues⟩ := Analyzer.branching_analyzed
  have hdue := (findings_exact hbuild hnew (by decide) none hok).1
  refine ⟨s, a, hbuild, hnew, hok, hdue, ?_⟩
  rw [← hdue]
  exact hissues

end ScriptFlow
