import ScriptFlow.Analyzer
import ScriptFlow.Proofs.Basic
import Mathlib.Data.List.Count
import Mathlib.Data.List.Forall2

/-!
# The passes of an analyzer

An analyzer runs its analyses in the order of the configuration until one of them fails. What is
left is read off the passes that were made: the tables and the findings of those that succeeded, in
order, and the reason of the one that failed.

Main statements: `graph_spec`, and `new?_eq_ok` about the analyses and the cap that a configuration
asks for.
-/

namespace ScriptFlow

/-! ## The parts of an analysis -/

namespace Analysis

/-- The values an analysis works with. -/
@[reducible] def Value : Analysis → Type
  | reachability => Flag
  | labels => ItemSet String
  | presence => PathState

/-- The domain of an analysis. -/
def domain : (x : Analysis) → Domain x.Value
  | reachability => ScriptFlow.reachability
  | labels => ScriptFlow.labels
  | presence => pathPresence

/-- A value as it is shown in the table of an analysis. -/
def format : (x : Analysis) → x.Value → String
  | reachability => Flag.format
  | labels => ItemSet.format
  | presence => PathState.format

/-- The findings of an analysis, given the values before the points of a script. -/
def findings (s : Script) : (x : Analysis) → PointMap x.Value → List Issue
  | reachability => fun _ => []
  | labels => fun _ => []
  | presence => fun input => Analyzer.visible s (PathPresence.findings s.network input s.points)

/-- Every analysis is found under its name. -/
@[simp] theorem ofName?_name (x : Analysis) : ofName? x.name = some x := by
  cases x with
  | reachability | labels | presence => rfl

/-- Findings are read off the values alone. -/
theorem findings_congr (s : Script) (x : Analysis) {input input' : PointMap x.Value}
    (h : ∀ p, input.get? p = input'.get? p) : x.findings s input = x.findings s input' := by
  cases x with
  | reachability | labels => rfl
  | presence =>
    simp only [findings, PathPresence.findings]
    congr 1
    apply List.flatMap_congr
    intro p _
    rw [h p]

end Analysis

/-- The three analyses are one pass with different domains, formats and findings. -/
theorem Analyzer.analysis_eq (a : Analyzer) (s : Script) (c : Cancellation) (x : Analysis) :
    a.analysis s c x =
      a.pass s c x x.domain x.format fun o => x.findings s o.memory.input := by
  cases x with
  | reachability | labels | presence => rfl

/-! ## Configurations -/

theorem Analysis.name_injective : Function.Injective Analysis.name := by
  intro x y h
  cases x <;> cases y <;> simp [name] at h ⊢

namespace Config

/-- The number of visits a configuration allows each run; zero stands for the default. -/
def effectiveCap (c : Config) : Nat :=
  if c.maxIterations = 0 then 100000 else c.maxIterations.toNat

/-- The analyses of a configuration have the names in it, in order. -/
theorem map_name_of_analyses {names : List String} {xs : List Analysis}
    (h : analyses names = .ok xs) : xs.map Analysis.name = names := by
  -- On the names: each gives one analysis, and that one bears the name.
  induction names generalizing xs with
  | nil =>
    cases h
    rfl
  | cons name rest ih =>
    -- A name that no analysis has would be an error.
    rw [analyses] at h
    split at h
    · cases h
    · rename_i x hx
      obtain ⟨ys, hys, rfl⟩ := Except.map_eq_ok.mp h
      have hname : x.name = name := by simpa using List.find?_some hx
      rw [List.map_cons, hname, ih hys]

end Config

namespace Analyzer

/-- An analyzer runs the analyses that its configuration names, each with the cap meant there. -/
theorem new?_eq_ok {conf : Config} {a : Analyzer} (h : new? conf = .ok a) :
    a.analyses.map Analysis.name = conf.domains ∧ a.cap = conf.effectiveCap := by
  obtain ⟨xs, hvalid, rfl⟩ := Except.map_eq_ok.mp h
  unfold Config.validate at hvalid
  split at hvalid
  · cases hvalid
  · rename_i hcap
    refine ⟨Config.map_name_of_analyses hvalid, ?_⟩
    -- The cap is not negative, so it is below one only if it is zero.
    show Engine.capOf conf.maxIterations = conf.effectiveCap
    unfold Engine.capOf Config.effectiveCap Engine.defaultCap
    by_cases hzero : conf.maxIterations = 0
    · simp [hzero]
    · rw [if_neg hzero, if_neg (by omega)]

/-! ## One pass -/

section Pass

variable {T : Type} {a : Analyzer} {s : Script} {c : Cancellation} {x : Analysis} {d : Domain T}
  {format : T → String} {findings : Outcome T → List Issue}

/-- A pass succeeds if its run does, with the table and findings of that run. -/
theorem pass_eq_ok {out : DomainReport × List Issue}
    (h : (a.pass s c x d format findings).result = .ok out) :
    (Engine.run s.network d a.cap c s.entries {}).error? x.name = none ∧
      out = (tableOf s x format (Engine.run s.network d a.cap c s.entries {}),
        findings (Engine.run s.network d a.cap c s.entries {})) := by
  simp only [pass] at h
  split at h
  · cases h
  · cases h
    exact ⟨‹_›, rfl⟩

theorem pass_eq_error {e : RunError} (h : (a.pass s c x d format findings).result = .error e) :
    (Engine.run s.network d a.cap c s.entries {}).error? x.name = some e := by
  simp only [pass] at h
  split at h
  · cases h
    assumption
  · cases h

end Pass

/-! ## One pass after the other -/

variable (a : Analyzer) (s : Script) (c : Cancellation)

/-- The analyses in a list succeed with the given tables and findings. -/
def Succeed : List Analysis → List (DomainReport × List Issue) → Prop :=
  List.Forall₂ fun x out => (a.analysis s c x).result = .ok out

/-- What is left of a list of analyses once a part of it has succeeded: nothing and no new error,
or an analysis that fails, with its error. -/
def Stops (rest : List Analysis) (old new : Option GraphError) : Prop :=
  rest = [] ∧ new = old ∨
    ∃ x after e, rest = x :: after ∧ (a.analysis s c x).result = .error e ∧ new = some ⟨s.name, e⟩

section Step

variable {x : Analysis} (xs : List Analysis) (r : GraphResult)

/-- A failing analysis ends the list with its error, and its log lines are kept. -/
theorem graphFrom_cons_error {e : RunError} (h : (a.analysis s c x).result = .error e) :
    a.graphFrom s c (x :: xs) r =
      { r with logs := r.logs ++ (a.analysis s c x).logs, error := some ⟨s.name, e⟩ } := by
  rw [graphFrom]
  simp only [h]

/-- A succeeding analysis adds its table and findings, and the others go on from there. -/
theorem graphFrom_cons_ok {out : DomainReport × List Issue}
    (h : (a.analysis s c x).result = .ok out) :
    a.graphFrom s c (x :: xs) r =
      a.graphFrom s c xs
        { r with
          logs := r.logs ++ (a.analysis s c x).logs
          report := { r.report.addDomain out.1 with issues := r.report.issues ++ out.2 } } := by
  rw [graphFrom]
  simp only [h]

end Step

/-- What a list of analyses leaves of a result: the part that succeeded, in order, and its end. -/
theorem graphFrom_spec (xs : List Analysis) (r : GraphResult) :
    ∃ done rest outs, xs = done ++ rest ∧ a.Succeed s c done outs ∧
      a.Stops s c rest r.error (a.graphFrom s c xs r).error ∧
      (a.graphFrom s c xs r).report.domains.getD [] =
        r.report.domains.getD [] ++ outs.map Prod.fst ∧
      (a.graphFrom s c xs r).report.issues = r.report.issues ++ outs.flatMap Prod.snd := by
  -- Induction on the list, for every result that it goes on from.
  induction xs generalizing r with
  | nil =>
    refine ⟨[], [], [], rfl, .nil, Or.inl ⟨rfl, rfl⟩, ?_, ?_⟩
    · simp [graphFrom]
    · simp [graphFrom]
  | cons x xs ih =>
    cases hresult : (a.analysis s c x).result with
    | error e =>
      rw [graphFrom_cons_error a s c xs r hresult]
      -- The failing analysis is the first one, so nothing was added.
      refine ⟨[], x :: xs, [], rfl, .nil, Or.inr ⟨x, xs, e, rfl, hresult, rfl⟩, ?_, ?_⟩
      · simp
      · simp
    | ok out =>
      -- The pass adds its table and findings, and the others go on from there.
      rw [graphFrom_cons_ok a s c xs r hresult]
      obtain ⟨done, rest, outs, hsplit, hdone, hrest, hdomains, hissues⟩ := ih _
      refine ⟨x :: done, rest, out :: outs, ?_, .cons hresult hdone, hrest, ?_, ?_⟩
      · rw [hsplit, List.cons_append]
      · rw [hdomains]
        simp [Report.addDomain]
      · rw [hissues]
        simp

/-- **What the analysis of a graph leaves.** The analyses up to the first failure contribute their
tables and findings in order. -/
theorem graph_spec :
    ∃ done rest outs, a.analyses = done ++ rest ∧ a.Succeed s c done outs ∧
      a.Stops s c rest none (a.graph s c).error ∧
      (a.graph s c).report.domains.getD [] = outs.map Prod.fst ∧
      (a.graph s c).report.issues = outs.flatMap Prod.snd := by
  obtain ⟨done, rest, outs, hsplit, hdone, hrest, hdomains, hissues⟩ :=
    graphFrom_spec a s c a.analyses { report := { name := s.name } }
  -- The report starts without tables and findings.
  exact ⟨done, rest, outs, hsplit, hdone, hrest, hdomains, hissues⟩

variable {a s c}

theorem domain_of_analysis_eq_ok {x : Analysis} {out : DomainReport × List Issue}
    (h : (a.analysis s c x).result = .ok out) : out.1.domain = x.name := by
  cases x with
  | reachability | labels | presence =>
    obtain ⟨-, rfl⟩ := pass_eq_ok h
    rfl

theorem Succeed.map_domain {xs : List Analysis} {outs : List (DomainReport × List Issue)}
    (h : a.Succeed s c xs outs) : outs.map (·.1.domain) = xs.map Analysis.name := by
  induction h with
  | nil => rfl
  | cons hx _ ih => rw [List.map_cons, List.map_cons, ih, domain_of_analysis_eq_ok hx]

/-- Each table is that of one of the analyses. -/
theorem Succeed.exists_of_mem {xs : List Analysis} {outs : List (DomainReport × List Issue)}
    (h : a.Succeed s c xs outs) {out : DomainReport × List Issue} (hout : out ∈ outs) :
    ∃ x ∈ xs, (a.analysis s c x).result = .ok out := by
  induction h with
  | nil => cases hout
  | cons hx _ ih =>
    rcases List.mem_cons.mp hout with rfl | hmem
    · exact ⟨_, List.mem_cons_self, hx⟩
    · obtain ⟨x, hmem, hresult⟩ := ih hmem
      exact ⟨x, List.mem_cons_of_mem _ hmem, hresult⟩

/-- An analysis without an error made all of its passes. -/
theorem graph_spec_of_ok (hok : (a.graph s c).error = none) :
    ∃ outs, a.Succeed s c a.analyses outs ∧
      (a.graph s c).report.domains.getD [] = outs.map Prod.fst ∧
      (a.graph s c).report.issues = outs.flatMap Prod.snd := by
  obtain ⟨done, rest, outs, hsplit, hdone, hstops, hdomains, hissues⟩ := graph_spec a s c
  rw [hok] at hstops
  -- If an analysis failed, its error would be in the result.
  rcases hstops with ⟨rfl, -⟩ | ⟨x, after, e, -, -, hsome⟩
  · rw [List.append_nil] at hsplit
    exact ⟨outs, hsplit ▸ hdone, hdomains, hissues⟩
  · cases hsome

end Analyzer

/-! ## A small graph -/

/-- Two branches that meet in a loop, a node with an annotation, and a node that is not reached. -/
def branching : Description :=
  { name := "branching"
    nodes :=
      [ { name := "start", text := "mkdir a", next := ["left", "right"] },
        { name := "left", text := "mkdir b", next := ["join"] },
        { name := "right", text := "rm a", next := ["join"] },
        { name := "join", text := "cat a b", next := ["join", "quiet"] },
        { name := "quiet", text := "rm a", next := ["last"], nolint := "//nolint:path-presence" },
        { name := "last", text := "cat a" },
        { name := "lost", text := "cat c" } ] }

/-- On the small graph three findings are shown: the annotated node hides the fourth. -/
theorem Analyzer.branching_analyzed :
    ∃ s a, branching.build = .ok s ∧ new? .default = .ok a ∧ (a.graph s none).error = none ∧
      (a.graph s none).report.issues.map (fun x => (x.flowPoint, x.severity)) =
        [(3, .warning), (3, .info), (5, .error)] := by
  have hrun : ((branching.build.toOption.bind fun s =>
      (new? .default).toOption.map fun a => a.graph s none).map fun g =>
        (g.error, g.report.issues.map fun x => (x.flowPoint, x.severity))) =
      some (none, [(3, .warning), (3, .info), (5, .error)]) := by
    decide +kernel
  cases hbuild : branching.build with
  | error e => simp [hbuild, Except.toOption] at hrun
  | ok s =>
    cases hnew : new? .default with
    | error e => simp [hbuild, hnew, Except.toOption] at hrun
    | ok a =>
      simp only [hbuild, hnew, Except.toOption, Option.bind_some, Option.map_some, Option.some_inj,
        Prod.mk.injEq] at hrun
      exact ⟨s, a, rfl, rfl, hrun.1, hrun.2⟩

end ScriptFlow
