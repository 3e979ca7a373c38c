import ScriptFlow.Proofs.Analyzer.Passes
import ScriptFlow.Proofs.Dataflow.Interference

/-!
# Analyses of one graph compose

An analyzer runs its analyses one after the other on the same points, and a graph may have been
analyzed before. `SharedGraph` is that situation: every pass takes a key that was never used, works
on the points as the passes before it left them, and reads its table and its findings off the points
when it is done. The passes are asked for by name, so a name that no analysis has can stop them too.

No pass can see the others, since its key is new and it removes the markers it reads. So on a shared
graph, whatever its history, the passes find what they find on fresh values, and the rest follows
from the way an analyzer puts results together.

Main statements: `SharedGraph.Ready.pass_eq` for one pass, `Script.analyzed_eq_found` for a request,
and `graph_compositional`.
-/

namespace ScriptFlow

/-! ## Shared graphs -/

/-- The points of a graph with what all analyses so far left on them. -/
structure SharedGraph where
  /-- The values are stored under keys, which are made for an analysis and numbered. -/
  bench : Workbench (Analysis × Nat) fun key => key.1.Value
  /-- The number of keys made so far. -/
  keys : Nat := 0

/-- Why the analyses of a shared graph stopped. -/
inductive StopCause
  | run (cause : RunError)
  /-- There is no analysis with the name. -/
  | unknownDomain (name : String)
deriving DecidableEq

/-- The analyses of the named graph stopped. -/
structure Stop where
  graph : String
  cause : StopCause
deriving DecidableEq

/-- What the analyses of a shared graph return: a report, perhaps incomplete, with the reason. -/
structure SharedResult where
  report : Report
  error : Option Stop := none
deriving DecidableEq

/-- What each pass sees of the cancellation, by the number of passes before it. -/
abbrev Cancellations := Nat → Cancellation

namespace SharedGraph

/-- A graph that was not analyzed yet. -/
def new (s : Script) : SharedGraph :=
  { bench := { network := s.network } }

/-- Runs one analysis under a key of its own and reads off the points what it left there. -/
def pass (g : SharedGraph) (s : Script) (cap : Nat) (c : Cancellation) (x : Analysis) :
    SharedGraph × Except RunError (DomainReport × List Issue) :=
  let key := (x, g.keys)
  let (bench, o) := g.bench.run key x.domain cap c s.entries
  let left := { o with memory := { bench.slots key with analyzed := bench.analyzed } }
  ({ bench := bench, keys := g.keys + 1 },
    match o.error? x.name with
    | some e => .error e
    | none => .ok (Analyzer.tableOf s x x.format left, x.findings s left.memory.input))

/-- Runs the analyses with the given names in order and adds what they find to a result. -/
def graphFrom (s : Script) (cap : Nat) :
    Cancellations → List String → SharedGraph → SharedResult → SharedGraph × SharedResult
  | _, [], g, r => (g, r)
  | c, name :: rest, g, r =>
    match Analysis.ofName? name with
    | none => (g, { r with error := some ⟨s.name, .unknownDomain name⟩ })
    | some x =>
      match g.pass s cap (c 0) x with
      | (g, .error e) => (g, { r with error := some ⟨s.name, .run e⟩ })
      | (g, .ok (table, issues)) =>
        graphFrom s cap (fun i => c (i + 1)) rest g
          { r with
            report := { r.report.addDomain table with issues := r.report.issues ++ issues } }

/-- Runs the analyses that a configuration names. -/
def graph (g : SharedGraph) (s : Script) (conf : Config) (c : Cancellations) :
    SharedGraph × SharedResult :=
  graphFrom s (Engine.capOf conf.maxIterations) c conf.domains g { report := { name := s.name } }

/-- A request to analyze the graph. -/
structure Request where
  conf : Config
  context : Cancellations

/-- The graph after a list of requests, however they ended. -/
def after (g : SharedGraph) (s : Script) (history : List Request) : SharedGraph :=
  history.foldl (fun g request => (g.graph s request.conf request.context).1) g

end SharedGraph

/-- What is returned for a configuration after a history of requests. -/
def Script.analyzed (s : Script) (history : List SharedGraph.Request) (conf : Config)
    (c : Cancellations) : SharedResult :=
  (((SharedGraph.new s).after s history).graph s conf c).2

/-! ## A new key is as good as fresh values -/

namespace SharedGraph

section Step

variable {s : Script} {g g' : SharedGraph} {cap : Nat} {c : Cancellations} {x : Analysis}
  {rest : List String} {r : SharedResult}

theorem graphFrom_cons_error {e : RunError} (h : g.pass s cap (c 0) x = (g', .error e)) :
    graphFrom s cap c (x.name :: rest) g r =
      (g', { r with error := some ⟨s.name, .run e⟩ }) := by
  rw [graphFrom, Analysis.ofName?_name]
  simp only [h]

/-- A pass that succeeds adds its table and findings, and the next one sees the later contexts. -/
theorem graphFrom_cons_ok {out : DomainReport × List Issue}
    (h : g.pass s cap (c 0) x = (g', .ok out)) :
    graphFrom s cap c (x.name :: rest) g r =
      graphFrom s cap (fun i => c (i + 1)) rest g'
        { r with
          report := { r.report.addDomain out.1 with issues := r.report.issues ++ out.2 } } := by
  rw [graphFrom, Analysis.ofName?_name]
  simp only [h]

end Step

/-- A shared graph of the script on which the keys not made yet hold no values. -/
structure Ready (s : Script) (g : SharedGraph) : Prop where
  network : g.bench.network = s.network
  unused : ∀ x n, g.keys ≤ n → g.bench.slots (x, n) = {}

/-- A graph that was not analyzed yet holds no values at all. -/
theorem ready_new (s : Script) : (new s).Ready s :=
  ⟨rfl, fun _ _ _ => rfl⟩

variable {s : Script} {g : SharedGraph} {cap : Nat}

/-- A pass uses up one key and touches nothing under the others. -/
theorem Ready.pass (h : g.Ready s) (cap : Nat) (c : Cancellation) (x : Analysis) :
    (g.pass s cap c x).1.Ready s := by
  have huntouched := Workbench.untouched_run g.bench (x, g.keys) x.domain cap c s.entries
  refine ⟨huntouched.network.trans h.network, fun y n hn => ?_⟩
  -- The pass used the key with the present number, and the keys not made yet come after it.
  have hother : (y, n) ≠ (x, g.keys) := by
    intro hsame
    have hnumber : n = g.keys := congrArg Prod.snd hsame
    have hmade : g.keys + 1 ≤ n := hn
    omega
  exact (huntouched.others (y, n) hother).trans (h.unused y n (Nat.le_of_succ_le hn))

/-- Analyses by name leave a graph on which the later keys are unused, wherever they stop. -/
theorem Ready.graphFrom (h : g.Ready s) (c : Cancellations) (names : List String)
    (r : SharedResult) :
    (graphFrom s cap c names g r).1.Ready s := by
  -- Induction on the names, for every graph: each pass takes the next name to another graph.
  induction names generalizing g c r with
  | nil => exact h
  | cons name rest ih =>
    rw [SharedGraph.graphFrom]
    split
    · exact h
    · -- The name is known, so there is a pass, which fails or goes on.
      rename_i x _
      have hpass := h.pass cap (c 0) x
      split
      · rename_i g' e heq
        rw [heq] at hpass
        exact hpass
      · rename_i g' table issues heq
        rw [heq] at hpass
        exact ih hpass _ _

/-- However a history of requests ended, the keys after it are unused. -/
theorem Ready.after (h : g.Ready s) (history : List Request) : (g.after s history).Ready s := by
  induction history generalizing g with
  | nil => exact h
  | cons request rest ih => exact ih (h.graphFrom request.context _ _)

/-- The table shows only what agrees between two runs. -/
theorem tableOf_congr {T : Type} {o o' : Outcome T} (h : Engine.Agree (fun _ => True) o o')
    (s : Script) (x : Analysis) (format : T → String) :
    Analyzer.tableOf s x format o = Analyzer.tableOf s x format o' := by
  simp only [Analyzer.tableOf, h.iterations, h.propagations, h.flowPoints, h.current _ trivial,
    h.input _ trivial]

/-- **The step lemma**: a pass on a shared graph finds what it finds on fresh values. -/
theorem Ready.pass_eq (h : g.Ready s) (a : Analyzer) (c : Cancellation) (x : Analysis) :
    (g.pass s a.cap c x).2 = (a.analysis s c x).result := by
  -- Under its own key the graph looks like one with nothing stored on it.
  have hsame : Workbench.SameUnder (x, g.keys) g.bench { network := s.network } :=
    .of_slots_eq h.network (h.unused x g.keys (Nat.le_refl _))
  have hagree : Engine.Agree (fun _ => True) (g.bench.run (x, g.keys) x.domain a.cap c s.entries).2
      (Engine.run s.network x.domain a.cap c s.entries {}) :=
    hsame.agree_run x.domain a.cap c s.entries
  -- What is read off the points is what the run left there.
  have hread := Workbench.slots_run g.bench (x, g.keys) x.domain a.cap c s.entries
  rw [Analyzer.analysis_eq]
  simp only [SharedGraph.pass, Analyzer.pass]
  rw [hread, hagree.error, x.findings_congr s fun p => hagree.input p trivial]
  cases (Engine.run s.network x.domain a.cap c s.entries {}).error? x.name with
  | some e => rfl
  -- The findings agree by what stands before the points, the table by both values.
  | none => exact congrArg (fun table => Except.ok (table, _)) (tableOf_congr hagree s x x.format)

end SharedGraph

/-- The same result with its error told as that of a shared graph. -/
def SharedResult.ofGraph (r : GraphResult) : SharedResult :=
  { report := r.report, error := r.error.map fun e => ⟨e.graph, .run e.cause⟩ }

namespace SharedGraph

variable {s : Script} {g : SharedGraph}

/-- **The run lemma**: passes on a shared graph find what they find on fresh values. -/
theorem Ready.graphFrom_eq (h : g.Ready s) (a : Analyzer) (c : Cancellation) (xs : List Analysis)
    (r : GraphResult) :
    (SharedGraph.graphFrom s a.cap (fun _ => c) (xs.map Analysis.name) g (.ofGraph r)).2 =
      .ofGraph (a.graphFrom s c xs r) := by
  -- Induction on the analyses: the step lemma makes both sides stop or go on together.
  induction xs generalizing g r with
  | nil => rfl
  | cons x xs ih =>
    have hready := h.pass a.cap c x
    have hresult := h.pass_eq a c x
    rw [List.map_cons]
    cases hpass : g.pass s a.cap c x with
    | mk g' result =>
      rw [hpass] at hready hresult
      cases result with
      | error e =>
        rw [graphFrom_cons_error hpass, a.graphFrom_cons_error s c xs r hresult.symm]
        rfl
      | ok out =>
        -- Both go on, one with its next key and the other with fresh values again.
        rw [graphFrom_cons_ok hpass, a.graphFrom_cons_ok s c xs r hresult.symm, ← ih hready]
        rfl

end SharedGraph

/-! ## Putting results together -/

/-- One report after the other, as if one analyzer had written both. -/
def Report.followedBy (r r' : Report) : Report :=
  { r with
    domains := match r'.domains with
      | none => r.domains
      | some tables => some (r.domains.getD [] ++ tables)
    issues := r.issues ++ r'.issues }

@[simp] theorem Report.tables_followedBy (r r' : Report) :
    (r.followedBy r').domains.getD [] = r.domains.getD [] ++ r'.domains.getD [] := by
  cases h : r'.domains with
  | none => simp [followedBy, h]
  | some tables => simp [followedBy, h]

/-- One result after another one that has no error. -/
def SharedResult.followedBy (r r' : SharedResult) : SharedResult :=
  { report := r.report.followedBy r'.report, error := r'.error }

namespace Analyzer

variable (a : Analyzer) (s : Script) (c : Cancellation)

/-- A list of analyses may be cut in two, unless the first part fails. -/
theorem graphFrom_append {xs : List Analysis} (ys : List Analysis) {r : GraphResult}
    (h : (a.graphFrom s c xs r).error = none) :
    a.graphFrom s c (xs ++ ys) r = a.graphFrom s c ys (a.graphFrom s c xs r) := by
  induction xs generalizing r with
  | nil => rfl
  | cons x xs ih =>
    cases hresult : (a.analysis s c x).result with
    | error e =>
      rw [graphFrom_cons_error a s c xs r hresult] at h
      cases h
    | ok out =>
      rw [graphFrom_cons_ok a s c xs r hresult] at h ⊢
      -- The first analysis leaves the same result on both sides.
      rw [List.cons_append, graphFrom_cons_ok a s c (xs ++ ys) r hresult]
      exact ih h

/-- Analyses that go on from a result add to it what they find from the start. -/
theorem graphFrom_eq_followedBy (xs : List Analysis) (r : GraphResult) :
    (a.graphFrom s c xs r).report =
        r.report.followedBy (a.graphFrom s c xs { report := { name := s.name } }).report ∧
      (r.error = none → (a.graphFrom s c xs r).error =
        (a.graphFrom s c xs { report := { name := s.name } }).error) := by
  -- Induction on the analyses, for every result they go on from.
  induction xs generalizing r with
  | nil => simp [graphFrom, Report.followedBy]
  | cons x xs ih =>
    cases hresult : (a.analysis s c x).result with
    | error e =>
      -- The report stays as it was, and the error is told in either case.
      simp [graphFrom_cons_error a s c xs _ hresult, Report.followedBy]
    | ok out =>
      rw [graphFrom_cons_ok a s c xs r hresult,
        graphFrom_cons_ok a s c xs { report := { name := s.name } } hresult]
      refine ⟨(ih _).1.trans ?_, fun hr => ?_⟩
      · -- Both sides go on from the new table, one of them with the old report in front of it.
        refine Eq.trans ?_ (congrArg r.report.followedBy (ih _).1.symm)
        cases hdomains : (a.graphFrom s c xs { report := { name := s.name } }).report.domains with
        | none => simp [Report.followedBy, Report.addDomain, hdomains]
        | some tables => simp [Report.followedBy, Report.addDomain, hdomains]
      · -- The error comes from the rest on both sides, which ends the same.
        refine Eq.trans ((ih _).2 ?_) (Eq.symm ((ih _).2 ?_))
        · exact hr
        · rfl

/-- What a list of analyses finds on fresh values. -/
def found (xs : List Analysis) : SharedResult :=
  .ofGraph (a.graphFrom s c xs { report := { name := s.name } })

/-- **Results are put together.** If the first part of a list finds no error, the whole list finds
what the first part finds, then what the second part finds. -/
theorem found_append {xs : List Analysis} (h : (a.found s c xs).error = none)
    (ys : List Analysis) :
    a.found s c (xs ++ ys) = (a.found s c xs).followedBy (a.found s c ys) := by
  have hok := Option.map_eq_none_iff.mp h
  obtain ⟨hreport, herror⟩ := a.graphFrom_eq_followedBy s c ys
    (a.graphFrom s c xs { report := { name := s.name } })
  simp only [found, SharedResult.ofGraph, SharedResult.followedBy, a.graphFrom_append s c ys hok,
    hreport, herror hok]

/-- What one analysis that succeeds finds alone. -/
theorem found_singleton_ok {x : Analysis} {out : DomainReport × List Issue}
    (h : (a.analysis s c x).result = .ok out) :
    a.found s c [x] =
      { report := { name := s.name, domains := some [out.1], issues := out.2 } } := by
  unfold found
  rw [graphFrom_cons_ok a s c [] _ h]
  rfl

/-- An analysis that fails leaves nothing but its error, whatever comes after it. -/
theorem found_cons_error {x : Analysis} {e : RunError} (h : (a.analysis s c x).result = .error e)
    (xs : List Analysis) :
    a.found s c (x :: xs) =
      { report := { name := s.name }, error := some ⟨s.name, .run e⟩ } := by
  unfold found
  rw [graphFrom_cons_error a s c xs _ h]
  rfl

variable {a s c}

/-- Only the presence analysis has findings. -/
theorem issues_of_analysis_eq_ok {x : Analysis} {out : DomainReport × List Issue}
    (h : (a.analysis s c x).result = .ok out) (hx : x ≠ .presence) : out.2 = [] := by
  cases x with
  | reachability | labels =>
    -- The pass of these two reports no issues at all.
    obtain ⟨-, rfl⟩ := pass_eq_ok h
    rfl
  | presence => exact absurd rfl hx

theorem exists_ok_of_found_singleton {x : Analysis} (h : (a.found s c [x]).error = none) :
    ∃ out, (a.analysis s c x).result = .ok out := by
  cases hresult : (a.analysis s c x).result with
  | error e =>
    rw [a.found_cons_error s c hresult] at h
    cases h
  | ok out => exact ⟨out, rfl⟩

/-- Analyses that all succeed alone succeed together, and what they find alone is listed in
order. -/
theorem found_of_forall_ok {xs : List Analysis}
    (h : ∀ x ∈ xs, (a.found s c [x]).error = none) :
    (a.found s c xs).error = none ∧
      (a.found s c xs).report.domains.getD [] =
        xs.flatMap (fun x => (a.found s c [x]).report.domains.getD []) ∧
      ((a.found s c xs).report.domains.getD []).map (·.domain) = xs.map Analysis.name ∧
      (a.found s c xs).report.issues =
        (xs.filter (· = .presence)).flatMap fun x => (a.found s c [x]).report.issues := by
  induction xs with
  | nil => exact ⟨rfl, rfl, rfl, rfl⟩
  | cons x xs ih =>
    obtain ⟨hx, hxs⟩ := List.forall_mem_cons.mp h
    obtain ⟨herror, htables, hnames, hissues⟩ := ih hxs
    obtain ⟨out, hout⟩ := exists_ok_of_found_singleton hx
    -- Its first analysis alone, followed by the rest.
    have hsplit : a.found s c (x :: xs) = (a.found s c [x]).followedBy (a.found s c xs) :=
      a.found_append s c hx xs
    have halone := a.found_singleton_ok s c hout
    refine ⟨by rw [hsplit]; exact herror, ?_, ?_, ?_⟩
    · -- Tables are put one after the other.
      rw [hsplit, List.flatMap_cons, ← htables]
      exact Report.tables_followedBy _ _
    · -- The first table is named like its analysis.
      rw [hsplit, List.map_cons, ← hnames, ← domain_of_analysis_eq_ok hout]
      simp [SharedResult.followedBy, halone]
    · rw [hsplit]
      by_cases hpresence : x = .presence
      · -- The findings of a presence analysis come first.
        rw [List.filter_cons_of_pos (by simpa using hpresence), List.flatMap_cons, ← hissues]
        rfl
      · -- Another analysis has no findings to add.
        rw [List.filter_cons_of_neg (by simpa using hpresence), ← hissues]
        simp [SharedResult.followedBy, Report.followedBy, halone,
          issues_of_analysis_eq_ok hout hpresence]

end Analyzer

/-! ## Errors on a shared graph -/

namespace SharedGraph

variable {s : Script} {g : SharedGraph} {cap : Nat}

/-- A pass fails because it was cancelled or because it found no fixed point. -/
theorem error_of_pass {c : Cancellation} {x : Analysis} {e : RunError}
    (h : (g.pass s cap c x).2 = .error e) :
    e = .cancelled ∧ c ≠ none ∨
      ∃ iterations flowPoints, e = .noFixedPoint x.name iterations flowPoints := by
  -- The pass returns an error exactly when its run has one.
  have herror : (g.bench.run (x, g.keys) x.domain cap c s.entries).2.error? x.name = some e := by
    simp only [pass] at h
    split at h
    · cases h
      assumption
    · cases h
  -- A run without cancellation cannot be cancelled.
  cases c with
  | none => exact Or.inr (Engine.eq_noFixedPoint_of_error? herror)
  | some n =>
    unfold Outcome.error? at herror
    split at herror
    · cases herror
    · cases herror
    · cases herror
      exact Or.inl ⟨rfl, by simp⟩
    · cases herror
      exact Or.inr ⟨_, _, rfl⟩

/-- Analyses that all have a name stop for the error of a run and never for want of an analysis. -/
theorem error_of_graphFrom {c : Cancellations} {xs : List Analysis} {r : SharedResult} {e : Stop}
    (h : (graphFrom s cap c (xs.map Analysis.name) g r).2.error = some e)
    (hr : r.error = none) :
    e.graph = s.name ∧
      (e.cause = .run .cancelled ∧ (∃ i, c i ≠ none) ∨
        ∃ x ∈ xs, ∃ iterations flowPoints,
          e.cause = .run (.noFixedPoint x.name iterations flowPoints)) := by
  -- Induction on the analyses; the contexts are shifted by the passes done.
  induction xs generalizing c g r with
  | nil =>
    rw [List.map_nil, graphFrom, hr] at h
    cases h
  | cons x xs ih =>
    rw [List.map_cons] at h
    cases hpass : g.pass s cap (c 0) x with
    | mk g' result =>
      cases result with
      | error cause =>
        rw [graphFrom_cons_error hpass] at h
        cases h
        -- The first pass fails, so its own context is the first one.
        refine ⟨rfl, ?_⟩
        rcases error_of_pass (congrArg Prod.snd hpass) with ⟨rfl, hc⟩ | ⟨n, k, rfl⟩
        · exact Or.inl ⟨rfl, 0, hc⟩
        · exact Or.inr ⟨x, List.mem_cons_self, n, k, rfl⟩
      | ok out =>
        rw [graphFrom_cons_ok hpass] at h
        -- It fails later, which is one context further on.
        obtain ⟨hgraph, ⟨hcause, i, hi⟩ | ⟨y, hy, n, k, hcause⟩⟩ := ih h hr
        · exact ⟨hgraph, Or.inl ⟨hcause, i + 1, hi⟩⟩
        · exact ⟨hgraph, Or.inr ⟨y, List.mem_cons_of_mem x hy, n, k, hcause⟩⟩

end SharedGraph

/-! ## What is returned for a configuration -/

section Configuration

variable {conf : Config} {a : Analyzer} {s : Script}

theorem Analyzer.cap_of_new? (h : Analyzer.new? conf = .ok a) :
    a.cap = Engine.capOf conf.maxIterations := by
  obtain ⟨xs, -, rfl⟩ := Except.map_eq_ok.mp h
  rfl

/-- Whatever was done with a graph before, a configuration returns what its analyses find on fresh
values. -/
theorem Script.analyzed_eq_found (hcap : a.cap = Engine.capOf conf.maxIterations)
    (history : List SharedGraph.Request) (xs : List Analysis) (c : Cancellation) :
    s.analyzed history { conf with domains := xs.map Analysis.name } (fun _ => c) =
      a.found s c xs := by
  -- After any history the graph is ready for new keys, so the run lemma applies.
  have hready := (SharedGraph.ready_new s).after history
  have hgraph := hready.graphFrom_eq a c xs { report := { name := s.name } }
  rw [hcap] at hgraph
  exact hgraph

/-- The first analysis that fails alone ends the report. -/
theorem Analyzer.found_of_first_failure {c : Cancellation} {xs : List Analysis} {x : Analysis}
    (hxs : ∀ y ∈ xs, (a.found s c [y]).error = none) (hx : (a.found s c [x]).error ≠ none)
    (ys : List Analysis) :
    (a.found s c (xs ++ x :: ys)).error = (a.found s c [x]).error ∧
      (a.found s c (xs ++ x :: ys)).report = (a.found s c xs).report := by
  cases hresult : (a.analysis s c x).result with
  | ok out =>
    rw [a.found_singleton_ok s c hresult] at hx
    exact absurd rfl hx
  | error e =>
    -- What succeeds before it is reported, and the failing analysis adds its error alone.
    rw [a.found_append s c (found_of_forall_ok hxs).1, a.found_cons_error s c hresult,
      a.found_cons_error s c hresult]
    simp [SharedResult.followedBy, Report.followedBy]

end Configuration

/-- **The analyses of a graph compose.** On a graph with any history of requests, a configuration
that is accepted returns what its analyses find on fresh values. If a first part of its analyses
succeeds, then the whole returns what that part returns, followed by what the rest returns, with the
error of the rest. If an analysis fails alone and none before it does, its error is returned with
the tables of those before it, in order, and with the findings of the presence analyses among them.
Analyses stop only because a run is cancelled or has no fixed point. -/
theorem graph_compositional {conf : Config} {a : Analyzer} (hnew : Analyzer.new? conf = .ok a)
    (s : Script) (history before before' : List SharedGraph.Request) :
    let part (before : List SharedGraph.Request) (names : List String) : SharedResult :=
      s.analyzed before { conf with domains := names } fun _ => none
    let whole := s.analyzed history conf fun _ => none
    (∀ c, s.analyzed history conf (fun _ => c) = .ofGraph (a.graph s c)) ∧
      (∀ first second, conf.domains = first ++ second → (part before first).error = none →
        whole = (part before first).followedBy (part before' second)) ∧
      (∀ i name, conf.domains[i]? = some name →
        (∀ earlier ∈ conf.domains.take i, (part before [earlier]).error = none) →
        (part before [name]).error ≠ none →
        whole.error = (part before [name]).error ∧
          whole.report.domains.getD [] = (conf.domains.take i).flatMap (fun earlier =>
            (part before [earlier]).report.domains.getD []) ∧
          (whole.report.domains.getD []).map (·.domain) = conf.domains.take i ∧
          whole.report.issues = ((conf.domains.take i).filter (· = "presence")).flatMap
            fun earlier => (part before [earlier]).report.issues) ∧
      ∀ c e, (s.analyzed history conf c).error = some e →
        e.graph = s.name ∧
          (e.cause = .run .cancelled ∧ (∃ i, c i ≠ none) ∨
            ∃ name ∈ conf.domains, ∃ iterations flowPoints,
              e.cause = .run (.noFixedPoint name iterations flowPoints)) := by
  intro part whole
  -- The names of the configuration are those of the analyses, and the caps agree.
  have hcap := Analyzer.cap_of_new? hnew
  obtain ⟨hnames, -⟩ := Analyzer.new?_eq_ok hnew
  have hpart : ∀ before xs, part before (xs.map Analysis.name) = a.found s none xs :=
    fun before xs => Script.analyzed_eq_found hcap before xs none
  have hfresh : ∀ c, s.analyzed history conf (fun _ => c) = a.found s c a.analyses := by
    intro c
    have hfound := Script.analyzed_eq_found (s := s) hcap history a.analyses c
    rw [hnames] at hfound
    exact hfound
  have hwhole : whole = a.found s none a.analyses := hfresh none
  refine ⟨hfresh, fun first second hsplit hfirst => ?_, fun i name hname hearlier hfails => ?_,
    fun c e he => ?_⟩
  · -- The names split, so the analyses do.
    rw [← hnames] at hsplit
    obtain ⟨xs, ys, hxs, rfl, rfl⟩ := List.map_eq_append_iff.mp hsplit
    rw [hpart] at hfirst
    rw [hwhole, hxs, hpart, hpart]
    exact a.found_append s none hfirst ys
  · -- The names before the failing one, that name and the rest are names of analyses.
    obtain ⟨hi, rfl⟩ := List.getElem?_eq_some_iff.mp hname
    have hsplit : a.analyses.map Analysis.name =
        conf.domains.take i ++ conf.domains[i] :: conf.domains.drop (i + 1) := by
      rw [hnames, List.getElem_cons_drop, List.take_append_drop]
    obtain ⟨xs, rest, hxs, htake, hrest⟩ := List.map_eq_append_iff.mp hsplit
    obtain ⟨x, ys, rfl, hx, -⟩ := List.map_eq_cons_iff.mp hrest
    have halone : ∀ y : Analysis, part before [y.name] = a.found s none [y] :=
      fun y => hpart before [y]
    rw [← htake, List.forall_mem_map] at hearlier
    simp only [halone] at hearlier
    rw [← hx, halone] at hfails ⊢
    rw [hwhole, hxs, ← htake]
    obtain ⟨herror, hreport⟩ := Analyzer.found_of_first_failure hearlier hfails ys
    obtain ⟨-, htables, hdomains, hissues⟩ := Analyzer.found_of_forall_ok hearlier
    rw [herror, hreport]
    refine ⟨rfl, ?_, hdomains, ?_⟩
    · rw [htables, List.flatMap_map]
      simp only [halone]
    · -- Among the names only the one of the presence analysis selects findings.
      have hpresence : ∀ y : Analysis, decide (y.name = "presence") = decide (y = .presence) := by
        intro y
        show decide (y.name = Analysis.presence.name) = _
        exact decide_eq_decide.mpr Analysis.name_injective.eq_iff
      rw [hissues, List.filter_map, List.flatMap_map]
      simp only [halone, Function.comp_def, hpresence]
  · -- The requests are the names again, so the error of the list is theirs.
    have herror : (SharedGraph.graphFrom s (Engine.capOf conf.maxIterations) c
        (a.analyses.map Analysis.name) ((SharedGraph.new s).after s history)
        { report := { name := s.name } }).2.error = some e := by
      rw [hnames]
      exact he
    obtain ⟨hgraph, hcancelled | ⟨x, hx, n, k, hcause⟩⟩ := SharedGraph.error_of_graphFrom herror rfl
    · exact ⟨hgraph, Or.inl hcancelled⟩
    · refine ⟨hgraph, Or.inr ⟨x.name, ?_, n, k, hcause⟩⟩
      rw [← hnames]
      exact List.mem_map_of_mem hx

/-! ## A loop under a tight cap -/

/-- Two commands that take turns. -/
def loopOfTwo : Description :=
  { name := "turns"
    nodes := [{ name := "make", text := "mkdir a", next := ["drop"] },
      { name := "drop", text := "rm b", next := ["make"] }] }

/-- Around the loop the names of the commands need one visit more than the other analyses. -/
def threeVisits : Config :=
  { name := "tight"
    maxIterations := 3
    domains := ["presence", "reachability", "labels", "presence"] }

/-- A request with the default configuration whose second analysis was cancelled. -/
def interrupted : SharedGraph.Request :=
  { conf := .default, context := fun i => if i = 1 then some 0 else none }

/-- After an interrupted request two analyses succeed, and the third one ends the report. -/
theorem graph_compositional_loopOfTwo :
    ∃ s a, loopOfTwo.build = .ok s ∧ Analyzer.new? threeVisits = .ok a ∧
      (s.analyzed [] interrupted.conf interrupted.context).error = some ⟨"turns", .run .cancelled⟩ ∧
      s.analyzed [interrupted] threeVisits (fun _ => none) =
        (s.analyzed [] { threeVisits with domains := ["presence", "reachability"] }
          fun _ => none).followedBy
          (s.analyzed [] { threeVisits with domains := ["labels", "presence"] } fun _ => none) ∧
      (s.analyzed [interrupted] threeVisits fun _ => none).error =
        some ⟨"turns", .run (.noFixedPoint "labels" 3 2)⟩ ∧
      ((s.analyzed [interrupted] threeVisits fun _ => none).report.domains.getD []).map (·.domain) =
        ["presence", "reachability"] := by
  -- One evaluation for all parts of the statement that are about single runs.
  have hrun : ((loopOfTwo.build.toOption.bind fun s =>
      (Analyzer.new? threeVisits).toOption.map fun a => (s, a)).map fun x =>
        ((x.1.analyzed [] interrupted.conf interrupted.context).error,
          ["presence", "reachability", "labels"].map fun name =>
            (x.1.analyzed [] { threeVisits with domains := [name] } fun _ => none).error,
          (x.1.analyzed [] { threeVisits with domains := ["presence", "reachability"] }
            fun _ => none).error)) =
      some (some ⟨"turns", .run .cancelled⟩,
        [none, none, some ⟨"turns", .run (.noFixedPoint "labels" 3 2)⟩], none) := by
    decide +kernel
  cases hbuild : loopOfTwo.build with
  | error e => simp [hbuild, Except.toOption] at hrun
  | ok s =>
    cases hnew : Analyzer.new? threeVisits with
    | error e => simp [hbuild, hnew, Except.toOption] at hrun
    | ok a =>
      simp only [hbuild, hnew, Except.toOption, Option.bind_some, Option.map_some, Option.some_inj,
        Prod.mk.injEq, List.map_cons, List.map_nil, List.cons.injEq, and_true] at hrun
      obtain ⟨hinterrupted, ⟨hpresence, hreachability, hlabels⟩, hfirst⟩ := hrun
      obtain ⟨-, hcompose, hfailure, -⟩ := graph_compositional hnew s [interrupted] [] []
      obtain ⟨herror, -, hnames, -⟩ := hfailure 2 "labels" rfl
        (List.forall_mem_cons.mpr ⟨hpresence, List.forall_mem_singleton.mpr hreachability⟩)
        (by simp [hlabels])
      exact ⟨s, a, rfl, rfl, hinterrupted, hcompose _ _ rfl hfirst, herror.trans hlabels, hnames⟩

end ScriptFlow
