import ScriptFlow.Proofs.Analyzer.Passes
import ScriptFlow.Proofs.Description.Build
import ScriptFlow.Proofs.Domains.Heights

/-!
# Analyses that fit into their cap

How many visits each analysis needs at most, in terms of the script: its distinct entries, the
edges out of its reached points, and the names or the operands that occur at them. An analysis with
a cap that large does not fail, so a script of ordinary size is never rejected for want of a fixed
point.

Main statement: `graph_converges`.
-/

namespace ScriptFlow

/-- The number of visits that an analysis of a script cannot exceed. -/
def Script.visitBound (s : Script) (x : Analysis) : Nat :=
  let distinctEntries := s.entries.toFinset.card
  let edges := Engine.edgesOut s.network s.entries
  match x with
  | .reachability => distinctEntries + edges
  | .labels => distinctEntries + ((s.network.commandNames s.entries).card + 1) * edges
  | .presence => distinctEntries + (2 * (s.network.operandPaths s.entries).card + 1) * edges

namespace Analyzer

/-- A pass fails only for want of a fixed point and only if its cap is below the bound, and it
never makes more visits than the bound. -/
structure Pass.Within (p : Pass) (x : Analysis) (cap bound : Nat) : Prop where
  error : ∀ e, p.result = .error e →
    cap < bound ∧ ∃ iterations flowPoints, e = .noFixedPoint x.name iterations flowPoints
  table : ∀ out, p.result = .ok out → out.1.iterations ≤ bound

section Pass

variable {T : Type} [Preorder T] {a : Analyzer} {s : Script} {x : Analysis} {d : Domain T}
  {format : T → String} {findings : Outcome T → List Issue} {Q : T → Prop} {room : T → Nat}
  {height : Nat}

/-- The visits are bounded by how often the values of the domain can rise on the script. -/
theorem pass_within (hnet : s.network.Built)
    (hd : d.Climbs s.network s.entries Q room height) :
    (a.pass s none x d format findings).Within x a.cap
      (s.entries.toFinset.card + height * Engine.edgesOut s.network s.entries) := by
  -- A graph is analyzed on an unused memory.
  have hfresh : ∀ q v, ({} : Memory T).current.get? q = some v → Q v := by
    intro q v hv
    cases hv
  refine ⟨fun e he => ?_, fun out hout => ?_⟩
  · have herror := pass_eq_error he
    refine ⟨?_, Engine.eq_noFixedPoint_of_error? herror⟩
    -- A cap that covers the bound leaves no error.
    by_contra hcap
    rw [hd.error?_eq_none hnet hfresh x.name (Nat.le_of_not_lt hcap)] at herror
    cases herror
  · -- A successful pass reports the visits of its run.
    obtain ⟨-, rfl⟩ := pass_eq_ok hout
    exact Int.ofNat_le.mpr (hd.iterations_le hnet hfresh a.cap none)

end Pass

variable {a : Analyzer} {s : Script}

/-- The bound of each analysis is the one its domain gives. -/
theorem analysis_within (hnet : s.network.Built) (x : Analysis) :
    (a.analysis s none x).Within x a.cap (s.visitBound x) := by
  cases x with
  | reachability =>
    -- A flag rises once, so the height is one, which the bound does not write.
    have hheight : s.visitBound .reachability =
        s.entries.toFinset.card + 1 * Engine.edgesOut s.network s.entries := by
      rw [Nat.one_mul, Script.visitBound]
    rw [hheight, analysis]
    exact pass_within hnet (reachability_climbs s.network s.entries)
  | labels =>
    rw [analysis]
    exact pass_within hnet (labels_climbs s.network s.entries)
  | presence =>
    rw [analysis]
    exact pass_within hnet (pathPresence_climbs s.network s.entries)

/-- An analysis that fails has a cap below its bound. -/
theorem cap_lt_of_graph_error (hnet : s.network.Built) {e : GraphError}
    (he : (a.graph s none).error = some e) :
    ∃ x ∈ a.analyses, a.cap < s.visitBound x ∧
      ∃ iterations flowPoints, e = ⟨s.name, .noFixedPoint x.name iterations flowPoints⟩ := by
  obtain ⟨done, rest, outs, hsplit, -, hstops, -, -⟩ := graph_spec a s none
  rw [he] at hstops
  rcases hstops with ⟨-, hnone⟩ | ⟨x, after, cause, rfl, hresult, hsome⟩
  · cases hnone
  -- The analysis that failed is the first one after those that were done.
  · obtain ⟨hlt, iterations, flowPoints, rfl⟩ := (analysis_within hnet x).error cause hresult
    refine ⟨x, ?_, hlt, iterations, flowPoints, Option.some.inj hsome⟩
    rw [hsplit]
    exact List.mem_append_right done List.mem_cons_self

/-- The tables are bounded whether or not a later analysis fails. -/
theorem iterations_le_visitBound (hnet : s.network.Built) {t : DomainReport}
    (ht : t ∈ (a.graph s none).report.domains.getD []) {x : Analysis} (hx : t.domain = x.name) :
    t.iterations ≤ s.visitBound x := by
  obtain ⟨done, rest, outs, -, hdone, -, htables, -⟩ := graph_spec a s none
  rw [htables] at ht
  obtain ⟨out, hout, rfl⟩ := List.mem_map.mp ht
  obtain ⟨y, -, hresult⟩ := hdone.exists_of_mem hout
  -- The table names its analysis, and no two analyses have the same name.
  obtain rfl : y = x :=
    Analysis.name_injective ((domain_of_analysis_eq_ok hresult).symm.trans hx)
  exact (analysis_within hnet y).table out hresult

end Analyzer

/-- **The analyses converge on every script.** An analysis of a graph made from a description fails
only in a pass whose bound exceeds the cap of the configuration, and then for want of a fixed point;
if all bounds are within the cap there is a table for each name in the configuration; and no table
tells of more visits than the bound of its analysis. -/
theorem graph_converges {d : Description} {s : Script} {conf : Config} {a : Analyzer}
    (hbuild : d.build = .ok s) (hnew : Analyzer.new? conf = .ok a) :
    (∀ e, (a.graph s none).error = some e → ∃ x ∈ a.analyses,
        conf.effectiveCap < s.visitBound x ∧
          ∃ iterations flowPoints, e = ⟨s.name, .noFixedPoint x.name iterations flowPoints⟩) ∧
      ((∀ x ∈ a.analyses, s.visitBound x ≤ conf.effectiveCap) →
        (a.graph s none).error = none ∧
          ((a.graph s none).report.domains.getD []).map (·.domain) = conf.domains) ∧
      ∀ t ∈ (a.graph s none).report.domains.getD [], ∀ x : Analysis, t.domain = x.name →
        t.iterations ≤ s.visitBound x := by
  have hnet := (Description.lists_of_build hbuild).built
  obtain ⟨hnames, hcap⟩ := Analyzer.new?_eq_ok hnew
  -- The three parts speak of the cap and the names as the analyzer holds them.
  rw [← hcap, ← hnames]
  refine ⟨fun e => Analyzer.cap_lt_of_graph_error hnet, fun hbound => ?_,
    fun t ht x => Analyzer.iterations_le_visitBound hnet ht⟩
  have hok : (a.graph s none).error = none := by
    rw [Option.eq_none_iff_forall_ne_some]
    intro e he
    obtain ⟨x, hx, hlt, -⟩ := Analyzer.cap_lt_of_graph_error hnet he
    exact absurd (hbound x hx) (Nat.not_le_of_lt hlt)
  -- Without an error every analysis was done, and each left its table in order.
  obtain ⟨outs, hdone, htables, -⟩ := Analyzer.graph_spec_of_ok hok
  refine ⟨hok, ?_⟩
  rw [htables, List.map_map]
  exact hdone.map_domain

/-- The graph has one entry and seven edges out of reached points, where three commands work on two
paths. -/
theorem graph_converges_branching :
    ∃ s a, branching.build = .ok s ∧ Analyzer.new? .default = .ok a ∧
      Analysis.all.map s.visitBound = [8, 29, 36] ∧ (a.graph s none).error = none ∧
      ((a.graph s none).report.domains.getD []).map (·.domain) = Config.knownDomains := by
  obtain ⟨s, a, hbuild, hnew, -, -⟩ := Analyzer.branching_analyzed
  have hbounds : (branching.build.toOption.map fun s => Analysis.all.map s.visitBound) =
      some [8, 29, 36] := by
    decide +kernel
  rw [hbuild] at hbounds
  have hall : Analysis.all.map s.visitBound = [8, 29, 36] := Option.some.inj hbounds
  refine ⟨s, a, hbuild, hnew, hall, (graph_converges hbuild hnew).2.1 fun x _ => ?_⟩
  -- The three bounds are numbers now, and the cap is far above them.
  have hx : s.visitBound x ∈ Analysis.all.map s.visitBound :=
    List.mem_map_of_mem (by cases x <;> decide)
  have hcap : Config.default.effectiveCap = 100000 := rfl
  rw [hall] at hx
  rw [hcap]
  simp only [List.mem_cons, List.not_mem_nil, or_false] at hx
  omega

end ScriptFlow
