import ScriptFlow.Proofs.Analyzer.Passes
import ScriptFlow.Proofs.Description.Depiction
import ScriptFlow.Proofs.Domains.Heights

/-!
# Rows show what is reached

The table of an analysis has a row for every node, also for nodes that control never comes to. An
empty value in a row says that its node is not reached. No value of an analysis looks like that, and
a successful run leaves both of its values on exactly the points that can be reached from an entry,
so all tables of a report tell the same about reachability, whatever their values are.

Main statement: `rows_mirror_reachability`.
-/

namespace ScriptFlow

/-! ## Reachability as it is written down -/

/-- The names of the nodes that can be reached: those of the entries, and those listed as successors
of a node that is reached. -/
inductive Description.Reached (d : Description) : String → Prop
  | entry {name : String} (h : name ∈ d.entryNames) : d.Reached name
  | next {n : NodeDescription} {name : String} (hn : n ∈ d.nodes) (h : d.Reached n.name)
      (hname : name ∈ n.next) : d.Reached name

namespace Description

variable {d : Description} {s : Script}

/-- A point that can be reached is that of a node which can. -/
theorem exists_node_of_reachedFrom (h : d.build = .ok s) {i : Nat}
    (hi : s.network.ReachedFrom s.entries i) : ∃ n, d.nodes[i]? = some n ∧ d.Reached n.name := by
  -- Induction on the way from an entry: each point brings the node it belongs to.
  refine hi.induction (P := fun i => ∃ n, d.nodes[i]? = some n ∧ d.Reached n.name) ?_ ?_
  · intro e he
    have hsome : some e ∈ d.entryNames.map s.lookup := by
      rw [← entries_build h]
      exact List.mem_map_of_mem he
    -- The point is that of an entry name, and every point of a name is that of a node.
    obtain ⟨name, hname, hlookup⟩ := List.mem_map.mp hsome
    obtain ⟨n, hn, rfl⟩ := (lookup_build h).mp hlookup
    exact ⟨n, hn, .entry hname⟩
  · rintro p q - ⟨n, hn, hreached⟩ hq
    -- A successor is the point of a name listed at the node before it.
    have hsome : some q ∈ n.next.map s.lookup := by
      rw [← successors_build h hn]
      exact List.mem_map_of_mem hq
    obtain ⟨name, hname, hlookup⟩ := List.mem_map.mp hsome
    obtain ⟨m, hm, rfl⟩ := (lookup_build h).mp hlookup
    exact ⟨m, hm, .next (List.mem_of_getElem? hn) hreached hname⟩

/-- The point of a node that can be reached is reached. -/
theorem reachedFrom_of_reached (h : d.build = .ok s) {name : String} (hname : d.Reached name)
    {i : Nat} (hi : s.lookup name = some i) : s.network.ReachedFrom s.entries i := by
  -- Induction on how the name is reached, for whatever point it has.
  induction hname generalizing i with
  | @entry name hentry =>
    have hsome : some i ∈ s.entries.map some := by
      rw [entries_build h, ← hi]
      exact List.mem_map_of_mem hentry
    exact .of_mem (by simpa using hsome)
  | @next n name hn _ hnext ih =>
    obtain ⟨j, hj⟩ := List.getElem?_of_mem hn
    have hsome : some i ∈ (s.network.successors j).map some := by
      rw [successors_build h hj, ← hi]
      exact List.mem_map_of_mem hnext
    -- The node before has a point of its own, from which one edge leads on.
    exact (ih ((lookup_build h).mpr ⟨n, hj, rfl⟩)).step (by simpa using hsome)

/-- Reachability along the edges of the graph is the one that is written down. -/
theorem reachedFrom_iff_reached (h : d.build = .ok s) {i : Nat} {n : NodeDescription}
    (hn : d.nodes[i]? = some n) : s.network.ReachedFrom s.entries i ↔ d.Reached n.name := by
  constructor
  · intro hi
    obtain ⟨m, hm, hreached⟩ := exists_node_of_reachedFrom h hi
    rw [hn] at hm
    cases hm
    exact hreached
  · intro hreached
    exact reachedFrom_of_reached h hreached ((lookup_build h).mpr ⟨n, hn, rfl⟩)

end Description

/-! ## No value looks like an empty one -/

namespace Analysis

/-- No value is shown as the empty text. -/
theorem format_ne_empty (x : Analysis) (v : x.Value) : x.format v ≠ "" := by
  -- Sets and tables are put in braces, so their text has at least two characters.
  have hbraces : ∀ text : String, "\x7b" ++ text ++ "\x7d" ≠ "" := by
    intro text h
    have hlength := congrArg String.length h
    rw [String.length_append, String.length_append] at hlength
    exact absurd hlength (by simp)
  cases x with
  | reachability => cases v <;> decide
  | labels => exact hbraces _
  | presence =>
    cases v with
    | unreached => decide
    | table paths => exact hbraces _

/-- Values that count as the same are the same. -/
theorem eq_of_equal (x : Analysis) (v w : x.Value) (h : x.domain.equal v w = true) : v = w := by
  cases x with
  | reachability => exact eq_of_beq h
  | labels => exact of_decide_eq_true h
  | presence => exact of_decide_eq_true h

end Analysis

/-! ## Tables that show what is reached -/

/-- The row of a node and its number: it carries the number, the name and the text of the node, and
its values are there exactly if the node is reached. -/
structure Row.Mirrors (d : Description) (node : NodeDescription × Nat) (row : Row) : Prop where
  flowPoint : row.flowPoint = node.2
  name : row.name = node.1.name
  text : row.text = if node.1.text = "" then node.1.name else node.1.text
  input : row.input ≠ "" ↔ d.Reached node.1.name
  current : row.current ≠ "" ↔ d.Reached node.1.name

/-- A table with one row for each node in order, which counts the nodes that are reached. -/
structure DomainReport.Mirrors (d : Description) (t : DomainReport) : Prop where
  rows : List.Forall₂ (Row.Mirrors d) d.nodes.zipIdx (t.rows.getD [])
  flowPoints : t.flowPoints = ((t.rows.getD []).countP fun row => row.current ≠ "" : Nat)

/-- What a row tells whatever its analysis is: the number, name and text of the node, and whether
the node is reached. -/
def Row.columns (row : Row) : Int × String × String × Bool :=
  (row.flowPoint, row.name, row.text, row.current ≠ "")

/-- Two rows of one node show the same columns, whatever their analyses are. -/
theorem Row.Mirrors.columns_eq {d : Description} {node : NodeDescription × Nat} {row row' : Row}
    (h : row.Mirrors d node) (h' : row'.Mirrors d node) : row.columns = row'.columns := by
  have hshown : (row.current ≠ "") = (row'.current ≠ "") :=
    propext (h.current.trans h'.current.symm)
  simp only [columns, h.flowPoint, h.name, h.text, h'.flowPoint, h'.name, h'.text, hshown]

namespace DomainReport.Mirrors

variable {d : Description} {t t' : DomainReport}

/-- Two tables of one graph show the same columns. -/
theorem columns_eq (h : t.Mirrors d) (h' : t'.Mirrors d) :
    (t.rows.getD []).map Row.columns = (t'.rows.getD []).map Row.columns := by
  have hsame : ∀ {nodes : List (NodeDescription × Nat)} {rows rows' : List Row},
      List.Forall₂ (Row.Mirrors d) nodes rows → List.Forall₂ (Row.Mirrors d) nodes rows' →
        rows.map Row.columns = rows'.map Row.columns := by
    intro nodes rows rows' hrows hrows'
    -- Induction on the rows of the first table; the second one has as many.
    induction hrows generalizing rows' with
    | nil =>
      cases hrows'
      rfl
    | cons hrow _ ih =>
      cases hrows' with
      | cons hrow' hrest' => rw [List.map_cons, List.map_cons, hrow.columns_eq hrow', ih hrest']
  exact hsame h.rows h'.rows

/-- The number of reached nodes is read off the columns. -/
theorem flowPoints_eq (h : t.Mirrors d) (h' : t'.Mirrors d) : t.flowPoints = t'.flowPoints := by
  have hcount : ∀ {t : DomainReport}, t.Mirrors d →
      t.flowPoints = (((t.rows.getD []).map Row.columns).countP (·.2.2.2) : Nat) := by
    intro t h
    rw [h.flowPoints, List.countP_map]
    rfl
  rw [hcount h, hcount h', h.columns_eq h']

end DomainReport.Mirrors

/-! ## The table of a successful run -/

theorem Engine.flowPoints_run {T : Type} (net : Network) (d : Domain T) (cap : Nat)
    (c : Cancellation) (entries : List Nat) (m : Memory T) :
    (run net d cap c entries m).flowPoints = (net.reachableFrom entries).length := by
  by_cases hne : entries = []
  · subst hne
    rfl
  · rw [run_eq net d entries m cap c hne]

namespace Analyzer

variable {d : Description} {s : Script} {cap : Nat} {c : Cancellation} {x : Analysis}

/-- A successful run leaves both values on the points that are reached. -/
theorem shown_of_reached (hbuild : d.build = .ok s) {i : Nat} {n : NodeDescription}
    (hn : d.nodes[i]? = some n)
    (hok : (Engine.run s.network x.domain cap c s.entries {}).error? x.name = none) :
    let memory := (Engine.run s.network x.domain cap c s.entries {}).memory
    (((memory.input.get? i).map x.format).getD "" ≠ "" ↔ d.Reached n.name) ∧
      (((memory.current.get? i).map x.format).getD "" ≠ "" ↔ d.Reached n.name) := by
  have hbuilt : s.network.Built := (Description.lists_of_build hbuild).built
  rw [← Description.reachedFrom_iff_reached hbuild hn]
  by_cases hreached : s.network.ReachedFrom s.entries i
  · obtain ⟨-, -, hinput, hcurrent⟩ :=
      Engine.solved_of_error?_none hbuilt x.eq_of_equal hok hreached
    simp [hinput, hcurrent, hreached, x.format_ne_empty]
  · -- The run kept an empty memory there.
    obtain ⟨hcurrent, hinput, -⟩ :=
      Engine.run_of_not_reached (d := x.domain) (m := {}) hreached cap c
    have hnone := (Memory.unused_empty (T := x.Value)) i
    simp [hinput, hcurrent, hreached, hnone]

/-- The rows of a table, one for each point; without points there are none. -/
theorem rows_tableOf {T : Type} (s : Script) (x : Analysis) (format : T → String) (o : Outcome T) :
    (tableOf s x format o).rows.getD [] = s.points.map fun p =>
      { flowPoint := s.network.idOf p
        name := s.nameOf p
        text := s.network.text p
        input := ((o.memory.input.get? p).map format).getD ""
        current := ((o.memory.current.get? p).map format).getD "" } := by
  simp only [tableOf]
  split
  · rename_i hempty
    exact (List.isEmpty_iff.mp hempty).symm
  · rfl

/-- Number `i` stands in row `i`. -/
theorem forall₂_rows {R : NodeDescription × Nat → Row → Prop} {nodes : List NodeDescription}
    {row : Nat → Row} (h : ∀ i n, nodes[i]? = some n → R (n, i) (row i)) :
    List.Forall₂ R nodes.zipIdx ((List.range nodes.length).map row) := by
  have hrange : List.range nodes.length = nodes.zipIdx.map Prod.snd := by
    rw [List.zipIdx_map_snd, List.range_eq_range']
  rw [hrange, List.map_map, List.forall₂_map_right_iff, List.forall₂_same]
  intro node hnode
  exact h node.2 node.1 (List.mem_zipIdx_iff_getElem?.mp hnode)

/-- The reached points are among those of the nodes. -/
theorem countP_reached (hbuild : d.build = .ok s) {shown : Nat → Bool}
    (hshown : ∀ i n, d.nodes[i]? = some n → (shown i = true ↔ d.Reached n.name)) :
    (List.range d.nodes.length).countP shown = (s.network.reachableFrom s.entries).length := by
  rw [List.countP_eq_length_filter]
  apply List.Perm.length_eq
  -- Both lists hold the reached points and each of them once.
  rw [List.perm_ext_iff_of_nodup (List.nodup_range.filter _)
    (Network.nodup_reachableFrom s.network s.entries)]
  intro i
  rw [List.mem_filter, List.mem_range, Network.mem_reachableFrom]
  constructor
  · rintro ⟨hi, hreached⟩
    have hn := List.getElem?_eq_getElem hi
    exact (Description.reachedFrom_iff_reached hbuild hn).mpr ((hshown i _ hn).mp hreached)
  · intro hreached
    obtain ⟨n, hn, hname⟩ := Description.exists_node_of_reachedFrom hbuild hreached
    exact ⟨(List.getElem?_eq_some_iff.mp hn).1, (hshown i n hn).mpr hname⟩

/-- **The table of a successful run shows what is reached.** -/
theorem mirrors_tableOf (hbuild : d.build = .ok s)
    (hok : (Engine.run s.network x.domain cap c s.entries {}).error? x.name = none) :
    (tableOf s x x.format (Engine.run s.network x.domain cap c s.entries {})).Mirrors d := by
  have hlists : s.Lists d.nolint d.nodes := Description.lists_of_build hbuild
  have hrows := rows_tableOf s x x.format (Engine.run s.network x.domain cap c s.entries {})
  rw [hlists.points] at hrows
  constructor
  · -- Row by row, with the site of the node and the values at its point.
    rw [hrows]
    apply forall₂_rows
    intro i n hn
    obtain ⟨hinput, hcurrent⟩ := shown_of_reached hbuild hn hok
    obtain ⟨hid, htext⟩ := Site.mk.injEq .. ▸ hlists.site i n hn
    exact ⟨congrArg Int.ofNat hid, Description.nameOf_eq hlists hn, htext, hinput, hcurrent⟩
  · -- The table counts what the run reports, which is the number of reached points.
    rw [hrows, List.countP_map, countP_reached hbuild]
    · exact congrArg Int.ofNat (Engine.flowPoints_run ..)
    · intro i n hn
      exact decide_eq_true_iff.trans (shown_of_reached hbuild hn hok).2

/-- The table of reachability holds `true` wherever it holds a value. -/
theorem reachability_rows (hbuild : d.build = .ok s)
    (hok : (Engine.run s.network ScriptFlow.reachability cap c s.entries {}).error?
      Analysis.reachability.name = none) {i : Nat} {n : NodeDescription}
    (hn : d.nodes[i]? = some n) (hreached : d.Reached n.name) :
    let memory := (Engine.run s.network ScriptFlow.reachability cap c s.entries {}).memory
    memory.input.get? i = some true ∧ memory.current.get? i = some true := by
  have hbuilt : s.network.Built := (Description.lists_of_build hbuild).built
  have hclimbs := reachability_climbs s.network s.entries
  have hvalues : ∀ r v, (Engine.run s.network ScriptFlow.reachability cap c s.entries
      {}).memory.current.get? r = some v → v = true := by
    intro r v hv
    -- Every visit stores `true`, as whatever arrives is `true`.
    refine Engine.values_run (I := fun _ v => v = true) hbuilt Memory.unused_empty ?_ cap c hv
    exact fun current p hcurrent hp harrives => hclimbs.output_mem hp hcurrent harrives
  have hpoint := (Description.reachedFrom_iff_reached hbuild hn).mpr hreached
  obtain ⟨-, harrives, hinput, hcurrent⟩ :=
    Engine.solved_of_error?_none hbuilt Analysis.reachability.eq_of_equal hok hpoint
  exact ⟨hinput.trans (congrArg some (hclimbs.input_mem hvalues harrives)),
    hcurrent.trans (congrArg some (hclimbs.output_mem hpoint hvalues harrives))⟩

/-- Each table of a report that is complete is that of a successful run. -/
theorem exists_run_of_mem_tables {a : Analyzer} (hok : (a.graph s c).error = none)
    {t : DomainReport} (ht : t ∈ (a.graph s c).report.domains.getD []) :
    ∃ x : Analysis, (Engine.run s.network x.domain a.cap c s.entries {}).error? x.name = none ∧
      t = tableOf s x x.format (Engine.run s.network x.domain a.cap c s.entries {}) := by
  obtain ⟨outs, houts, hdomains, -⟩ := graph_spec_of_ok hok
  rw [hdomains] at ht
  -- The table is that of a pass, whose run succeeded.
  obtain ⟨out, hout, rfl⟩ := List.mem_map.mp ht
  obtain ⟨x, -, hresult⟩ := houts.exists_of_mem hout
  rw [a.analysis_eq] at hresult
  obtain ⟨hrun, rfl⟩ := pass_eq_ok hresult
  exact ⟨x, hrun, rfl⟩

end Analyzer

/-- **Rows show what is reached.** In the report of every analysis that succeeds, for any graph that
can be built and any configuration that is accepted, there is one table for each analysis of the
configuration, and each table has one row for each node in order, with the number, the name and the
text of the node. Both values of a row are there exactly if the node can be reached from an entry,
and the table counts these rows. So all tables of a report agree on everything but the values and
the effort, and in the table of reachability the values of a reached node are `true`. -/
theorem rows_mirror_reachability {d : Description} {s : Script} (hbuild : d.build = .ok s)
    {conf : Config} {a : Analyzer} (hnew : Analyzer.new? conf = .ok a) (c : Cancellation)
    (hok : (a.graph s c).error = none) :
    let tables := (a.graph s c).report.domains.getD []
    tables.map (·.domain) = conf.domains ∧
      (∀ t ∈ tables, t.Mirrors d) ∧
      (∀ t ∈ tables, ∀ t' ∈ tables, t.flowPoints = t'.flowPoints ∧
        (t.rows.getD []).map Row.columns = (t'.rows.getD []).map Row.columns) ∧
      ∀ t ∈ tables, t.domain = "reachability" → ∀ row ∈ t.rows.getD [], row.current ≠ "" →
        row.input = "true" ∧ row.current = "true" := by
  intro tables
  have hmirrors : ∀ t ∈ tables, t.Mirrors d := by
    intro t ht
    obtain ⟨x, hrun, rfl⟩ := Analyzer.exists_run_of_mem_tables hok ht
    exact Analyzer.mirrors_tableOf hbuild hrun
  refine ⟨?_, hmirrors, ?_, ?_⟩
  · -- The passes were made in the order of the configuration.
    obtain ⟨outs, houts, hdomains, -⟩ := Analyzer.graph_spec_of_ok hok
    rw [← (Analyzer.new?_eq_ok hnew).1, ← houts.map_domain]
    simp [tables, hdomains]
  · intro t ht t' ht'
    exact ⟨(hmirrors t ht).flowPoints_eq (hmirrors t' ht'),
      (hmirrors t ht).columns_eq (hmirrors t' ht')⟩
  · -- Only the reachability analysis has this name, so the table is its.
    intro t ht hname row hrow hshown
    obtain ⟨x, hrun, rfl⟩ := Analyzer.exists_run_of_mem_tables hok ht
    obtain rfl : x = .reachability := Analysis.name_injective hname
    rw [Analyzer.rows_tableOf, (Description.lists_of_build hbuild).points] at hrow
    obtain ⟨i, hi, rfl⟩ := List.mem_map.mp hrow
    have hn := List.getElem?_eq_getElem (List.mem_range.mp hi)
    -- The row is shown, so its node is reached and both of its values are `true`.
    have hreached := (Analyzer.shown_of_reached hbuild hn hrun).2.mp hshown
    obtain ⟨hinput, hcurrent⟩ := Analyzer.reachability_rows hbuild hrun hn hreached
    have htrue : ∀ {v : Option Bool}, v = some true →
        (v.map Analysis.reachability.format).getD "" = "true" := by
      rintro v rfl
      rfl
    exact ⟨htrue hinput, htrue hcurrent⟩

/-- All tables of a small graph show that it comes to its last command and never to the lost one. -/
theorem rows_mirror_reachability_branching :
    ∃ s a, branching.build = .ok s ∧ Analyzer.new? .default = .ok a ∧
      (a.graph s none).error = none ∧
      ((a.graph s none).report.domains.getD []).map (·.domain) =
        ["reachability", "labels", "presence"] ∧
      (∀ t ∈ (a.graph s none).report.domains.getD [], t.Mirrors branching) ∧
      branching.Reached "last" ∧ ¬ branching.Reached "lost" := by
  obtain ⟨s, a, hbuild, hnew, hok, -⟩ := Analyzer.branching_analyzed
  obtain ⟨hdomains, hmirrors, -, -⟩ := rows_mirror_reachability hbuild hnew none hok
  refine ⟨s, a, hbuild, hnew, hok, hdomains, hmirrors, ?_, ?_⟩
  · -- A way to the last command, edge by edge.
    have hstart : branching.Reached "start" := .entry (by decide)
    have hleft : branching.Reached "left" :=
      .next (n := branching.nodes[0]) (by decide) hstart (by decide)
    have hjoin : branching.Reached "join" :=
      .next (n := branching.nodes[1]) (by decide) hleft (by decide)
    have hquiet : branching.Reached "quiet" :=
      .next (n := branching.nodes[3]) (by decide) hjoin (by decide)
    exact .next (n := branching.nodes[4]) (by decide) hquiet (by decide)
  · -- No node lists the lost one, and it is no entry.
    intro h
    cases h with
    | entry hentry => exact absurd hentry (by decide)
    | next hn _ hname =>
      have hnone : ∀ n ∈ branching.nodes, "lost" ∉ n.next := by decide
      exact hnone _ hn hname

end ScriptFlow
