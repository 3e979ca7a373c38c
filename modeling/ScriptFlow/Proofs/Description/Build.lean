import ScriptFlow.Description.Basic
import ScriptFlow.Proofs.Graph.Points
import ScriptFlow.Proofs.Suppression

/-!
# The graph of a description

The graph is made in stages: one point per node, then the edges, then the entries. Each stage keeps
what the earlier ones achieved, so in the end point `i` is the point of the `i`-th node, with `i`
for its id, with the command of the node, and with the rules switched off that the annotations of
the graph and of the node name.

Main statement: `lists_of_build`.
-/

namespace ScriptFlow

/-- The command of a node; the name stands in for an empty text. -/
def NodeDescription.command (n : NodeDescription) : String :=
  if n.text = "" then n.name else n.text

theorem NodeDescription.command_ne {n : NodeDescription} (h : n.name ≠ "") : n.command ≠ "" := by
  unfold command
  split
  · exact h
  · assumption

/-- A script with one point for each node of a list, in the order of the list, under an annotation
for the whole graph. -/
structure Script.Lists (note : String) (nodes : List NodeDescription) (s : Script) : Prop where
  built : s.network.Built
  graphs : s.network.graphs.size = 1
  size : s.network.points.size = nodes.length
  points : s.points = List.range nodes.length
  names : s.names.toList = nodes.map (·.name)
  site : ∀ i n, nodes[i]? = some n → s.network.site i = ⟨i, n.command⟩
  suppresses : ∀ (i : Nat) (rule : String), s.suppressions.suppresses i rule =
    (Scope.switchesOff note rule || nodes[i]?.any fun n => Scope.switchesOff n.nolint rule)

namespace Description

variable {note : String} {nodes : List NodeDescription} {s s' : Script}

/-! ## Points -/

/-- Before nodes are added the script has one graph and no points. -/
theorem lists_blank {d : Description} {suppressions : Suppressions}
    (h : d.graphSuppressions = .ok suppressions) :
    (Script.blank d.name suppressions).Lists d.nolint [] where
  built := .newGraph .empty
  graphs := rfl
  size := rfl
  points := rfl
  names := rfl
  site i n hn := by simp at hn
  suppresses i rule := by
    unfold graphSuppressions at h
    split at h
    · -- An empty annotation says nothing.
      rename_i hempty
      cases h
      simp [Script.blank, hempty]
    · -- Another one is read, or the build stops here.
      rw [Except.mapError_eq_ok] at h
      simp [Script.blank, Suppressions.suppresses_addGraph h]

/-- An accepted node has a name that is new, and its annotation is added for the new point. -/
theorem addNode_eq_ok {n : NodeDescription} (h : addNode s n = .ok s') :
    n.name ≠ "" ∧ n.name ∉ s.names.toList ∧
      s'.network = (s.network.newPoint 0 n.command).1 ∧ s'.names = s.names.push n.name ∧
      ∀ i rule, s'.suppressions.suppresses i rule =
        (s.suppressions.suppresses i rule ||
          (decide (((s.network.newPoint 0 n.command).1.idOf s.network.points.size : Int) = i) &&
            Scope.switchesOff n.nolint rule)) := by
  unfold addNode at h
  split at h
  · -- The name is empty, which is refused.
    cases h
  split at h
  · -- The name was given before, which is refused.
    cases h
  rename_i hname hnew
  obtain ⟨suppressions, hannotated, rfl⟩ := Except.map_eq_ok.mp h
  refine ⟨hname, by simpa using hnew, rfl, rfl, fun i rule => ?_⟩
  split at hannotated
  · rename_i hempty
    cases hannotated
    simp [hempty]
  · rw [Except.mapError_eq_ok] at hannotated
    exact Suppressions.suppresses_addPoint hannotated i rule

/-- Adding a node gives it the next point. -/
theorem lists_addNode {n : NodeDescription} (hs : s.Lists note nodes) (h : addNode s n = .ok s') :
    s'.Lists note (nodes ++ [n]) := by
  obtain ⟨hname, -, hnet, hnames, hsuppresses⟩ := addNode_eq_ok h
  have hsize := hs.size
  -- The new point belongs to the only graph, which was made first.
  have hzero : 0 < s.network.graphs.size := by
    rw [hs.graphs]
    exact Nat.one_pos
  have hlength : (s.network.pointsOf 0).length = nodes.length := by
    have hpoints := congrArg List.length hs.points
    simpa [Script.points] using hpoints
  -- Ids count the points of the only graph, so the new one is the number of nodes so far.
  have hself : s'.network.site nodes.length = ⟨nodes.length, n.command⟩ := by
    rw [hnet, ← hsize, Network.site_newPoint_self, if_neg (NodeDescription.command_ne hname),
      hlength, hsize]
  refine ⟨?_, ?_, ?_, ?_, ?_, ?_, ?_⟩
  · -- One new point, in a graph that there is.
    rw [hnet]
    exact .newPoint 0 _ hs.built hzero
  · rw [hnet, Network.graphs_size_newPoint, hs.graphs]
  · rw [hnet, Network.size_newPoint, hsize, List.length_append, List.length_singleton]
  · -- The points in order, with the new one at the end.
    show s'.network.pointsOf 0 = _
    rw [hnet, Network.pointsOf_newPoint_self hzero, List.length_append, List.length_singleton,
      List.range_succ, hsize]
    exact congrArg (· ++ [nodes.length]) hs.points
  · rw [hnames, Array.toList_push, hs.names, List.map_append, List.map_singleton]
  · intro i m hm
    rw [getElem?_snoc] at hm
    split at hm
    · cases hm
      subst i
      exact hself
    · -- An earlier node keeps its point.
      have hi : i < s.network.points.size := hsize ▸ (List.getElem?_eq_some_iff.mp hm).1
      rw [hnet, hs.built.site_newPoint 0 _ hi]
      exact hs.site i m hm
  · -- The annotation of the node is about the new id.
    intro i rule
    have hid : (s.network.newPoint 0 n.command).1.idOf s.network.points.size = nodes.length := by
      rw [← hnet, hsize]
      exact congrArg Site.id hself
    rw [hsuppresses, hid, hs.suppresses, Bool.or_assoc, getElem?_snoc]
    by_cases hi : i = nodes.length
    · simp [hi]
    · have hne : (nodes.length : Int) ≠ i := by omega
      simp [hi, hne]

/-- Adding nodes one by one gives them their points in order. -/
theorem lists_foldlM {rest : List NodeDescription} (hs : s.Lists note nodes)
    (h : rest.foldlM addNode s = .ok s') : s'.Lists note (nodes ++ rest) := by
  induction rest generalizing nodes s with
  | nil =>
    cases h
    simpa using hs
  | cons n rest ih =>
    rw [List.foldlM_cons] at h
    obtain ⟨next, hadd, hrest⟩ := Except.bind_eq_ok.mp h
    have hlists := ih (lists_addNode hs hadd) hrest
    simpa using hlists

/-! ## Edges -/

/-- An edge changes no point, no name and no annotation. -/
theorem lists_link (hs : s.Lists note nodes) (i j : Nat) :
    ({ s with network := s.network.link i j } : Script).Lists note nodes where
  built := .link i j hs.built
  graphs := by
    rw [← hs.graphs]
    exact congrArg Array.size (Network.graphs_link s.network i j)
  size := (Network.size_link i j).trans hs.size
  points := (Network.pointsOf_link s.network i j 0).trans hs.points
  names := hs.names
  site k n hn := (Network.site_link i j k).trans (hs.site k n hn)
  suppresses := hs.suppresses

/-- The edges to the successors of a node change no point, no name and no annotation. -/
theorem lists_linkTo {i : Nat} {node : String} {targets : List String} (hs : s.Lists note nodes)
    (h : linkTo i node s targets = .ok s') : s'.Lists note nodes := by
  induction targets generalizing s with
  | nil =>
    cases h
    exact hs
  | cons name rest ih =>
    rw [linkTo] at h
    split at h
    · -- A name that is not declared is refused.
      cases h
    · exact ih (lists_link hs i _) h

/-- The names of all targets are found, and one edge is made for each. -/
theorem linkTo_eq_ok {i : Nat} {node : String} {targets : List String}
    (h : linkTo i node s targets = .ok s') :
    s' = { s with network := s.network.linkAll ((targets.filterMap s.lookup).map (i, ·)) } := by
  induction targets generalizing s with
  | nil =>
    cases h
    rfl
  | cons name rest ih =>
    rw [linkTo] at h
    split at h
    · cases h
    · rename_i j hlookup
      rw [ih h, List.filterMap_cons_some hlookup]
      rfl

/-- The nodes are linked one after the other. -/
theorem linkNodes_cons (s : Script) (i : Nat) (n : NodeDescription) (rest : List NodeDescription) :
    linkNodes s i (n :: rest) =
      if maxSuccessors < n.next.length then .error (.tooManySuccessors n.name n.next.length)
      else linkTo i n.name s n.next >>= fun s' => linkNodes s' (i + 1) rest := by
  rw [linkNodes]
  cases linkTo i n.name s n.next <;> rfl

/-- Linking the nodes leaves the points as they are. -/
theorem lists_linkNodes {i : Nat} {rest : List NodeDescription} (hs : s.Lists note nodes)
    (h : linkNodes s i rest = .ok s') : s'.Lists note nodes := by
  induction rest generalizing s i with
  | nil =>
    cases h
    exact hs
  | cons n rest ih =>
    rw [linkNodes_cons] at h
    split at h
    · cases h
    · obtain ⟨next, hlink, hrest⟩ := Except.bind_eq_ok.mp h
      exact ih (lists_linkTo hs hlink) hrest

/-! ## The whole description -/

/-- The stages of a build that succeeds. -/
theorem build_eq_ok {d : Description} (h : d.build = .ok s) :
    ∃ suppressions pointed linked entries, d.graphSuppressions = .ok suppressions ∧
      d.nodes.foldlM addNode (Script.blank d.name suppressions) = .ok pointed ∧
      linkNodes pointed 0 d.nodes = .ok linked ∧
      findEntries linked d.entryNames = .ok entries ∧ s = { linked with entries := entries } := by
  obtain ⟨suppressions, hsuppressions, h⟩ := Except.bind_eq_ok.mp h
  obtain ⟨pointed, hpointed, h⟩ := Except.bind_eq_ok.mp h
  obtain ⟨linked, hlinked, h⟩ := Except.bind_eq_ok.mp h
  split at h
  · -- A description without nodes and entries is refused.
    cases h
  · obtain ⟨entries, hentries, h⟩ := Except.bind_eq_ok.mp h
    cases h
    exact ⟨suppressions, pointed, linked, entries, hsuppressions, hpointed, hlinked, hentries, rfl⟩

/-- **Point `i` of the graph is the point of the `i`-th node.** -/
theorem lists_of_build {d : Description} (h : d.build = .ok s) : s.Lists d.nolint d.nodes := by
  obtain ⟨suppressions, pointed, linked, entries, hsuppressions, hpointed, hlinked, -, rfl⟩ :=
    build_eq_ok h
  have hpoints : pointed.Lists d.nolint ([] ++ d.nodes) :=
    lists_foldlM (lists_blank hsuppressions) hpointed
  have hedges : linked.Lists d.nolint d.nodes := lists_linkNodes hpoints hlinked
  -- The entries are no part of the graph.
  exact ⟨hedges.built, hedges.graphs, hedges.size, hedges.points, hedges.names, hedges.site,
    hedges.suppresses⟩

end Description

end ScriptFlow
