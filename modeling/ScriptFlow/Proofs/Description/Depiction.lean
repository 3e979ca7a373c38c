import ScriptFlow.Proofs.Description.Faults

/-!
# The graph is the one that is written down

The points of a graph follow the nodes of its description. Here the rest is read off the
description: which names lead to which points, which edges there are at both of their ends and in
which order, where the graph is entered and what is switched off where.

Edges are made node by node and successor by successor, so they are numbered in the order in which
they are written down. What a point holds on either side is a part of that one list, and this
settles the order of its predecessors, which no node mentions.

Main statement: `build_depicts`.
-/

namespace ScriptFlow

/-! ## What is written down -/

/-- The edges of the nodes from the `first`-th on as pairs of points, by node and by place among its
successors, given the points of the names. -/
def Description.references (find : String → Option Nat) (first : Nat)
    (nodes : List NodeDescription) : List (Nat × Nat) :=
  (nodes.zipIdx first).flatMap fun x => (x.1.next.filterMap find).map (x.2, ·)

/-- The graph has exactly the points, names, edges, entries and suppressions of a description. -/
structure Script.Depicts (d : Description) (s : Script) : Prop where
  /-- There is one point per node, and the `i`-th point has the id `i` and the command of the
  `i`-th node. -/
  points : s.points = List.range d.nodes.length
  site : ∀ i n, d.nodes[i]? = some n →
    s.network.site i = ⟨i, if n.text = "" then n.name else n.text⟩
  /-- A name is found exactly if it is declared, and it leads to the point of its node. -/
  lookup_iff : ∀ name i, s.lookup name = some i ↔ ∃ n, d.nodes[i]? = some n ∧ n.name = name
  /-- Looking up names and naming points are inverse to each other. -/
  inverse : ∀ name i, s.lookup name = some i ↔ i ∈ s.points ∧ s.nameOf i = name
  /-- The successors of a point are the points named by its node, of which there are two at
  most. -/
  successors : ∀ i n, d.nodes[i]? = some n →
    (s.network.successors i).map some = n.next.map s.lookup ∧ n.next.length ≤ 2
  /-- The predecessors of a point are the points of the nodes that name it, each as often as it
  does. -/
  predecessors : ∀ i n, d.nodes[i]? = some n →
    s.network.predecessors i =
      d.nodes.zipIdx.flatMap fun x => List.replicate (x.1.next.count n.name) x.2
  /-- Both ends hold their edges in the order in which these are written down. -/
  outgoing : ∀ i, s.network.outgoing i =
    (Network.edgesOf 0 (Description.references s.lookup 0 d.nodes)).filter fun e => e.source = i
  incoming : ∀ i, s.network.incoming i =
    (Network.edgesOf 0 (Description.references s.lookup 0 d.nodes)).filter fun e => e.target = i
  /-- The entries are the points named as such, or the first one if none is named. -/
  entries : d.entry ≠ [] → s.entries.map some = d.entry.map s.lookup
  defaultEntry : d.entry = [] → s.entries = [0] ∧ 0 ∈ s.points
  /-- A rule is switched off at a point by the annotation of the graph or of the node. -/
  suppresses : ∀ (i : Nat) (n : NodeDescription) (rule : String), d.nodes[i]? = some n →
    (s.suppressions.suppresses i rule = true ↔
      d.nolint ≠ "" ∧ Scope.switchesOff d.nolint rule = true ∨
        n.nolint ≠ "" ∧ Scope.switchesOff n.nolint rule = true)

namespace Description

variable {note : String} {nodes : List NodeDescription} {s s' : Script}
  {find : String → Option Nat}

/-! ## Names -/

theorem lookup_eq_some_iff (hs : s.Lists note nodes) (hdistinct : (nodes.map (·.name)).Nodup)
    {name : String} {i : Nat} :
    s.lookup name = some i ↔ ∃ n, nodes[i]? = some n ∧ n.name = name := by
  have hlist : s.lookup name = (nodes.map (·.name)).idxOf? name := by
    rw [← hs.names]
    exact List.idxOf?_toArray name s.names.toList
  rw [hlist, idxOf?_eq_some_iff_of_nodup hdistinct, List.getElem?_map, Option.map_eq_some_iff]

theorem nameOf_eq (hs : s.Lists note nodes) {i : Nat} {n : NodeDescription}
    (hn : nodes[i]? = some n) : s.nameOf i = n.name := by
  unfold Script.nameOf
  rw [← Array.getElem?_toList, hs.names, List.getElem?_map, hn]
  rfl

/-- The entries are the points of the entry names, all of which are found. -/
theorem findEntries_eq_ok {names : List String} {entries : List Nat}
    (h : findEntries s names = .ok entries) : entries.map some = names.map s.lookup := by
  induction names generalizing entries with
  | nil =>
    cases h
    rfl
  | cons name rest ih =>
    rw [findEntries] at h
    split at h
    · cases h
    · rename_i p hp
      obtain ⟨others, hothers, rfl⟩ := Except.map_eq_ok.mp h
      rw [List.map_cons, List.map_cons, hp, ih hothers]

/-! ## The list of all edges -/

/-- The references of the first node come first. -/
theorem references_cons (find : String → Option Nat) (first : Nat) (n : NodeDescription)
    (rest : List NodeDescription) :
    references find first (n :: rest) =
      (n.next.filterMap find).map (first, ·) ++ references find (first + 1) rest := by
  rw [references, List.zipIdx_cons, List.flatMap_cons]
  rfl

/-- Linking the nodes makes one edge for each reference. -/
theorem linkNodes_eq_ok {first : Nat} (h : linkNodes s first nodes = .ok s') :
    s' = { s with network := s.network.linkAll (references s.lookup first nodes) } := by
  induction nodes generalizing s first with
  | nil =>
    cases h
    rfl
  | cons n rest ih =>
    rw [linkNodes_cons] at h
    split at h
    · cases h
    · obtain ⟨next, hlink, hrest⟩ := Except.bind_eq_ok.mp h
      have hnext := linkTo_eq_ok hlink
      rw [ih hrest, references_cons, Network.linkAll_append, hnext]
      -- Edges leave the names alone, so later references are looked up as before.
      rfl

/-- References lead from points of nodes to points that names lead to. -/
theorem mem_references {i j : Nat} :
    (i, j) ∈ references find 0 nodes ↔
      ∃ n, nodes[i]? = some n ∧ ∃ name ∈ n.next, find name = some j := by
  unfold references
  simp only [List.mem_flatMap, List.mem_map, List.mem_filterMap, Prod.exists, Prod.mk.injEq,
    List.mem_zipIdx_iff_getElem?]
  constructor
  · rintro ⟨n, k, hn, j, ⟨name, hname, hj⟩, rfl, rfl⟩
    exact ⟨n, hn, name, hname, hj⟩
  · rintro ⟨n, hn, name, hname, hj⟩
    exact ⟨n, i, hn, j, ⟨name, hname, hj⟩, rfl, rfl⟩

/-- The references of one node. -/
theorem targets_references (find : String → Option Nat) {i : Nat} {n : NodeDescription}
    (hn : nodes[i]? = some n) :
    ((references find 0 nodes).filter fun pair => pair.1 = i).map Prod.snd =
      n.next.filterMap find := by
  have hone : ∀ x : NodeDescription × Nat,
      (((x.1.next.filterMap find).map (x.2, ·)).filter fun pair => pair.1 = i).map Prod.snd =
        if x.2 = i then x.1.next.filterMap find else [] := by
    intro x
    -- All references of a node start at its point.
    by_cases hi : x.2 = i
    · simp [hi, List.filter_map, Function.comp_def]
    · simp [hi, List.filter_map, Function.comp_def]
  rw [references, List.filter_flatMap, List.map_flatMap]
  simp only [hone]
  rw [flatMap_zipIdx_single nodes (fun n => n.next.filterMap find), hn]
  rfl

/-- The names that lead to a point, if there is one such name. -/
theorem sources_of_names {i j : Nat} {own : String}
    (hown : ∀ name, find name = some j ↔ name = own) (names : List String) :
    (((names.filterMap find).map (i, ·)).filter fun pair => pair.2 = j).map Prod.fst =
      List.replicate (names.count own) i := by
  -- Induction on the names: the node's own name adds its point once more.
  induction names with
  | nil => rfl
  | cons name rest ih =>
    by_cases hname : name = own
    · -- The name is its own.
      have hj : find name = some j := (hown name).mpr hname
      rw [List.filterMap_cons_some hj, hname, List.count_cons_self, List.replicate_succ, ← ih]
      simp
    · -- Another name leads elsewhere or nowhere.
      rw [List.count_cons_of_ne hname, ← ih]
      cases hfind : find name with
      | none => rw [List.filterMap_cons_none hfind]
      | some k =>
        have hk : k ≠ j := by
          rintro rfl
          exact hname ((hown name).mp hfind)
        rw [List.filterMap_cons_some hfind]
        simp [hk]

/-- The references to one node, which has a name of its own. -/
theorem sources_references {j : Nat} {own : String}
    (hown : ∀ name, find name = some j ↔ name = own) (nodes : List NodeDescription) :
    ((references find 0 nodes).filter fun pair => pair.2 = j).map Prod.fst =
      nodes.zipIdx.flatMap fun x => List.replicate (x.1.next.count own) x.2 := by
  rw [references, List.filter_flatMap, List.map_flatMap]
  simp only [sources_of_names hown]

/-! ## Edges -/

/-- Before nodes are linked there are no edges. -/
theorem edgeless_addNodes (hs : s.network.Edgeless) (h : nodes.foldlM addNode s = .ok s') :
    s'.network.Edgeless := by
  induction nodes generalizing s with
  | nil =>
    cases h
    exact hs
  | cons n rest ih =>
    rw [List.foldlM_cons] at h
    obtain ⟨next, hadd, hrest⟩ := Except.bind_eq_ok.mp h
    apply ih _ hrest
    rw [(addNode_eq_ok hadd).2.2.1]
    exact hs.newPoint 0 n.command

/-- The edges that linking makes, at both of their ends. -/
theorem edges_linkNodes (hs : s.Lists note nodes) (hnone : s.network.Edgeless)
    (hdistinct : (nodes.map (·.name)).Nodup) (h : linkNodes s 0 nodes = .ok s') (p : Nat) :
    s'.network.outgoing p =
        (Network.edgesOf 0 (references s'.lookup 0 nodes)).filter (fun e => e.source = p) ∧
      s'.network.incoming p =
        (Network.edgesOf 0 (references s'.lookup 0 nodes)).filter (fun e => e.target = p) := by
  have hbound : ∀ pair ∈ references s.lookup 0 nodes,
      pair.1 < s.network.points.size ∧ pair.2 < s.network.points.size := by
    rintro ⟨i, j⟩ hpair
    -- A reference leads from one declared node to another, so both ends are points.
    obtain ⟨n, hn, name, -, hj⟩ := mem_references.mp hpair
    obtain ⟨m, hm, -⟩ := (lookup_eq_some_iff hs hdistinct).mp hj
    rw [hs.size]
    exact ⟨(List.getElem?_eq_some_iff.mp hn).1, (List.getElem?_eq_some_iff.mp hm).1⟩
  have hedges := Network.edges_linkAll hbound p
  rw [hnone.links, hnone.outgoing, hnone.incoming, List.nil_append, List.nil_append] at hedges
  rw [linkNodes_eq_ok h]
  exact hedges

/-! ## The whole graph -/

variable {d : Description}

theorem wellFormed_of_build (h : d.build = .ok s) : d.WellFormed :=
  d.faults_eq_nil_iff.mp ((failsFirst_build d).exists_ok_iff.mp ⟨s, h⟩)

/-- The edges of the graph, at both of their ends, are the references in order. -/
theorem edges_build (h : d.build = .ok s) (p : Nat) :
    s.network.outgoing p =
        (Network.edgesOf 0 (references s.lookup 0 d.nodes)).filter (fun e => e.source = p) ∧
      s.network.incoming p =
        (Network.edgesOf 0 (references s.lookup 0 d.nodes)).filter (fun e => e.target = p) := by
  have hdistinct := (wellFormed_of_build h).distinct
  obtain ⟨suppressions, pointed, linked, entries, hsuppressions, hpointed, hlinked, -, rfl⟩ :=
    build_eq_ok h
  have hpoints : pointed.Lists d.nolint ([] ++ d.nodes) :=
    lists_foldlM (lists_blank hsuppressions) hpointed
  -- A graph without points has no edges.
  have hblank : (Script.blank d.name suppressions).network.Edgeless :=
    ⟨rfl, fun _ => rfl, fun _ => rfl⟩
  have hnone : pointed.network.Edgeless := edgeless_addNodes hblank hpointed
  exact edges_linkNodes hpoints hnone hdistinct hlinked p

/-- In the graph that is built a name leads to the point of its node. -/
theorem lookup_build (h : d.build = .ok s) {name : String} {i : Nat} :
    s.lookup name = some i ↔ ∃ n, d.nodes[i]? = some n ∧ n.name = name :=
  lookup_eq_some_iff (lists_of_build h) (wellFormed_of_build h).distinct

/-- Looking up names and naming points are inverse to each other. -/
theorem lookup_iff_nameOf_build (h : d.build = .ok s) {name : String} {i : Nat} :
    s.lookup name = some i ↔ i ∈ s.points ∧ s.nameOf i = name := by
  have hlists : s.Lists d.nolint d.nodes := lists_of_build h
  rw [lookup_build h, hlists.points, List.mem_range]
  constructor
  · rintro ⟨n, hn, hname⟩
    exact ⟨(List.getElem?_eq_some_iff.mp hn).1, (nameOf_eq hlists hn).trans hname⟩
  · rintro ⟨hi, hname⟩
    have hn := List.getElem?_eq_getElem hi
    exact ⟨_, hn, (nameOf_eq hlists hn).symm.trans hname⟩

/-- The successors of a point are the points of the names listed at its node. -/
theorem successors_build (h : d.build = .ok s) {i : Nat} {n : NodeDescription}
    (hn : d.nodes[i]? = some n) : (s.network.successors i).map some = n.next.map s.lookup := by
  -- All successors are declared, so none is passed over.
  have hfound : ∀ name ∈ n.next, s.lookup name ≠ none := by
    intro name hname hnone
    apply lookup_eq_none_iff.mp hnone
    rw [(lists_of_build h).names]
    exact (wellFormed_of_build h).successors n (List.mem_of_getElem? hn) name hname
  rw [Network.successors, (edges_build h i).1, Network.map_target_edgesOf,
    targets_references s.lookup hn, map_some_filterMap hfound]

/-- A point is a predecessor of another one as often as its node names that one. -/
theorem predecessors_build (h : d.build = .ok s) {i : Nat} {n : NodeDescription}
    (hn : d.nodes[i]? = some n) :
    s.network.predecessors i =
      d.nodes.zipIdx.flatMap fun x => List.replicate (x.1.next.count n.name) x.2 := by
  -- Names are distinct, so only its own name leads to the point.
  have hown : ∀ name, s.lookup name = some i ↔ name = n.name := by
    intro name
    rw [lookup_build h, hn]
    simp [eq_comm]
  rw [Network.predecessors, (edges_build h i).2, Network.map_source_edgesOf,
    sources_references hown]

theorem entries_build (h : d.build = .ok s) : s.entries.map some = d.entryNames.map s.lookup := by
  obtain ⟨suppressions, pointed, linked, entries, -, -, -, hentries, rfl⟩ := build_eq_ok h
  show entries.map some = d.entryNames.map linked.lookup
  exact findEntries_eq_ok hentries

/-- Without entry names the first node is the entry. -/
theorem defaultEntry_build (h : d.build = .ok s) (hentry : d.entry = []) :
    s.entries = [0] ∧ 0 ∈ s.points := by
  have hne : d.nodes ≠ [] := by
    rcases (wellFormed_of_build h).entries with ⟨hgiven, -⟩ | ⟨-, hne⟩
    · exact absurd hentry hgiven
    -- There is a first node, since a description without entries and nodes is refused.
    · exact hne
  obtain ⟨n, rest, hnodes⟩ := List.exists_cons_of_ne_nil hne
  have hfirst : s.lookup n.name = some 0 := (lookup_build h).mpr ⟨n, by simp [hnodes], rfl⟩
  have hnames : d.entryNames = [n.name] := by simp [entryNames, hentry, hnodes]
  have hentries := entries_build h
  rw [hnames, List.map_singleton, hfirst] at hentries
  refine ⟨?_, ((lookup_iff_nameOf_build h).mp hfirst).1⟩
  exact List.map_injective_iff.mpr (Option.some_injective Nat) hentries

/-- **The graph of a description is the one that is written down.** -/
theorem build_depicts (h : d.build = .ok s) : s.Depicts d where
  points := (lists_of_build h).points
  site := (lists_of_build h).site
  lookup_iff _ _ := lookup_build h
  inverse _ _ := lookup_iff_nameOf_build h
  successors _ n hn :=
    ⟨successors_build h hn, (wellFormed_of_build h).fanOut n (List.mem_of_getElem? hn)⟩
  predecessors _ _ hn := predecessors_build h hn
  outgoing p := (edges_build h p).1
  incoming p := (edges_build h p).2
  entries hentry := by
    have hnames : d.entryNames = d.entry := by simp [entryNames, hentry]
    rw [entries_build h, hnames]
  defaultEntry := defaultEntry_build h
  suppresses i n rule hn := by
    -- An empty annotation switches off nothing, so it may be required to be there.
    rw [(lists_of_build h).suppresses, hn, Option.any_some, Bool.or_eq_true,
      ← Scope.switchesOff_iff, ← Scope.switchesOff_iff]

/-- A loop that is entered from both sides, with references forward, back, to the node itself and
twice to the same node. -/
def tangled : Description :=
  { name := "tangled"
    entry := ["out", "in", "out"]
    nolint := "//nolint:unused"
    nodes :=
      [ { name := "in", text := "mkdir a", next := ["loop", "loop"] },
        { name := "loop", next := ["loop", "out"], nolint := "//nolint" },
        { name := "out", text := "rm a", next := ["in", "loop"] } ] }

theorem build_depicts_tangled :
    ∃ s, tangled.build = .ok s ∧ s.Depicts tangled ∧ s.network.predecessors 1 = [0, 0, 1, 2] := by
  obtain ⟨s, hs⟩ : ∃ s, tangled.build = .ok s :=
    (failsFirst_build tangled).exists_ok_iff.mpr (by decide +kernel)
  have hdepicts : s.Depicts tangled := build_depicts hs
  exact ⟨s, hs, hdepicts, hdepicts.predecessors 1 _ rfl⟩

end Description

end ScriptFlow
