import ScriptFlow.Proofs.Description.Build

/-!
# What is wrong with a description

All faults of a description in one list, in the order in which they are looked for. Checks that are
made one after the other fail with the first fault of all their lists put together, so each stage of
a build is compared with its own part of the list.

Main statement: `build_fails_with_first_fault`, the build fails with the first fault of the list and
succeeds for the descriptions that are well-formed.
-/

namespace ScriptFlow

/-! ## Checks that fail with the first of several faults -/

section FailsFirst

variable {ε α β : Type} {x : Except ε α} {f : α → Except ε β} {faults more : List ε}

/-- The computation fails with the first fault of a list, and succeeds if there is none. -/
def FailsFirst (x : Except ε α) (faults : List ε) : Prop :=
  ∀ e, x = .error e ↔ faults.head? = some e

theorem failsFirst_ok (a : α) : FailsFirst (.ok a : Except ε α) [] := by
  intro e
  simp

/-- What fails has its error as the first fault, whatever comes after it. -/
theorem failsFirst_error (e : ε) (more : List ε) :
    FailsFirst (.error e : Except ε α) (e :: more) := by
  intro e'
  simp

/-- A check without faults is one that succeeds. -/
theorem FailsFirst.exists_ok_iff (h : FailsFirst x faults) : (∃ a, x = .ok a) ↔ faults = [] := by
  cases x with
  | error e =>
    have hhead := (h e).mp rfl
    constructor
    · rintro ⟨a, ha⟩
      cases ha
    · intro hnil
      rw [hnil] at hhead
      cases hhead
  | ok a =>
    refine ⟨fun _ => ?_, fun _ => ⟨a, rfl⟩⟩
    cases faults with
    | nil => rfl
    | cons e more => cases (h e).mpr rfl

/-- A second check finds its faults after those of the first. -/
theorem FailsFirst.bind (h : FailsFirst x faults)
    (hf : ∀ a, x = .ok a → FailsFirst (f a) more) : FailsFirst (x >>= f) (faults ++ more) := by
  cases x with
  | error e =>
    -- The error of the first check is the first fault of all.
    obtain ⟨rest, rfl⟩ := List.head?_eq_some_iff.mp ((h e).mp rfl)
    exact failsFirst_error e _
  | ok a =>
    have hnil : faults = [] := h.exists_ok_iff.mp ⟨a, rfl⟩
    rw [hnil]
    exact hf a rfl

/-- What is made of a result changes no fault. -/
theorem FailsFirst.map (h : FailsFirst x faults) (g : α → β) : FailsFirst (x.map g) faults := by
  cases x with
  | error e =>
    obtain ⟨rest, rfl⟩ := List.head?_eq_some_iff.mp ((h e).mp rfl)
    exact failsFirst_error e _
  | ok a =>
    have hnil : faults = [] := h.exists_ok_iff.mp ⟨a, rfl⟩
    rw [hnil]
    exact failsFirst_ok (g a)

/-- A test before the rest of a check. -/
theorem FailsFirst.guard {p : Prop} [Decidable p] {e : ε} (h : ¬ p → FailsFirst x faults) :
    FailsFirst (if p then .error e else x) ((if p then [e] else []) ++ faults) := by
  split
  · exact failsFirst_error e faults
  · exact h ‹_›

end FailsFirst

/-! ## The faults of a description -/

/-- The fault of an annotation, told as `report` says. An empty text is none and has no fault. -/
def annotationFaults (report : AnnotationError → DescriptionError) (text : String) :
    List DescriptionError :=
  if text = "" then []
  else match Scope.parse text with
    | .ok _ => []
    | .error cause => [report cause]

namespace NodeDescription

/-- The faults of a node itself, after nodes with the given names. -/
def faults (earlier : List String) (n : NodeDescription) : List DescriptionError :=
  (if n.name = "" then [.emptyName] else []) ++
    ((if n.name ∈ earlier then [.duplicateNode n.name] else []) ++
      annotationFaults (.nodeNolint n.name) n.nolint)

/-- The faults of the successors of a node, in a graph of nodes with the given names. -/
def successorFaults (declared : List String) (n : NodeDescription) : List DescriptionError :=
  (if 2 < n.next.length then [.tooManySuccessors n.name n.next.length] else []) ++
    (n.next.filter (· ∉ declared)).map (.unknownSuccessor · n.name)

end NodeDescription

namespace Description

/-- The names of the nodes. -/
def declared (d : Description) : List String :=
  d.nodes.map (·.name)

/-- The faults of nodes themselves, node by node, after nodes with the given names. -/
def nodeFaults : List String → List NodeDescription → List DescriptionError
  | _, [] => []
  | earlier, n :: rest => n.faults earlier ++ nodeFaults (earlier ++ [n.name]) rest

/-- Everything that is wrong with a description: with the annotation of the graph, with the nodes
themselves, with their successors, and with the entries. -/
def faults (d : Description) : List DescriptionError :=
  annotationFaults .graphNolint d.nolint ++
    (nodeFaults [] d.nodes ++
      (d.nodes.flatMap (·.successorFaults d.declared) ++
        ((if d.entry = [] ∧ d.nodes = [] then [.noEntry] else []) ++
          (d.entry.filter (· ∉ d.declared)).map .unknownEntry)))

/-- What a description has to be like for a graph to be made of it. -/
structure WellFormed (d : Description) : Prop where
  graphNolint : d.nolint = "" ∨ Scope.IsAnnotation d.nolint
  named : ∀ n ∈ d.nodes, n.name ≠ ""
  distinct : d.declared.Nodup
  nodeNolint : ∀ n ∈ d.nodes, n.nolint = "" ∨ Scope.IsAnnotation n.nolint
  fanOut : ∀ n ∈ d.nodes, n.next.length ≤ 2
  successors : ∀ n ∈ d.nodes, ∀ name ∈ n.next, name ∈ d.declared
  entries : d.entry ≠ [] ∧ (∀ name ∈ d.entry, name ∈ d.declared) ∨ d.entry = [] ∧ d.nodes ≠ []

/-! ## Descriptions without faults -/

theorem annotationFaults_eq_nil_iff (report : AnnotationError → DescriptionError) (text : String) :
    annotationFaults report text = [] ↔ text = "" ∨ Scope.IsAnnotation text := by
  unfold annotationFaults
  rw [← Scope.exists_parse_eq_ok_iff]
  by_cases hempty : text = ""
  · simp [hempty]
  · cases Scope.parse text <;> simp [hempty]

theorem node_faults_eq_nil_iff (earlier : List String) (n : NodeDescription) :
    n.faults earlier = [] ↔
      n.name ≠ "" ∧ n.name ∉ earlier ∧ (n.nolint = "" ∨ Scope.IsAnnotation n.nolint) := by
  unfold NodeDescription.faults
  rw [List.append_eq_nil_iff, List.append_eq_nil_iff, annotationFaults_eq_nil_iff]
  simp

/-- Nodes have no faults if each of them has none, with the names before it taken into account. -/
theorem nodeFaults_eq_nil_iff (earlier : List String) (nodes : List NodeDescription) :
    nodeFaults earlier nodes = [] ↔
      (∀ n ∈ nodes, n.name ≠ "" ∧ (n.nolint = "" ∨ Scope.IsAnnotation n.nolint)) ∧
        (nodes.map (·.name)).Nodup ∧ ∀ n ∈ nodes, n.name ∉ earlier := by
  -- Induction on the nodes, for whatever names came before.
  induction nodes generalizing earlier with
  | nil => simp [nodeFaults]
  | cons n rest ih =>
    -- A later node must have none of the earlier names, among them the name of this one.
    have hlater : (∀ m ∈ rest, m.name ∉ earlier ++ [n.name]) ↔
        (∀ m ∈ rest, m.name ∉ earlier) ∧ n.name ∉ rest.map (·.name) := by
      simp only [List.mem_append, List.mem_singleton, not_or, List.mem_map, not_exists, not_and]
      constructor
      · intro h
        exact ⟨fun m hm => (h m hm).1, fun m hm heq => (h m hm).2 heq⟩
      · rintro ⟨hearlier, hname⟩ m hm
        exact ⟨hearlier m hm, hname m hm⟩
    rw [nodeFaults, List.append_eq_nil_iff, node_faults_eq_nil_iff, ih, hlater, List.map_cons,
      List.nodup_cons, List.forall_mem_cons, List.forall_mem_cons]
    constructor
    · rintro ⟨⟨hname, hnew, hnolint⟩, hrest, hdistinct, hearlier, hother⟩
      exact ⟨⟨⟨hname, hnolint⟩, hrest⟩, ⟨hother, hdistinct⟩, hnew, hearlier⟩
    · rintro ⟨⟨⟨hname, hnolint⟩, hrest⟩, ⟨hother, hdistinct⟩, hnew, hearlier⟩
      exact ⟨⟨hname, hnew, hnolint⟩, hrest, hdistinct, hearlier, hother⟩

/-- The successors of a node have no faults if there are two at most, all of them declared. -/
theorem successorFaults_eq_nil_iff (declared : List String) (n : NodeDescription) :
    n.successorFaults declared = [] ↔ n.next.length ≤ 2 ∧ ∀ name ∈ n.next, name ∈ declared := by
  unfold NodeDescription.successorFaults
  rw [List.append_eq_nil_iff, List.map_eq_nil_iff, List.filter_eq_nil_iff]
  simp

/-- A description has no faults exactly if it is well-formed. -/
theorem faults_eq_nil_iff (d : Description) : d.faults = [] ↔ d.WellFormed := by
  unfold faults
  simp only [List.append_eq_nil_iff, annotationFaults_eq_nil_iff, nodeFaults_eq_nil_iff,
    List.flatMap_eq_nil_iff, successorFaults_eq_nil_iff, List.map_eq_nil_iff,
    List.filter_eq_nil_iff]
  constructor
  · rintro ⟨hgraph, ⟨hnodes, hdistinct, -⟩, hnext, hentry, hknown⟩
    refine ⟨hgraph, fun n hn => (hnodes n hn).1, hdistinct, fun n hn => (hnodes n hn).2,
      fun n hn => (hnext n hn).1, fun n hn => (hnext n hn).2, ?_⟩
    -- With entry names these are checked; without them a first node has to be there.
    by_cases hempty : d.entry = []
    · exact Or.inr ⟨hempty, by simpa [hempty] using hentry⟩
    · exact Or.inl ⟨hempty, by simpa using hknown⟩
  · intro h
    refine ⟨h.graphNolint, ⟨fun n hn => ⟨h.named n hn, h.nodeNolint n hn⟩, h.distinct, by simp⟩,
      fun n hn => ⟨h.fanOut n hn, h.successors n hn⟩, ?_, ?_⟩
    · rcases h.entries with ⟨hne, -⟩ | ⟨-, hne⟩
      · simp [hne]
      · simp [hne]
    · rcases h.entries with ⟨-, hknown⟩ | ⟨hempty, -⟩
      · simpa using hknown
      · simp [hempty]

/-! ## Each stage fails with the first of its faults -/

variable {s s' : Script}

theorem lookup_eq_none_iff {name : String} : s.lookup name = none ↔ name ∉ s.names.toList := by
  unfold Script.lookup
  rw [Array.idxOf?_eq_none_iff, Array.mem_def]

theorem mem_names_of_lookup {name : String} {i : Nat} (h : s.lookup name = some i) :
    name ∈ s.names.toList := by
  by_contra hunknown
  rw [lookup_eq_none_iff.mpr hunknown] at h
  cases h

/-- An annotation that is added in whatever way fails as its text says. -/
theorem failsFirst_annotation {α : Type} (report : AnnotationError → DescriptionError)
    (text : String) (unchanged : α) (add : Scope → α) :
    FailsFirst
      (if text = "" then .ok unchanged
        else (Scope.parse text >>= fun scope => pure (add scope)).mapError report)
      (annotationFaults report text) := by
  unfold annotationFaults
  split
  · exact failsFirst_ok unchanged
  · cases Scope.parse text with
    | ok scope => exact failsFirst_ok (add scope)
    | error cause => exact failsFirst_error (report cause) []

theorem failsFirst_graphSuppressions (d : Description) :
    FailsFirst d.graphSuppressions (annotationFaults .graphNolint d.nolint) :=
  failsFirst_annotation .graphNolint d.nolint _ _

/-- Adding a node fails with the first of its own faults. -/
theorem failsFirst_addNode (s : Script) (n : NodeDescription) :
    FailsFirst (addNode s n) (n.faults s.names.toList) := by
  unfold addNode NodeDescription.faults
  apply FailsFirst.guard
  intro hname
  have hcontains : (s.names.contains n.name = true) = (n.name ∈ s.names.toList) := by simp
  -- The names are looked up in the array in which they are kept, in the order of the nodes.
  simp only [hcontains]
  apply FailsFirst.guard
  intro hnew
  apply FailsFirst.map
  exact failsFirst_annotation (.nodeNolint n.name) n.nolint _ _

/-- Adding nodes fails with the first fault of a node that is added. -/
theorem failsFirst_addNodes (s : Script) (nodes : List NodeDescription) :
    FailsFirst (nodes.foldlM addNode s) (nodeFaults s.names.toList nodes) := by
  -- On the nodes, for every script that the nodes before them have made.
  induction nodes generalizing s with
  | nil => exact failsFirst_ok s
  | cons n rest ih =>
    rw [List.foldlM_cons, nodeFaults]
    apply (failsFirst_addNode s n).bind
    intro s' hadd
    -- The next node is added behind the name of this one.
    have hnames : s'.names.toList = s.names.toList ++ [n.name] := by
      rw [(addNode_eq_ok hadd).2.2.2.1, Array.toList_push]
    rw [← hnames]
    exact ih s'

/-- Linking to successors fails with the first of them that is not declared. -/
theorem failsFirst_linkTo (i : Nat) (node : String) (s : Script) (targets : List String) :
    FailsFirst (linkTo i node s targets)
      ((targets.filter (· ∉ s.names.toList)).map (.unknownSuccessor · node)) := by
  -- On the successors: a known one adds an edge and leaves the names as they are.
  induction targets generalizing s with
  | nil => exact failsFirst_ok s
  | cons name rest ih =>
    rw [linkTo]
    cases hlookup : s.lookup name with
    | none =>
      have hunknown := lookup_eq_none_iff.mp hlookup
      rw [List.filter_cons_of_pos (by simpa using hunknown)]
      exact failsFirst_error _ _
    | some j =>
      have hknown := mem_names_of_lookup hlookup
      rw [List.filter_cons_of_neg (by simpa using hknown)]
      exact ih { s with network := s.network.link i j }

/-- Linking nodes fails with the first fault of a node's successors. -/
theorem failsFirst_linkNodes (s : Script) (i : Nat) (nodes : List NodeDescription) :
    FailsFirst (linkNodes s i nodes)
      (nodes.flatMap (·.successorFaults s.names.toList)) := by
  induction nodes generalizing s i with
  | nil => exact failsFirst_ok s
  | cons n rest ih =>
    rw [linkNodes_cons, List.flatMap_cons, NodeDescription.successorFaults, List.append_assoc]
    apply FailsFirst.guard
    intro _
    apply (failsFirst_linkTo i n.name s n.next).bind
    intro s' hlink
    -- Edges leave the names alone, so the next node is checked against the same ones.
    have hnames : s'.names = s.names := by rw [linkTo_eq_ok hlink]
    rw [← hnames]
    exact ih s' (i + 1)

/-- Looking up the entries fails with the first of them that is not declared. -/
theorem failsFirst_findEntries (s : Script) (names : List String) :
    FailsFirst (findEntries s names)
      ((names.filter (· ∉ s.names.toList)).map .unknownEntry) := by
  -- On the entry names, all of which are looked up in the same graph.
  induction names with
  | nil => exact failsFirst_ok []
  | cons name rest ih =>
    rw [findEntries]
    cases hlookup : s.lookup name with
    | none =>
      have hunknown := lookup_eq_none_iff.mp hlookup
      rw [List.filter_cons_of_pos (by simpa using hunknown)]
      exact failsFirst_error _ _
    | some j =>
      have hknown := mem_names_of_lookup hlookup
      rw [List.filter_cons_of_neg (by simpa using hknown)]
      exact ih.map _

/-! ## The whole build -/

/-- The first node is declared, so standing in for missing entries it makes no fault. -/
theorem unknown_entryNames (d : Description) :
    d.entryNames.filter (· ∉ d.declared) = d.entry.filter (· ∉ d.declared) := by
  unfold entryNames declared
  cases hentry : d.entry with
  | cons name rest => rfl
  | nil =>
    cases hnodes : d.nodes with
    | nil => rfl
    | cons n rest => simp

theorem entryNames_isEmpty (d : Description) :
    (d.entryNames.isEmpty = true) = (d.entry = [] ∧ d.nodes = []) := by
  unfold entryNames
  cases d.entry with
  | cons name rest => simp
  | nil => cases d.nodes <;> simp

/-- **Each stage of the build fails with the first of its faults**, hence so does the build. -/
theorem failsFirst_build (d : Description) : FailsFirst d.build d.faults := by
  unfold build faults
  -- The stages are put together in the order in which their faults stand in the list.
  apply (failsFirst_graphSuppressions d).bind
  intro suppressions hsuppressions
  apply (failsFirst_addNodes (Script.blank d.name suppressions) d.nodes).bind
  intro pointed hpointed
  -- The names in the graph are the declared ones from here on.
  have hpoints := lists_foldlM (lists_blank hsuppressions) hpointed
  have hnames : pointed.names.toList = d.declared := hpoints.names
  rw [← hnames]
  apply (failsFirst_linkNodes pointed 0 d.nodes).bind
  intro linked hlinked
  have hnames' : linked.names.toList = d.declared := (lists_linkNodes hpoints hlinked).names
  simp only [entryNames_isEmpty]
  rw [hnames, ← unknown_entryNames, ← hnames']
  show FailsFirst (if d.entry = [] ∧ d.nodes = [] then .error DescriptionError.noEntry else _) _
  apply FailsFirst.guard
  intro _
  exact (failsFirst_findEntries linked d.entryNames).map _

/-- **A build fails with the first fault of the description.** It succeeds exactly for well-formed
descriptions, and otherwise reports what is wrong first: with the annotation of the graph, with the
name or the annotation of a node, with the successors of a node, with the entries. -/
theorem build_fails_with_first_fault (d : Description) :
    ((∃ s, d.build = .ok s) ↔ d.WellFormed) ∧
      ∀ e, d.build = .error e ↔ d.faults.head? = some e :=
  ⟨(failsFirst_build d).exists_ok_iff.trans d.faults_eq_nil_iff, failsFirst_build d⟩

end Description

end ScriptFlow
