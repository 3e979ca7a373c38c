import ScriptFlow.Dataflow.Engine
import ScriptFlow.Proofs.Graph.Construction
import ScriptFlow.Proofs.Graph.Reachability

/-!
# Networks with the same edges

Two networks have the same edges if they connect the same points, in whatever order the edges were
made and however often. What can be reached does not depend on that order.

Main statement: `sameEdges_of_perm`, for edges added in two orders.
-/

namespace ScriptFlow

namespace Network

/-- The points look the same and lead to the same points. -/
structure SameEdges (net net' : Network) : Prop where
  site : ∀ p, net'.site p = net.site p
  mem_successors : ∀ p q, q ∈ net'.successors p ↔ q ∈ net.successors p

variable {net net' : Network} {entries entries' : List Nat}

theorem SameEdges.symm (h : SameEdges net net') : SameEdges net' net :=
  ⟨fun p => (h.site p).symm, fun p q => (h.mem_successors p q).symm⟩

theorem SameEdges.mem_predecessors (h : SameEdges net net') (hnet : net.Built)
    (hnet' : net'.Built) (p q : Nat) : p ∈ net'.predecessors q ↔ p ∈ net.predecessors q := by
  rw [hnet.mem_predecessors_iff, hnet'.mem_predecessors_iff, h.mem_successors]

/-- Whatever is reached over edges of one network is reached over those of the other. -/
theorem SameEdges.reachedFrom_of (h : SameEdges net net')
    (hentries : ∀ e, e ∈ entries → e ∈ entries') {q : Nat} (hq : net.ReachedFrom entries q) :
    net'.ReachedFrom entries' q :=
  -- By induction on the way: each of its edges is there in the other network, too.
  hq.induction (P := net'.ReachedFrom entries') (fun e he => .of_mem (hentries e he))
    fun p q _ hp hsucc => hp.step ((h.mem_successors p q).mpr hsucc)

/-- Entries may be listed in any order and repeated. -/
theorem SameEdges.reachedFrom_iff (h : SameEdges net net')
    (hentries : ∀ e, e ∈ entries' ↔ e ∈ entries) (q : Nat) :
    net'.ReachedFrom entries' q ↔ net.ReachedFrom entries q :=
  ⟨h.symm.reachedFrom_of fun e => (hentries e).mp, h.reachedFrom_of fun e => (hentries e).mpr⟩

/-! ## Edges made in a given order -/

/-- Adds an edge for each pair, one after the other. -/
def linkAll (net : Network) (pairs : List (Nat × Nat)) : Network :=
  pairs.foldl (fun net pair => net.link pair.1 pair.2) net

theorem linkAll_cons (pair : Nat × Nat) (rest : List (Nat × Nat)) :
    net.linkAll (pair :: rest) = (net.link pair.1 pair.2).linkAll rest :=
  rfl

theorem linkAll_append (pairs pairs' : List (Nat × Nat)) :
    net.linkAll (pairs ++ pairs') = (net.linkAll pairs).linkAll pairs' :=
  List.foldl_append

theorem Built.linkAll (h : net.Built) (pairs : List (Nat × Nat)) : (net.linkAll pairs).Built := by
  induction pairs generalizing net with
  | nil => exact h
  | cons pair rest ih => exact ih (.link pair.1 pair.2 h)

theorem size_link (source target : Nat) :
    (net.link source target).points.size = net.points.size := by
  unfold link
  split
  · simp
  · rfl

/-- Beside the old edges there is the new one, provided that both its ends exist. -/
theorem mem_successors_link {source target p q : Nat} :
    q ∈ (net.link source target).successors p ↔
      q ∈ net.successors p ∨
        (source < net.points.size ∧ target < net.points.size) ∧ (p, q) = (source, target) := by
  unfold successors
  by_cases hlt : source < net.points.size ∧ target < net.points.size
  · rw [outgoing_link hlt]
    by_cases hp : p = source
    · subst hp
      simp [hlt]
    · -- The new edge is held by its source alone.
      simp [hp]
  · -- An edge to or from a point that does not exist is not made.
    rw [link_of_not_lt hlt]
    simp [hlt]

/-- All edges of the list are made whose ends exist. -/
theorem mem_successors_linkAll {pairs : List (Nat × Nat)} {p q : Nat} :
    q ∈ (net.linkAll pairs).successors p ↔
      q ∈ net.successors p ∨ (p < net.points.size ∧ q < net.points.size) ∧ (p, q) ∈ pairs := by
  induction pairs generalizing net with
  | nil => simp [linkAll]
  | cons pair rest ih =>
    -- An edge is made if both its ends exist, and making edges creates no points.
    rw [linkAll_cons, ih, mem_successors_link, size_link, List.mem_cons]
    constructor
    · rintro ((hq | ⟨hlt, he⟩) | ⟨hlt, hq⟩)
      · exact Or.inl hq
      · obtain ⟨rfl, rfl⟩ := Prod.mk.inj he
        exact Or.inr ⟨hlt, Or.inl rfl⟩
      · exact Or.inr ⟨hlt, Or.inr hq⟩
    · rintro (hq | ⟨hlt, rfl | hq⟩)
      · exact Or.inl (Or.inl hq)
      · exact Or.inl (Or.inr ⟨hlt, rfl⟩)
      · exact Or.inr ⟨hlt, hq⟩

/-- What commands see of a point has nothing to do with edges. -/
theorem site_link (source target p : Nat) : (net.link source target).site p = net.site p := by
  unfold link
  split
  · simp only [site, idOf, text, Array.getElem?_modify]
    cases net.points[p]? with
    | none => simp
    -- A point may be the source, the target, both ends or none of the edge.
    | some point => by_cases hs : source = p <;> by_cases ht : target = p <;> simp [hs, ht]
  · rfl

theorem site_linkAll (pairs : List (Nat × Nat)) (p : Nat) :
    (net.linkAll pairs).site p = net.site p := by
  induction pairs generalizing net with
  | nil => rfl
  | cons pair rest ih => rw [linkAll_cons, ih, site_link]

/-- The edges made for a list of pairs, numbered from `first` on. -/
def edgesOf (first : Nat) (pairs : List (Nat × Nat)) : List Edge :=
  (pairs.zipIdx first).map fun x => ⟨x.2, x.1.1, x.1.2⟩

theorem edgesOf_cons (first : Nat) (pair : Nat × Nat) (rest : List (Nat × Nat)) :
    edgesOf first (pair :: rest) = ⟨first, pair.1, pair.2⟩ :: edgesOf (first + 1) rest := by
  simp [edgesOf, List.zipIdx_cons]

/-- The numbers of the edges do not show at their targets. -/
theorem map_target_edgesOf (first : Nat) (pairs : List (Nat × Nat)) (p : Nat) :
    ((edgesOf first pairs).filter (fun e => e.source = p)).map Edge.target =
      (pairs.filter fun pair => pair.1 = p).map Prod.snd := by
  induction pairs generalizing first with
  | nil => rfl
  | cons pair rest ih =>
    rw [edgesOf_cons]
    by_cases hp : pair.1 = p <;> simp [hp, ih]

theorem map_source_edgesOf (first : Nat) (pairs : List (Nat × Nat)) (p : Nat) :
    ((edgesOf first pairs).filter (fun e => e.target = p)).map Edge.source =
      (pairs.filter fun pair => pair.2 = p).map Prod.fst := by
  induction pairs generalizing first with
  | nil => rfl
  | cons pair rest ih =>
    rw [edgesOf_cons]
    by_cases hp : pair.2 = p <;> simp [hp, ih]

/-- Edges between existing points are appended at both ends in the order in which they are made. -/
theorem edges_linkAll {pairs : List (Nat × Nat)}
    (h : ∀ pair ∈ pairs, pair.1 < net.points.size ∧ pair.2 < net.points.size) (p : Nat) :
    (net.linkAll pairs).outgoing p =
        net.outgoing p ++ (edgesOf net.links pairs).filter (fun e => e.source = p) ∧
      (net.linkAll pairs).incoming p =
        net.incoming p ++ (edgesOf net.links pairs).filter (fun e => e.target = p) := by
  induction pairs generalizing net with
  | nil => simp [linkAll, edgesOf]
  | cons pair rest ih =>
    have hpair := h pair List.mem_cons_self
    -- Making the first edge creates no points, so the other pairs still name existing ones.
    have hrest : ∀ pair' ∈ rest, pair'.1 < (net.link pair.1 pair.2).points.size ∧
        pair'.2 < (net.link pair.1 pair.2).points.size := by
      intro pair' hmem
      rw [size_link]
      exact h pair' (List.mem_cons_of_mem pair hmem)
    obtain ⟨hout, hin⟩ := ih hrest
    rw [linkAll_cons, hout, hin, links_link hpair, outgoing_link hpair, incoming_link hpair,
      edgesOf_cons]
    -- The first edge is one of those held by `p`, or it is passed over on both sides.
    constructor
    · by_cases hp : p = pair.1
      · simp [hp]
      · simp [hp, Ne.symm hp]
    · by_cases hp : p = pair.2
      · simp [hp]
      · simp [hp, Ne.symm hp]

/-- **The order in which edges are added does not matter.** -/
theorem sameEdges_of_perm {pairs pairs' : List (Nat × Nat)} (h : pairs.Perm pairs') :
    SameEdges (net.linkAll pairs) (net.linkAll pairs') where
  site p := by rw [site_linkAll, site_linkAll]
  mem_successors p q := by rw [mem_successors_linkAll, mem_successors_linkAll, h.mem_iff]

end Network

end ScriptFlow
