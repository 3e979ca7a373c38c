import ScriptFlow.Graph.Listing
import ScriptFlow.Proofs.Graph.Construction
import ScriptFlow.Proofs.Graph.DepthFirst

/-!
# What a DOT listing shows

A listing has a statement for every edge out of a point that can be reached from its root, in the
order of the traversal. A point is shown by the edges that touch it, and a point that no edge
touches by a statement of its own. Every point but the root is the target of an edge in the
listing, because the traversal came to it over one. The root may have edges into it that the
listing does not hold: if it has none out of it, nothing shows it.

Main statement: `dot_listing_shows_all_unless_final`.
-/

namespace ScriptFlow

namespace Network

/-! ## Statements -/

/-- A statement names a point, as itself or as an end of an edge. -/
def DotStatement.Mentions : DotStatement → Nat → Prop
  | node p, q => q = p
  | edge p p', q => q = p ∨ q = p'

/-- Whether a statement is about an edge. -/
def DotStatement.isEdge : DotStatement → Bool
  | node _ => false
  | edge _ _ => true

/-- The statements of the listing from `root`. -/
def dotBody (net : Network) (root : Nat) : List DotStatement :=
  (net.reachable root).flatMap net.dotStatements

/-- One statement for every edge out of a point. -/
def edgeStatements (net : Network) (p : Nat) : List DotStatement :=
  (net.outgoing p).map fun e => .edge p e.target

variable {net : Network} {root p q : Nat}

theorem mem_edgeStatements {s : DotStatement} :
    s ∈ net.edgeStatements p ↔ ∃ q ∈ net.successors p, s = .edge p q := by
  simp only [edgeStatements, successors, List.mem_map]
  constructor
  · rintro ⟨e, he, rfl⟩
    exact ⟨e.target, ⟨e, he, rfl⟩, rfl⟩
  · rintro ⟨_, ⟨e, he, rfl⟩, rfl⟩
    exact ⟨e, he, rfl⟩

/-- A point that no edge touches is stated by itself, any other one by its edges. -/
theorem dotStatements_eq (net : Network) (p : Nat) :
    net.dotStatements p =
      if net.outgoing p = [] ∧ net.incoming p = [] then [.node p] else net.edgeStatements p := by
  simp [dotStatements, edgeStatements]

theorem successors_eq_nil_iff : net.successors p = [] ↔ net.outgoing p = [] := by
  simp [successors]

/-! ## The whole listing -/

/-- A point that was reached over an edge holds that edge. -/
theorem Built.incoming_ne_nil (hnet : net.Built) (hq : q ∈ net.successors p) :
    net.incoming q ≠ [] := by
  intro hnone
  have hpred := hnet.mem_predecessors_iff.mpr hq
  simp [predecessors, hnone] at hpred

/-- Nothing else can be reached from a point without edges out of it. -/
theorem reachable_of_final (h : net.outgoing root = []) : net.reachable root = [root] := by
  -- The recursive search comes back from the root at once, and the traversal agrees with it.
  have hsearch : net.DepthFirst ∅ [root] (root :: ([] ++ [])) := by
    apply DepthFirst.visit (Finset.notMem_empty root)
    · rw [successors_eq_nil_iff.mpr h]
      exact .done
    · exact .done
  exact (net.depthFirst_reachable root).unique hsearch

/-- **A listing is the list of the edges**, unless its root stands alone. -/
theorem Built.dotBody_eq (hnet : net.Built) (root : Nat) :
    net.dotBody root =
      if net.outgoing root = [] ∧ net.incoming root = [] then [.node root]
      else (net.reachable root).flatMap net.edgeStatements := by
  by_cases halone : net.outgoing root = [] ∧ net.incoming root = []
  · rw [if_pos halone, dotBody, reachable_of_final halone.1, List.flatMap_singleton,
      dotStatements_eq, if_pos halone]
  · rw [if_neg halone, dotBody]
    apply List.flatMap_congr
    intro p hp
    rw [dotStatements_eq, if_neg]
    -- The traversal came to every other point over an edge, so no point of the list stands alone.
    rcases Relation.ReflTransGen.cases_tail (mem_reachable.mp hp) with rfl | ⟨r, -, hedge⟩
    · exact halone
    · exact fun h => hnet.incoming_ne_nil hedge h.2

/-- Without the root that stands alone a listing consists of edges. -/
theorem Built.filter_isEdge_dotBody (hnet : net.Built) (root : Nat) :
    (net.dotBody root).filter DotStatement.isEdge =
      (net.reachable root).flatMap net.edgeStatements := by
  rw [hnet.dotBody_eq]
  split
  · -- The one statement is about the root, and the root has no edge either.
    rename_i halone
    rw [reachable_of_final halone.1]
    simp [DotStatement.isEdge, edgeStatements, halone.1]
  · -- All statements are about edges already.
    rw [List.filter_eq_self]
    intro s hs
    obtain ⟨p, -, hp⟩ := List.mem_flatMap.mp hs
    obtain ⟨q, -, rfl⟩ := mem_edgeStatements.mp hp
    rfl

/-- Only a root that stands alone is stated by itself. -/
theorem Built.node_mem_dotBody_iff (hnet : net.Built) :
    .node p ∈ net.dotBody root ↔ p = root ∧ net.outgoing root = [] ∧ net.incoming root = [] := by
  rw [hnet.dotBody_eq]
  split
  · rename_i halone
    simp [halone]
  · rename_i halone
    simp only [halone, and_false, iff_false]
    intro hnode
    obtain ⟨r, -, hr⟩ := List.mem_flatMap.mp hnode
    obtain ⟨q, -, hq⟩ := mem_edgeStatements.mp hr
    cases hq

/-- The edges between points that can be reached are stated, and no others. -/
theorem Built.edge_mem_dotBody_iff (hnet : net.Built) :
    .edge p q ∈ net.dotBody root ↔ net.Reaches root p ∧ q ∈ net.successors p := by
  -- The statements about edges are looked for among those, whatever else is stated.
  have hedge : .edge p q ∈ net.dotBody root ↔
      .edge p q ∈ (net.dotBody root).filter DotStatement.isEdge := by
    simp [List.mem_filter, DotStatement.isEdge]
  rw [hedge, hnet.filter_isEdge_dotBody]
  simp only [List.mem_flatMap, mem_reachable, mem_edgeStatements, DotStatement.edge.injEq]
  constructor
  · rintro ⟨_, hreach, _, hq, rfl, rfl⟩
    exact ⟨hreach, hq⟩
  · rintro ⟨hreach, hq⟩
    exact ⟨p, hreach, q, hq, rfl, rfl⟩

/-- A point that can be reached is shown, unless it is the root, has no edge out of it and has one
into it. -/
theorem Built.mentioned_iff (hnet : net.Built) (hq : net.Reaches root q) :
    (∃ s ∈ net.dotBody root, s.Mentions q) ↔
      ¬ (q = root ∧ net.outgoing root = [] ∧ net.incoming root ≠ []) := by
  constructor
  · -- From such a root only the root is reached, and it has no edge to be stated.
    rintro ⟨s, hs, -⟩ ⟨-, hout, hin⟩
    rw [hnet.dotBody_eq, if_neg fun h => hin h.2, reachable_of_final hout] at hs
    simp [edgeStatements, hout] at hs
  · intro hshown
    -- The root has to be told apart from points that were reached over an edge.
    rcases Relation.ReflTransGen.cases_tail hq with rfl | ⟨p, hp, hedge⟩
    · by_cases hout : net.outgoing q = []
      · have hin : net.incoming q = [] := by
          by_contra hin
          exact hshown ⟨rfl, hout, hin⟩
        exact ⟨.node q, hnet.node_mem_dotBody_iff.mpr ⟨rfl, hout, hin⟩, rfl⟩
      · obtain ⟨q', hq'⟩ := List.exists_mem_of_ne_nil _ (mt successors_eq_nil_iff.mp hout)
        exact ⟨.edge q q', hnet.edge_mem_dotBody_iff.mpr ⟨hq, hq'⟩, Or.inl rfl⟩
    · exact ⟨.edge p q, hnet.edge_mem_dotBody_iff.mpr ⟨hp, hedge⟩, Or.inr rfl⟩

/-- The text of a listing is its statements, line by line, in a frame. -/
theorem text_printDot (net : Network) (root : Nat) :
    (net.printDot root {}).1.text =
      "digraph mgraph \x7b\n\tmode=\"heir\";\n\tsplines=\"ortho\";\n\n" ++
        String.join ((net.dotBody root).map net.dotLine) ++ "\x7d\n" := by
  have htext : (net.printDot root {}).1.text = net.dotText root := by
    simp [printDot, Sink.write, Sink.text, String.join]
  rw [htext]
  rfl

/-- **A DOT listing shows the graph that can be reached, except for a root at which it ends.** The
text is made of the statements, one after another. The edge statements are those of the edges out
of the points that the recursive depth-first search visits, point by point and in the order of the
edges, each as often as it is there. A point is stated by itself only if it is the root and no edge
touches it. All points that are mentioned can be reached. All points that can be reached are
mentioned, unless the root has no edge out of it and some edge into it; then the root is not. -/
theorem dot_listing_shows_all_unless_final (hnet : net.Built) (root : Nat) {order : List Nat}
    (horder : net.DepthFirst ∅ [root] order) :
    (net.printDot root {}).1.text =
        "digraph mgraph \x7b\n\tmode=\"heir\";\n\tsplines=\"ortho\";\n\n" ++
          String.join ((net.dotBody root).map net.dotLine) ++ "\x7d\n" ∧
      (net.dotBody root).filter DotStatement.isEdge =
        order.flatMap (fun p => (net.outgoing p).map fun e => .edge p e.target) ∧
      (∀ p, .node p ∈ net.dotBody root ↔
        p = root ∧ net.outgoing root = [] ∧ net.incoming root = []) ∧
      (∀ s ∈ net.dotBody root, ∀ q, s.Mentions q → net.Reaches root q) ∧
      ∀ q, net.Reaches root q → ((∃ s ∈ net.dotBody root, s.Mentions q) ↔
        ¬ (q = root ∧ net.outgoing root = [] ∧ net.incoming root ≠ [])) := by
  refine ⟨text_printDot net root, ?_, fun p => hnet.node_mem_dotBody_iff, fun s hs q hq => ?_,
    fun q hq => hnet.mentioned_iff hq⟩
  · rw [hnet.filter_isEdge_dotBody, horder.unique (net.depthFirst_reachable root)]
    rfl
  · -- A statement mentions a reached point, or the target of an edge out of one.
    cases s with
    | node p =>
      obtain ⟨rfl, -⟩ := hnet.node_mem_dotBody_iff.mp hs
      obtain rfl : q = p := hq
      exact .refl
    | edge p p' =>
      obtain ⟨hp, hedge⟩ := hnet.edge_mem_dotBody_iff.mp hs
      rcases hq with rfl | rfl
      · exact hp
      · exact hp.tail hedge

/-! ## One command after another -/

/-- A command that leads to another one, which is the last. -/
def relay : Network :=
  ((Network.empty.newGraph.1.newPoint 0 "mkdir a").1.newPoint 0 "rm a").1.link 0 1

theorem relay_built : relay.Built := by
  refine .link 0 1 (.newPoint 0 "rm a" (.newPoint 0 "mkdir a" (.newGraph .empty) ?_) ?_)
  · decide
  · decide

/-- From the first command on both are shown, the last one as a target. -/
theorem dot_listing_shows_all_unless_final_relay :
    relay.Built ∧ relay.DepthFirst ∅ [0] [0, 1] ∧
      (relay.dotBody 0).filter DotStatement.isEdge = [.edge 0 1] ∧
      (∃ s ∈ relay.dotBody 0, s.Mentions 0) ∧ ∃ s ∈ relay.dotBody 0, s.Mentions 1 := by
  have horder : relay.DepthFirst ∅ [0] [0, 1] := by
    have hreachable : relay.reachable 0 = [0, 1] := by decide +kernel
    exact hreachable ▸ relay.depthFirst_reachable 0
  obtain ⟨-, hedges, -, -, hshown⟩ :=
    dot_listing_shows_all_unless_final relay_built 0 horder
  have hlast : relay.Reaches 0 1 := .single (by decide +kernel)
  refine ⟨relay_built, horder, hedges.trans (by decide +kernel), ?_, ?_⟩
  · exact (hshown 0 .refl).mpr fun h => absurd h.2.1 (by decide +kernel)
  · exact (hshown 1 hlast).mpr fun h => absurd h.1 (by decide)

/-- From the last command on nothing is shown, not even the command itself. -/
theorem final_point_missing_from_listing :
    relay.Built ∧ relay.Reaches 1 1 ∧ relay.dotBody 1 = [] ∧
      (¬ ∃ s ∈ relay.dotBody 1, s.Mentions 1) ∧
      (relay.printDot 1 {}).1.text =
        "digraph mgraph \x7b\n\tmode=\"heir\";\n\tsplines=\"ortho\";\n\n\x7d\n" := by
  -- Nothing is stated, which evaluation shows.
  have hnone : relay.dotBody 1 = [] := by decide +kernel
  refine ⟨relay_built, .refl, hnone, ?_, ?_⟩
  · simp [hnone]
  · rw [text_printDot, hnone]
    decide +kernel

end Network

end ScriptFlow
