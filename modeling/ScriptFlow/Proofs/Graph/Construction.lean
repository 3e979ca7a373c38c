import ScriptFlow.Graph.Network

/-!
# Networks made by construction steps

A network in use comes out of a sequence of construction steps. Such a network is *linked*: both
ends of an edge hold the same edge, so the edges from `p` to `q` read off `p` are those read off
`q`, in the same order.

Main statement: `Built.mem_predecessors_iff`, predecessors and successors are converse to each
other.
-/

namespace ScriptFlow

namespace Network

/-! ## Construction steps -/

/-- The networks that construction steps lead to. Points are added to an existing graph, on a
context of their own or on an existing one. -/
inductive Built : Network → Prop
  | empty : Built .empty
  | newGraph {net : Network} : Built net → Built net.newGraph.1
  | newContext {net : Network} (text : String) : Built net → Built (net.newContext text).1
  | newPoint {net : Network} (g : Nat) (text : String) :
      Built net → g < net.graphs.size → Built (net.newPoint g text).1
  | newPointOn {net net' : Network} {p : Nat} (g : Nat) (c : Option Nat) :
      Built net → g < net.graphs.size → (∀ i ∈ c, i < net.contexts.size) →
      net.newPointOn g c = .ok (net', p) → Built net'
  | link {net : Network} (source target : Nat) : Built net → Built (net.link source target)

/-! ## Edges after a construction step -/

theorem outgoing_congr {net net' : Network} (h : net'.points = net.points) (p : Nat) :
    net'.outgoing p = net.outgoing p := by
  unfold outgoing
  rw [h]

theorem incoming_congr {net net' : Network} (h : net'.points = net.points) (p : Nat) :
    net'.incoming p = net.incoming p := by
  unfold incoming
  rw [h]

/-- A new point has no edges, and the edges of the other points stay. -/
theorem outgoing_attach (net : Network) (g c p : Nat) :
    (net.attach g c).1.outgoing p = net.outgoing p := by
  simp only [outgoing, attach, Array.getElem?_push]
  by_cases hp : p = net.points.size
  · subst hp
    simp
  · simp [hp]

theorem incoming_attach (net : Network) (g c p : Nat) :
    (net.attach g c).1.incoming p = net.incoming p := by
  simp only [incoming, attach, Array.getElem?_push]
  by_cases hp : p = net.points.size
  · subst hp
    simp
  · simp [hp]

/-- A point made on an optional context stands for that context or for a new one without a text. -/
theorem eq_of_newPointOn {net net' : Network} {g p : Nat} {c : Option Nat}
    (h : net.newPointOn g c = .ok (net', p)) :
    net' = (net.newPoint g "").1 ∨ ∃ i ∈ c, net' = (net.attach g i).1 := by
  cases c with
  | none =>
    simp only [newPointOn, Except.ok.injEq] at h
    exact Or.inl (by rw [h])
  | some i =>
    simp only [newPointOn] at h
    -- A context that is taken already stops the program instead.
    split at h
    · exact absurd h (by simp)
    · simp only [Except.ok.injEq] at h
      exact Or.inr ⟨i, rfl, by rw [h]⟩

/-- Points of which one does not exist are not linked. -/
theorem link_of_not_lt {net : Network} {source target : Nat}
    (h : ¬ (source < net.points.size ∧ target < net.points.size)) :
    net.link source target = net := by
  simp [link, h]

theorem links_link {net : Network} {source target : Nat}
    (h : source < net.points.size ∧ target < net.points.size) :
    (net.link source target).links = net.links + 1 := by
  simp [link, h]

/-- The edge is appended at its source only. -/
theorem outgoing_link {net : Network} {source target : Nat}
    (h : source < net.points.size ∧ target < net.points.size) (p : Nat) :
    (net.link source target).outgoing p =
      if p = source then net.outgoing p ++ [⟨net.links, source, target⟩] else net.outgoing p := by
  simp only [outgoing, link, h, and_self, if_true, Array.getElem?_modify]
  by_cases hs : p = source
  -- The source holds the edge in the same step, also if it is the target as well.
  · subst hs
    by_cases ht : target = p
    · simp [ht, Array.getElem?_eq_getElem h.1]
    · simp [ht, Array.getElem?_eq_getElem h.1]
  · by_cases ht : target = p
    · simp [ht, hs, Ne.symm hs, Function.comp_def]
    · simp [ht, hs, Ne.symm hs]

/-- The edge is appended at its target only. -/
theorem incoming_link {net : Network} {source target : Nat}
    (h : source < net.points.size ∧ target < net.points.size) (p : Nat) :
    (net.link source target).incoming p =
      if p = target then net.incoming p ++ [⟨net.links, source, target⟩] else net.incoming p := by
  simp only [incoming, link, h, and_self, if_true, Array.getElem?_modify]
  -- The target holds the edge in the same step, also if it is the source as well.
  by_cases ht : p = target
  · subst ht
    by_cases hs : source = p
    · simp [hs, Array.getElem?_eq_getElem h.2]
    · simp [hs, Array.getElem?_eq_getElem h.2]
  · by_cases hs : source = p
    · simp [hs, ht, Ne.symm ht, Function.comp_def]
    · simp [hs, ht, Ne.symm ht]

/-! ## Both ends of an edge agree -/

/-- Every edge is held by its source and by its target, and edges between the same two points
stand in the same order at both ends. -/
structure Linked (net : Network) : Prop where
  source_eq : ∀ p, ∀ e ∈ net.outgoing p, e.source = p
  target_eq : ∀ p, ∀ e ∈ net.incoming p, e.target = p
  shared : ∀ p q, (net.outgoing p).filter (fun e => e.target = q) =
    (net.incoming q).filter (fun e => e.source = p)

theorem Linked.of_same_edges {net net' : Network} (h : net.Linked)
    (hout : ∀ p, net'.outgoing p = net.outgoing p)
    (hin : ∀ p, net'.incoming p = net.incoming p) : net'.Linked where
  source_eq p e he := h.source_eq p e (hout p ▸ he)
  target_eq p e he := h.target_eq p e (hin p ▸ he)
  shared p q := by rw [hout, hin, h.shared]

theorem Linked.attach {net : Network} (h : net.Linked) (g c : Nat) : (net.attach g c).1.Linked :=
  h.of_same_edges (outgoing_attach net g c) (incoming_attach net g c)

theorem Linked.newContext {net : Network} (h : net.Linked) (text : String) :
    (net.newContext text).1.Linked :=
  h.of_same_edges (outgoing_congr rfl) (incoming_congr rfl)

/-- An edge is put at both of its ends at once. -/
theorem Linked.link {net : Network} (h : net.Linked) (source target : Nat) :
    (net.link source target).Linked := by
  by_cases hlt : source < net.points.size ∧ target < net.points.size
  · refine ⟨fun p e he => ?_, fun p e he => ?_, fun p q => ?_⟩
    · -- At each source there is at most one edge more, which starts there.
      rw [outgoing_link hlt] at he
      split at he
      · rcases List.mem_append.mp he with he | he
        · exact h.source_eq p e he
        · simp_all
      · exact h.source_eq p e he
    · -- At each target there is at most one edge more, which ends there.
      rw [incoming_link hlt] at he
      split at he
      · rcases List.mem_append.mp he with he | he
        · exact h.target_eq p e he
        · simp_all
      · exact h.target_eq p e he
    · -- The new edge counts at both ends exactly when it leads from `p` to `q`.
      rw [outgoing_link hlt, incoming_link hlt]
      have hshared := h.shared p q
      by_cases hp : p = source
      · by_cases hq : q = target
        · simp [hp, hq, List.filter_append] at hshared ⊢
          exact hshared
        · simpa [hp, hq, Ne.symm hq, List.filter_append] using hp ▸ hshared
      · by_cases hq : q = target
        · simpa [hp, hq, Ne.symm hp, List.filter_append] using hq ▸ hshared
        · simpa [hp, hq] using hshared
  · rw [link_of_not_lt hlt]
    exact h

/-- Networks in use are linked. -/
theorem Built.linked {net : Network} (h : net.Built) : net.Linked := by
  -- Only the step that makes an edge has to be looked at; all others change no edges.
  induction h with
  | empty => exact ⟨by simp [outgoing, Network.empty], by simp [incoming, Network.empty],
      by simp [outgoing, incoming, Network.empty]⟩
  | newGraph _ ih => exact ih.of_same_edges (outgoing_congr rfl) (incoming_congr rfl)
  | newContext text _ ih => exact ih.newContext text
  | newPoint g text _ _ ih => exact (ih.newContext _).attach g _
  | newPointOn g c _ _ _ hok ih =>
    rcases eq_of_newPointOn hok with rfl | ⟨i, -, rfl⟩
    · exact (ih.newContext _).attach g _
    · exact ih.attach g i
  | link source target _ ih => exact ih.link source target

/-- **Predecessors are converse to successors.** -/
theorem Built.mem_predecessors_iff {net : Network} (h : net.Built) {p q : Nat} :
    p ∈ net.predecessors q ↔ q ∈ net.successors p := by
  -- An edge that is held at one end is among those shared with the other end.
  have hl := h.linked
  unfold predecessors successors
  constructor
  · intro hp
    obtain ⟨e, he, hsource⟩ := List.mem_map.mp hp
    have hmem : e ∈ (net.outgoing p).filter (fun e => e.target = q) := by
      rw [hl.shared, List.mem_filter]
      exact ⟨he, by simpa using hsource⟩
    obtain ⟨hout, htarget⟩ := List.mem_filter.mp hmem
    exact List.mem_map.mpr ⟨e, hout, by simpa using htarget⟩
  · intro hq
    obtain ⟨e, he, htarget⟩ := List.mem_map.mp hq
    have hmem : e ∈ (net.incoming q).filter (fun e => e.source = p) := by
      rw [← hl.shared, List.mem_filter]
      exact ⟨he, by simpa using htarget⟩
    obtain ⟨hin, hsource⟩ := List.mem_filter.mp hmem
    exact List.mem_map.mpr ⟨e, hin, by simpa using hsource⟩

/-! ## A small network -/

/-- Two commands, each leading to the other. -/
def ring : Network :=
  (((Network.empty.newGraph.1.newPoint 0 "mkdir a").1.newPoint 0 "rm a").1.link 0 1).link 1 0

theorem ring_built : ring.Built := by
  refine .link 1 0 (.link 0 1 (.newPoint 0 "rm a" (.newPoint 0 "mkdir a" (.newGraph .empty) ?_) ?_))
  · decide
  · decide

end Network

end ScriptFlow
