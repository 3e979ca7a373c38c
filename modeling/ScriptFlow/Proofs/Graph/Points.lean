import ScriptFlow.Proofs.Basic
import ScriptFlow.Proofs.Graph.Rearrangement

/-!
# Points of a graph

What a construction step does to the points of a graph and to what their commands see: a new point
is appended with the next id and its own text, an edge changes neither. The text of a point is read
off its context, so the points that were there before keep theirs because a new point on a context
of its own leaves all other contexts alone.

Main statements: `site_newPoint`, `site_newPoint_self` and `pointsOf_newPoint_self`.
-/

namespace ScriptFlow

namespace Network

variable {net : Network}

/-! ## Contexts -/

/-- A point that is attached stands for the given context, and no other point changes its own. -/
theorem context_attach (net : Network) (g c p : Nat) :
    (net.attach g c).1.points[p]?.map FlowPoint.context =
      if p = net.points.size then some c else net.points[p]?.map FlowPoint.context := by
  simp only [attach, Array.getElem?_push]
  by_cases hp : p = net.points.size <;> simp [hp]

/-- Edges do not change which contexts points stand for. -/
theorem context_link (net : Network) (source target p : Nat) :
    (net.link source target).points[p]?.map FlowPoint.context =
      net.points[p]?.map FlowPoint.context := by
  unfold link
  split
  · simp only [Array.getElem?_modify]
    cases net.points[p]? with
    | none => simp
    | some point => by_cases hs : source = p <;> by_cases ht : target = p <;> simp [hs, ht]
  · rfl

theorem contexts_attach_size (net : Network) (g c : Nat) :
    (net.attach g c).1.contexts.size = net.contexts.size := by
  simp [attach]

theorem contexts_link (net : Network) (source target : Nat) :
    (net.link source target).contexts = net.contexts := by
  unfold link
  split <;> rfl

/-- Every point stands for a context of the network. -/
def ContextsExist (net : Network) : Prop :=
  ∀ p c : Nat, net.points[p]?.map FlowPoint.context = some c → c < net.contexts.size

/-- A context more leaves room for all contexts in use. -/
theorem ContextsExist.newContext (h : net.ContextsExist) (text : String) :
    (net.newContext text).1.ContextsExist := by
  intro p c hc
  have hlt := h p c hc
  -- The bound is one larger than before.
  simp only [Network.newContext, Array.size_push]
  omega

/-- A point may be attached to any context that exists. -/
theorem ContextsExist.attach (h : net.ContextsExist) (g : Nat) {i : Nat}
    (hi : i < net.contexts.size) : (net.attach g i).1.ContextsExist := by
  intro p c hc
  -- Only the new point stands for another context than before.
  rw [context_attach] at hc
  rw [contexts_attach_size]
  split at hc
  · cases hc
    exact hi
  · exact h p c hc

theorem ContextsExist.newPoint (h : net.ContextsExist) (g : Nat) (text : String) :
    (net.newPoint g text).1.ContextsExist := by
  -- The point is attached to the context made just before.
  apply (h.newContext _).attach
  simp [Network.newContext]

/-- In a network in use every point stands for a context of it. -/
theorem Built.contextsExist (h : net.Built) : net.ContextsExist := by
  -- By induction on how the network was made; an edge leaves points and contexts alone.
  induction h with
  | empty => simp [ContextsExist, Network.empty]
  | newGraph _ ih => exact ih
  | newContext text _ ih => exact ih.newContext text
  | newPoint g text _ _ ih => exact ih.newPoint g text
  | newPointOn g c _ _ hc hok ih =>
    -- A point given no context gets one of its own.
    rcases eq_of_newPointOn hok with rfl | ⟨i, hi, rfl⟩
    · exact ih.newPoint g ""
    · exact ih.attach g (hc i hi)
  | link source target _ ih =>
    intro p c hcontext
    rw [context_link] at hcontext
    rw [contexts_link]
    exact ih p c hcontext

/-! ## A new point -/

/-- The text of a point is that of its context. -/
theorem text_eq (net : Network) (p : Nat) :
    net.text p =
      ((net.points[p]?.map FlowPoint.context).bind fun c =>
        net.contexts[c]?.map Context.text).getD "" := by
  unfold text
  cases net.points[p]? <;> rfl

/-- The text of a context stays when the context is taken, and a new context comes after the
others. -/
theorem contextText_newPoint (net : Network) (g : Nat) (text : String) (c : Nat) :
    (net.newPoint g text).1.contexts[c]?.map Context.text =
      if c = net.contexts.size then some (if text = "" then defaultText else text)
      else net.contexts[c]?.map Context.text := by
  simp only [newPoint, newContext, attach, Array.getElem?_modify, Array.getElem?_push]
  -- The new context is the one behind all others.
  by_cases hc : c = net.contexts.size
  · subst hc
    simp
  · simp [hc, Ne.symm hc]

theorem context_newPoint (net : Network) (g : Nat) (text : String) (p : Nat) :
    (net.newPoint g text).1.points[p]?.map FlowPoint.context =
      if p = net.points.size then some net.contexts.size
      else net.points[p]?.map FlowPoint.context :=
  context_attach _ g net.contexts.size p

/-- A new point has the next free id of its graph, and the other points keep theirs. -/
theorem idOf_newPoint (net : Network) (g : Nat) (text : String) (p : Nat) :
    (net.newPoint g text).1.idOf p =
      if p = net.points.size then (net.pointsOf g).length else net.idOf p := by
  simp only [newPoint, newContext, attach, idOf, pointsOf, Array.getElem?_push]
  by_cases hp : p = net.points.size
  · cases net.graphs[g]? <;> simp [hp]
  · simp [hp]

theorem size_newPoint (net : Network) (g : Nat) (text : String) :
    (net.newPoint g text).1.points.size = net.points.size + 1 := by
  simp [newPoint, newContext, attach]

theorem graphs_size_newPoint (net : Network) (g : Nat) (text : String) :
    (net.newPoint g text).1.graphs.size = net.graphs.size := by
  simp [newPoint, newContext, attach]

/-- No edge has been made. -/
structure Edgeless (net : Network) : Prop where
  links : net.links = 0
  outgoing : ∀ p, net.outgoing p = []
  incoming : ∀ p, net.incoming p = []

theorem Edgeless.newPoint (h : net.Edgeless) (g : Nat) (text : String) :
    (net.newPoint g text).1.Edgeless where
  links := h.links
  outgoing p := (outgoing_attach _ g _ p).trans (h.outgoing p)
  incoming p := (incoming_attach _ g _ p).trans (h.incoming p)

/-- The points that were there before look as they did. -/
theorem Built.site_newPoint (h : net.Built) (g : Nat) (text : String) {p : Nat}
    (hp : p < net.points.size) : (net.newPoint g text).1.site p = net.site p := by
  have hne : p ≠ net.points.size := Nat.ne_of_lt hp
  unfold site
  rw [idOf_newPoint, if_neg hne, text_eq, text_eq, context_newPoint, if_neg hne]
  cases hcontext : net.points[p]?.map FlowPoint.context with
  | none => rfl
  | some c =>
    -- An old point stands for an old context, and the new one comes after all of these.
    have hlt : c < net.contexts.size := h.contextsExist p c hcontext
    simp only [Option.bind_some, contextText_newPoint, if_neg (Nat.ne_of_lt hlt)]

/-- A new point has the next id of its graph and the given text. -/
theorem site_newPoint_self (net : Network) (g : Nat) (text : String) :
    (net.newPoint g text).1.site net.points.size =
      ⟨(net.pointsOf g).length, if text = "" then defaultText else text⟩ := by
  -- The id and the text are read at the new point, through the context made for it.
  unfold site
  rw [idOf_newPoint, if_pos rfl, text_eq, context_newPoint, if_pos rfl, Option.bind_some,
    contextText_newPoint, if_pos rfl]
  rfl

theorem pointsOf_newPoint_self {g : Nat} (hg : g < net.graphs.size) (text : String) :
    (net.newPoint g text).1.pointsOf g = net.pointsOf g ++ [net.points.size] := by
  simp [newPoint, newContext, attach, pointsOf, Array.getElem?_modify,
    Array.getElem?_eq_getElem hg]

/-! ## A new edge -/

theorem graphs_link (net : Network) (source target : Nat) :
    (net.link source target).graphs = net.graphs := by
  unfold link
  split <;> rfl

theorem pointsOf_link (net : Network) (source target g : Nat) :
    (net.link source target).pointsOf g = net.pointsOf g := by
  unfold pointsOf
  rw [graphs_link]

end Network

end ScriptFlow
