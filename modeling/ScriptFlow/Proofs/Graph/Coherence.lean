import ScriptFlow.Proofs.Graph.Points

/-!
# Coherence of networks

Everything in a network is listed more than once: a point stands in the list of its graph and knows
its id, an edge stands at both of its ends, a context knows its owner and the owner its context.
Construction keeps these views in step, whatever is built on whatever, and a construction that
fails leaves no trace.

A creation is looked at in the order in which its parts are done, in a setting where a failure does
not undo what was done before it. The point takes its context before it is listed anywhere, so
there is nothing to undo.

Main statements: `Built.coherent` and `construction_coherent`.
-/

namespace ScriptFlow

namespace Network

variable {net : Network}

/-! ## Views of a point and of a context -/

/-- The graph of a point and its id there. -/
def place? (net : Network) (p : Nat) : Option (Nat × Nat) :=
  net.points[p]?.map fun point => (point.graph, point.id)

/-- The context of a point. -/
def contextOf? (net : Network) (p : Nat) : Option Nat :=
  net.points[p]?.map FlowPoint.context

/-- The owner of a context. -/
def owner? (net : Network) (c : Nat) : Option Nat :=
  net.contexts[c]?.bind Context.owner

/-- Whatever is known of a point, the point exists. -/
theorem lt_size_of_view {α : Type} {view : FlowPoint → α} {p : Nat} {a : α}
    (h : net.points[p]?.map view = some a) : p < net.points.size := by
  obtain ⟨point, hpoint, -⟩ := Option.map_eq_some_iff.mp h
  exact (Array.getElem?_eq_some_iff.mp hpoint).1

theorem idOf_of_place? {p g i : Nat} (h : net.place? p = some (g, i)) : net.idOf p = i := by
  obtain ⟨point, hpoint, hat⟩ := Option.map_eq_some_iff.mp h
  simp only [Prod.mk.injEq] at hat
  simp [idOf, hpoint, hat.2]

/-- A new point gets the next place in its graph, and the others keep theirs. -/
theorem place?_attach (net : Network) (g c p : Nat) :
    (net.attach g c).1.place? p =
      if p = net.points.size then some (g, (net.pointsOf g).length) else net.place? p := by
  simp only [attach, place?, pointsOf, Array.getElem?_push]
  by_cases hp : p = net.points.size
  · cases net.graphs[g]? <;> simp [hp]
  · simp [hp]

/-- A new point is listed at the end of its graph and nowhere else. -/
theorem pointsOf_attach {g : Nat} (hg : g < net.graphs.size) (c g' : Nat) :
    (net.attach g c).1.pointsOf g' =
      if g' = g then net.pointsOf g ++ [net.points.size] else net.pointsOf g' := by
  simp only [attach, pointsOf, Array.getElem?_modify]
  by_cases hg' : g' = g
  · subst hg'
    simp [Array.getElem?_eq_getElem hg]
  · simp [hg', Ne.symm hg']

theorem owner?_attach (net : Network) (g : Nat) {c : Nat} (hc : c < net.contexts.size) (c' : Nat) :
    (net.attach g c).1.owner? c' =
      if c' = c then some net.points.size else net.owner? c' := by
  simp only [attach, owner?, Array.getElem?_modify]
  by_cases hc' : c' = c
  · subst hc'
    simp [Array.getElem?_eq_getElem hc]
  · simp [hc', Ne.symm hc']

/-- A new context has no owner, and the others keep theirs. -/
theorem owner?_newContext (net : Network) (text : String) (c : Nat) :
    (net.newContext text).1.owner? c = net.owner? c := by
  simp only [newContext, owner?, Array.getElem?_push]
  by_cases hc : c = net.contexts.size
  · subst hc
    simp
  · simp [hc]

/-- An edge changes the place of no point. -/
theorem place?_link (net : Network) (source target p : Nat) :
    (net.link source target).place? p = net.place? p := by
  unfold link
  split
  · simp only [place?, Array.getElem?_modify]
    cases net.points[p]? with
    | none => simp
    | some point => by_cases hs : source = p <;> by_cases ht : target = p <;> simp [hs, ht]
  · rfl

/-! ## Every creation puts a point on a free context -/

/-- A context has no owner, perhaps because there is no such context, or it has one. -/
theorem free_or_taken (net : Network) (c : Nat) :
    net.owner? c = none ∨ ∃ text q, net.contexts[c]? = some ⟨text, some q⟩ := by
  unfold owner?
  cases hcontext : net.contexts[c]? with
  | none => exact Or.inl rfl
  | some context =>
    obtain ⟨text, owner⟩ := context
    cases owner with
    | none => exact Or.inl rfl
    | some q => exact Or.inr ⟨text, q, rfl⟩

/-- On a context without an owner the point is attached. -/
theorem newPointOn_of_free (g : Nat) {c : Nat} (h : net.owner? c = none) :
    net.newPointOn g (some c) = .ok (net.attach g c) := by
  unfold owner? at h
  simp only [newPointOn]
  split
  · -- With an owner the creation would have been refused.
    rename_i hcontext
    rw [hcontext] at h
    cases h
  · rfl

theorem newPointOn_of_taken (g : Nat) {c q : Nat} {text : String}
    (h : net.contexts[c]? = some ⟨text, some q⟩) :
    net.newPointOn g (some c) = .error (.contextTaken text) := by
  simp only [newPointOn, h]

/-- What holds of the empty network and is kept by each kind of construction holds of every network.
The ways to create a point come down to one: it is put on an existing context without an owner. -/
theorem Built.induction {I : Network → Prop} (h : net.Built) (empty : I .empty)
    (newGraph : ∀ net : Network, I net → I net.newGraph.1)
    (newContext : ∀ (net : Network) (text : String), I net → I (net.newContext text).1)
    (attach : ∀ (net : Network) (g c : Nat), I net → g < net.graphs.size →
      c < net.contexts.size → net.owner? c = none → I (net.attach g c).1)
    (link : ∀ (net : Network) (source target : Nat), net.Linked → I net →
      I (net.link source target)) : I net := by
  have newPoint : ∀ (net : Network) (g : Nat) (text : String), I net → g < net.graphs.size →
      I (net.newPoint g text).1 := by
    intro net g text hnet hg
    -- A point on a context of its own is put on one that was just made.
    apply attach _ g _ (newContext net _ hnet) hg
    · simp [Network.newContext]
    · -- The context was made for the point.
      rw [owner?_newContext]
      simp [owner?]
  induction h with
  | empty => exact empty
  | newGraph _ ih => exact newGraph _ ih
  | newContext text _ ih => exact newContext _ text ih
  | newPoint g text _ hg ih => exact newPoint _ g text ih hg
  | newPointOn g c _ hg hc hok ih =>
    cases c with
    | none =>
      -- Without a context given the point gets one of its own.
      cases hok
      exact newPoint _ g "" ih hg
    | some i =>
      rcases free_or_taken _ i with hfree | ⟨text, q, htaken⟩
      · rw [newPointOn_of_free g hfree] at hok
        cases hok
        exact attach _ g i ih hg (hc i rfl) hfree
      · rw [newPointOn_of_taken g htaken] at hok
        cases hok
  | link source target hbuilt ih => exact link _ source target hbuilt.linked ih

/-! ## Ids are positions -/

/-- The list of a graph holds a point at a position exactly if the point has that place. -/
def Placed (net : Network) : Prop :=
  ∀ g i p, (net.pointsOf g)[i]? = some p ↔ net.place? p = some (g, i)

/-- A new point keeps ids and positions the same. -/
theorem Placed.attach (h : net.Placed) {g : Nat} (hg : g < net.graphs.size) (c : Nat) :
    (net.attach g c).1.Placed := by
  intro g' i p
  rw [pointsOf_attach hg, place?_attach]
  by_cases hp : p = net.points.size
  · -- The new point was in no list before, so it is found at the end of its own list only.
    have hnew : (net.pointsOf g')[i]? ≠ some p := by
      intro hi
      have hlt := lt_size_of_view ((h g' i p).mp hi)
      omega
    rw [if_pos hp]
    by_cases hg' : g' = g
    · subst hg'
      rw [if_pos rfl, getElem?_snoc]
      by_cases hi : i = (net.pointsOf g').length
      · simp [hi, hp]
      · simp [hi, Ne.symm hi, hnew]
    -- The new point is in no other list.
    · simp [hg', Ne.symm hg', hnew]
  · -- The other points stand where they stood.
    rw [if_neg hp, ← h g' i p]
    by_cases hg' : g' = g
    · subst hg'
      rw [if_pos rfl, getElem?_snoc]
      by_cases hi : i = (net.pointsOf g').length
      · simp [hi, Ne.symm hp]
      · rw [if_neg hi]
    · rw [if_neg hg']

/-- A new graph keeps ids and positions the same. -/
theorem Placed.newGraph (h : net.Placed) : net.newGraph.1.Placed := by
  intro g i p
  have hplace : net.newGraph.1.place? p = net.place? p := rfl
  rw [hplace, ← h g i p]
  -- The new graph is empty, as is one that does not exist.
  simp only [Network.newGraph, pointsOf, Array.getElem?_push]
  by_cases hg : g = net.graphs.size
  · subst hg
    simp
  · simp [hg]

theorem Placed.link (h : net.Placed) (source target : Nat) : (net.link source target).Placed := by
  intro g i p
  rw [pointsOf_link, place?_link]
  exact h g i p

/-- In every network that is built ids are positions. -/
theorem Built.placed (h : net.Built) : net.Placed := by
  apply h.induction
  · simp [Placed, pointsOf, place?, Network.empty]
  · exact fun _ hnet => hnet.newGraph
  · exact fun _ _ hnet => hnet
  · exact fun _ g c hnet hg _ _ => hnet.attach hg c
  · exact fun _ source target _ hnet => hnet.link source target

/-! ## Owners and contexts -/

/-- A point owns a context exactly if it stands for it. -/
def Owned (net : Network) : Prop :=
  ∀ c p, net.owner? c = some p ↔ net.contextOf? p = some c

theorem contextOf?_attach (net : Network) (g c p : Nat) :
    (net.attach g c).1.contextOf? p =
      if p = net.points.size then some c else net.contextOf? p :=
  context_attach net g c p

theorem Owned.newContext (h : net.Owned) (text : String) : (net.newContext text).1.Owned := by
  intro c p
  rw [owner?_newContext]
  exact h c p

/-- A point may be put on a context that nobody owns. -/
theorem Owned.attach (h : net.Owned) (g : Nat) {c : Nat} (hc : c < net.contexts.size)
    (hfree : net.owner? c = none) : (net.attach g c).1.Owned := by
  intro c' p
  rw [owner?_attach net g hc, contextOf?_attach]
  by_cases hp : p = net.points.size
  -- The new point owned nothing before, so it is only the owner of its own context.
  · have hnew : net.owner? c' ≠ some p := by
      intro howner
      have hlt := lt_size_of_view ((h c' p).mp howner)
      omega
    by_cases hc' : c' = c
    · simp [hp, hc']
    · simp [hp ▸ hnew, hp, hc', Ne.symm hc']
  · rw [if_neg hp, ← h c' p]
    by_cases hc' : c' = c
    -- No other point stood for the context, since nobody owned it.
    · simp [hc', hfree, Ne.symm hp]
    · simp [hc']

/-- An edge changes no owner and no context. -/
theorem Owned.link (h : net.Owned) (source target : Nat) : (net.link source target).Owned := by
  intro c p
  have howner : (net.link source target).owner? c = net.owner? c := by
    unfold owner?
    rw [contexts_link]
  have hcontext : (net.link source target).contextOf? p = net.contextOf? p :=
    context_link net source target p
  rw [howner, hcontext]
  exact h c p

/-- In every network that is built points own the contexts that they stand for, and no others. -/
theorem Built.owned (h : net.Built) : net.Owned := by
  apply h.induction
  · simp [Owned, owner?, contextOf?, Network.empty]
  · exact fun _ hnet => hnet
  · exact fun _ text hnet => hnet.newContext text
  · exact fun _ g _ hnet _ hc hfree => hnet.attach g hc hfree
  · exact fun _ source target _ hnet => hnet.link source target

/-! ## Edges are told apart by their numbers -/

/-- Edges are numbered in the order in which they were made, over the whole network. -/
structure Numbered (net : Network) : Prop where
  lt_links : ∀ p, ∀ e ∈ net.outgoing p, e.serial < net.links
  outgoing : ∀ p, (net.outgoing p).Pairwise fun e e' => e.serial < e'.serial
  incoming : ∀ p, (net.incoming p).Pairwise fun e e' => e.serial < e'.serial
  unique : ∀ p q, ∀ e ∈ net.outgoing p, ∀ e' ∈ net.outgoing q, e.serial = e'.serial → e = e'

/-- An edge that enters a point is among those that leave its source. -/
theorem Linked.mem_outgoing (h : net.Linked) {q : Nat} {e : Edge} (he : e ∈ net.incoming q) :
    e ∈ net.outgoing e.source := by
  have hshared : e ∈ (net.incoming q).filter fun e' => e'.source = e.source :=
    List.mem_filter.mpr ⟨he, by simp⟩
  rw [← h.shared] at hshared
  exact (List.mem_filter.mp hshared).1

/-- The numbering speaks of the edges and of their number only. -/
theorem Numbered.of_same_edges {net' : Network} (h : net.Numbered) (hlinks : net'.links = net.links)
    (hout : ∀ p, net'.outgoing p = net.outgoing p)
    (hin : ∀ p, net'.incoming p = net.incoming p) : net'.Numbered where
  lt_links p e he := by
    rw [hlinks]
    exact h.lt_links p e (hout p ▸ he)
  outgoing p := hout p ▸ h.outgoing p
  incoming p := hin p ▸ h.incoming p
  unique p q e he e' he' := h.unique p q e (hout p ▸ he) e' (hout q ▸ he')

/-- An edge held by a point is an old one or the new one. -/
theorem mem_outgoing_link {source target : Nat}
    (h : source < net.points.size ∧ target < net.points.size) {p : Nat} {e : Edge} :
    e ∈ (net.link source target).outgoing p ↔
      e ∈ net.outgoing p ∨ p = source ∧ e = ⟨net.links, source, target⟩ := by
  rw [outgoing_link h]
  by_cases hp : p = source <;> simp [hp]

/-- An edge with a larger number than all others comes last. -/
theorem ascending_snoc {edges : List Edge} {last : Edge}
    (h : edges.Pairwise fun e e' => e.serial < e'.serial)
    (hlast : ∀ e ∈ edges, e.serial < last.serial) :
    (edges ++ [last]).Pairwise fun e e' => e.serial < e'.serial := by
  apply List.pairwise_append.mpr
  refine ⟨h, List.pairwise_singleton .., ?_⟩
  intro e he e' he'
  rw [List.mem_singleton.mp he']
  exact hlast e he

/-- A new edge gets a number that no edge has. -/
theorem Numbered.link (h : net.Numbered) (hlinked : net.Linked) (source target : Nat) :
    (net.link source target).Numbered := by
  by_cases hlt : source < net.points.size ∧ target < net.points.size
  -- The number of edges is not yet the number of one.
  · have hold : ∀ p, ∀ e ∈ net.outgoing p, e.serial ≠ net.links := by
      intro p e he
      exact Nat.ne_of_lt (h.lt_links p e he)
    refine ⟨?_, ?_, ?_, ?_⟩
    · intro p e he
      rw [links_link hlt]
      rcases (mem_outgoing_link hlt).mp he with he | ⟨-, rfl⟩
      · have hserial := h.lt_links p e he
        omega
      · exact Nat.lt_succ_self net.links
    · intro p
      rw [outgoing_link hlt]
      split
      · apply ascending_snoc (h.outgoing p)
        intro e he
        exact h.lt_links p e he
      · exact h.outgoing p
    · intro p
      rw [incoming_link hlt]
      split
      · apply ascending_snoc (h.incoming p)
        intro e he
        -- An edge that enters a point leaves one, where its number is known.
        exact h.lt_links e.source e (hlinked.mem_outgoing he)
      · exact h.incoming p
    · intro p q e he e' he' hserial
      -- Of two edges with the same number both are old or both are the new one.
      rcases (mem_outgoing_link hlt).mp he with he | ⟨-, rfl⟩
      · rcases (mem_outgoing_link hlt).mp he' with he' | ⟨-, rfl⟩
        · exact h.unique p q e he e' he' hserial
        · exact absurd hserial (hold p e he)
      · rcases (mem_outgoing_link hlt).mp he' with he' | ⟨-, rfl⟩
        · exact absurd hserial.symm (hold q e' he')
        · rfl
  · rw [link_of_not_lt hlt]
    exact h

/-- In every network that is built edges are told apart by their numbers. -/
theorem Built.numbered (h : net.Built) : net.Numbered := by
  apply h.induction
  · refine ⟨?_, ?_, ?_, ?_⟩ <;> simp [outgoing, incoming, Network.empty]
  -- New graphs, contexts and points change no edge.
  · exact fun _ hnet => hnet.of_same_edges rfl (outgoing_congr rfl) (incoming_congr rfl)
  · exact fun _ _ hnet => hnet.of_same_edges rfl (outgoing_congr rfl) (incoming_congr rfl)
  · exact fun net g c hnet _ _ _ =>
      hnet.of_same_edges rfl (outgoing_attach net g c) (incoming_attach net g c)
  · exact fun _ source target hlinked hnet => hnet.link hlinked source target

/-! ## Coherence -/

/-- All views of a network tell the same. -/
structure Coherent (net : Network) : Prop where
  /-- The `i`-th point of a graph has the id `i`. -/
  id_eq : ∀ g i p, (net.pointsOf g)[i]? = some p → net.idOf p = i
  /-- Looking for an id finds the point of the graph that has it. -/
  find_iff : ∀ g (id : Int) p,
    net.find? g id = some p ↔ p ∈ net.pointsOf g ∧ (net.idOf p : Int) = id
  /-- Every point is listed in one graph. -/
  listed : ∀ p < net.points.size, ∃! g, p ∈ net.pointsOf g
  /-- Both ends of an edge hold it, and hold its doubles in the same order. -/
  linked : net.Linked
  /-- An edge is told apart from all others. -/
  numbered : net.Numbered
  /-- The context of a point is owned by that point. -/
  owner_eq : ∀ p c, net.contextOf? p = some c → net.owner? c = some p
  /-- No context belongs to two points. -/
  exclusive : ∀ p q c, net.contextOf? p = some c → net.contextOf? q = some c → p = q

/-- A graph lists the points whose place is in it. -/
theorem Placed.mem_pointsOf_iff (h : net.Placed) {g p : Nat} :
    p ∈ net.pointsOf g ↔ net.place? p = some (g, net.idOf p) := by
  rw [List.mem_iff_getElem?]
  constructor
  · rintro ⟨i, hi⟩
    have hplace := (h g i p).mp hi
    rw [hplace, idOf_of_place? hplace]
  · intro hplace
    exact ⟨net.idOf p, (h g _ p).mpr hplace⟩

/-- A point is found by its id in the graph that lists it. -/
theorem Placed.find?_eq_some_iff (h : net.Placed) {g : Nat} {id : Int} {p : Nat} :
    net.find? g id = some p ↔ p ∈ net.pointsOf g ∧ (net.idOf p : Int) = id := by
  unfold find?
  rw [h.mem_pointsOf_iff]
  split
  · -- No point has a negative id.
    rename_i hneg
    constructor
    · intro hfound
      cases hfound
    · rintro ⟨-, hid⟩
      omega
  · rename_i hnonneg
    rw [h g id.toNat p]
    constructor
    · intro hplace
      have hid := idOf_of_place? hplace
      refine ⟨hid ▸ hplace, ?_⟩
      omega
    · rintro ⟨hplace, hid⟩
      -- An id that is found is not negative, so it is the same as a natural number.
      have hnat : id.toNat = net.idOf p := by omega
      rw [hnat]
      exact hplace

/-- **Every network that is built is coherent.** -/
theorem Built.coherent (h : net.Built) : net.Coherent where
  id_eq g i p hi := idOf_of_place? ((h.placed g i p).mp hi)
  find_iff g id p := h.placed.find?_eq_some_iff
  listed p hp := by
    have hplace : net.place? p = some (net.points[p].graph, net.points[p].id) := by
      simp [place?, hp]
    refine ⟨net.points[p].graph, ?_, ?_⟩
    · exact List.mem_of_getElem? ((h.placed _ _ p).mpr hplace)
    · intro g hg
      -- A point has one place only.
      have hplace' := h.placed.mem_pointsOf_iff.mp hg
      rw [hplace] at hplace'
      exact (congrArg Prod.fst (Option.some.inj hplace')).symm
  linked := h.linked
  numbered := h.numbered
  owner_eq p c hc := (h.owned c p).mpr hc
  exclusive p q c hp hq := by
    have hsame : some p = some q := ((h.owned c p).mpr hp).symm.trans ((h.owned c q).mpr hq)
    exact Option.some.inj hsame

/-! ## Creation step by step -/

/-- A piece of construction that may stop on the way. What it changed until then stays changed. -/
abbrev Stage := EStateM NetworkError Network

/-- Makes point `p` the owner of a context, unless another point owns it. -/
def takeContext (c p : Nat) : Stage Unit := do
  match (← get).contexts[c]? with
  | some ⟨text, some q⟩ => if q ≠ p then throw (.contextTaken text)
  | _ => pure ()
  modify fun net =>
    { net with contexts := net.contexts.modify c fun ctx => { ctx with owner := some p } }

/-- Appends a point to the list of its graph. -/
def listPoint (point : FlowPoint) : Stage Unit :=
  modify fun net =>
    { net with
      graphs := net.graphs.modify point.graph (·.push net.points.size)
      points := net.points.push point }

/-- Creates a point: it gets the next id of its graph, takes its context and is listed. -/
def create (g c : Nat) : Stage Unit := do
  let net ← get
  let point : FlowPoint := { graph := g, id := (net.pointsOf g).length, context := c }
  takeContext c net.points.size
  listPoint point

/-- A context without an owner is taken. -/
theorem takeContext_of_free {c : Nat} (h : net.owner? c = none) (p : Nat) :
    (takeContext c p).run net = .ok ()
      { net with contexts := net.contexts.modify c fun ctx => { ctx with owner := some p } } := by
  unfold owner? at h
  simp only [takeContext, EStateM.run_bind, EStateM.run_get]
  cases hcontext : net.contexts[c]? with
  | none => rfl
  | some context =>
    obtain ⟨text, owner⟩ := context
    cases owner with
    | none => rfl
    | some q =>
      rw [hcontext] at h
      cases h

theorem takeContext_of_taken {c p q : Nat} {text : String}
    (h : net.contexts[c]? = some ⟨text, some q⟩) (hne : q ≠ p) :
    (takeContext c p).run net = .error (.contextTaken text) net := by
  simp only [takeContext, EStateM.run_bind, EStateM.run_get, h, if_pos hne]
  rfl

/-- On a context without an owner the stages together attach the point. -/
theorem create_of_free (g : Nat) {c : Nat} (h : net.owner? c = none) :
    (create g c).run net = .ok () (net.attach g c).1 := by
  have hid : (net.pointsOf g).length = (net.graphs[g]?.map Array.size).getD 0 := by
    unfold pointsOf
    cases net.graphs[g]? <;> simp
  simp only [create, EStateM.run_bind, EStateM.run_get, takeContext_of_free h, hid]
  rfl

/-- On a context with an owner the creation stops before anything is changed. -/
theorem create_of_taken (g : Nat) {c q : Nat} {text : String}
    (h : net.contexts[c]? = some ⟨text, some q⟩) (hne : q ≠ net.points.size) :
    (create g c).run net = .error (.contextTaken text) net := by
  simp only [create, EStateM.run_bind, EStateM.run_get, takeContext_of_taken h hne]

/-! ## Sequences of operations -/

/-- One use of what a network offers for construction. -/
inductive Operation
  | newGraph
  | newContext (text : String)
  | newPoint (g : Nat) (text : String)
  | newPointOn (g : Nat) (c : Option Nat)
  | link (source target : Nat)
deriving DecidableEq, Repr

namespace Operation

/-- Whether the graph, the context and the points an operation is about exist. -/
def Applies (net : Network) : Operation → Prop
  | newGraph | newContext _ => True
  | newPoint g _ => g < net.graphs.size
  | newPointOn g c => g < net.graphs.size ∧ ∀ i ∈ c, i < net.contexts.size
  | link source target => source < net.points.size ∧ target < net.points.size

instance (net : Network) : DecidablePred (Applies net)
  | newGraph | newContext _ => inferInstanceAs (Decidable True)
  | newPoint g _ => inferInstanceAs (Decidable (g < net.graphs.size))
  | newPointOn g c =>
    inferInstanceAs (Decidable (g < net.graphs.size ∧ ∀ i ∈ c, i < net.contexts.size))
  | link source target =>
    inferInstanceAs (Decidable (source < net.points.size ∧ target < net.points.size))

/-- The stages of an operation. -/
def perform : Operation → Stage Unit
  | newGraph => modify fun net => net.newGraph.1
  | newContext text => modify fun net => (net.newContext text).1
  | newPoint g text => do
    let c ← modifyGet fun net => (net.newContext (if text = "" then defaultText else text)).swap
    create g c
  | newPointOn g none => do
    let c ← modifyGet fun net => (net.newContext defaultText).swap
    create g c
  | newPointOn g (some c) => create g c
  | link source target => modify fun net => net.link source target

/-- The network an operation leaves, whether it succeeds or fails. -/
def leave (op : Operation) (net : Network) : Network :=
  match op.perform.run net with
  | .ok _ net' => net'
  | .error _ net' => net'

/-- Why an operation fails, if it does. -/
def error? (op : Operation) (net : Network) : Option NetworkError :=
  match op.perform.run net with
  | .ok _ _ => none
  | .error e _ => some e

end Operation

/-- The stages of a creation on a context of its own make a new point. -/
theorem create_newContext (net : Network) (g : Nat) (text : String) :
    (create g net.contexts.size).run (net.newContext text).1 =
      .ok () ((net.newContext text).1.attach g net.contexts.size).1 := by
  apply create_of_free
  rw [owner?_newContext]
  simp [owner?]

/-- The stages of a creation on a context of its own come to `newPoint`. -/
theorem perform_newPoint (net : Network) (g : Nat) (text : String) :
    (Operation.newPoint g text).perform.run net = .ok () (net.newPoint g text).1 :=
  create_newContext net g _

/-- The owner of a context is not the point that is created next. -/
-- The owner is one of the points there are.
theorem Owned.ne_size (h : net.Owned) {c q : Nat} {text : String}
    (htaken : net.contexts[c]? = some ⟨text, some q⟩) : q ≠ net.points.size := by
  have howner : net.owner? c = some q := by simp [owner?, htaken]
  exact Nat.ne_of_lt (lt_size_of_view ((h c q).mp howner))

/-- What `newPointOn` says, with the network that is left: after a failure the old one. -/
def afterNewPointOn (net : Network) (g : Nat) (c : Option Nat) :
    EStateM.Result NetworkError Network Unit :=
  match net.newPointOn g c with
  | .ok (net', _) => .ok () net'
  | .error e => .error e net

/-- The stages of a creation come to what `newPointOn` says. -/
theorem Owned.perform_newPointOn (h : net.Owned) (g : Nat) (c : Option Nat) :
    (Operation.newPointOn g c).perform.run net = net.afterNewPointOn g c := by
  cases c with
  | none => exact create_newContext net g _
  | some c =>
    show (create g c).run net = _
    unfold afterNewPointOn
    rcases free_or_taken net c with hfree | ⟨text, q, htaken⟩
    · rw [create_of_free g hfree, newPointOn_of_free g hfree]
    · rw [create_of_taken g htaken (h.ne_size htaken), newPointOn_of_taken g htaken]

/-- What an operation comes to: a creation on a context with an owner fails and changes nothing, and
everything else succeeds and leads to a network that can be built. -/
theorem Built.perform_cases (h : net.Built) {op : Operation} (hop : op.Applies net) :
    (∃ net', op.perform.run net = .ok () net' ∧ net'.Built ∧
        ∀ g c, op = .newPointOn g (some c) → net.owner? c = none) ∨
      ∃ g c text q, op = .newPointOn g (some c) ∧ net.contexts[c]? = some ⟨text, some q⟩ ∧
        op.perform.run net = .error (.contextTaken text) net := by
  cases op with
  | newGraph => exact Or.inl ⟨_, rfl, .newGraph h, nofun⟩
  | newContext text => exact Or.inl ⟨_, rfl, .newContext text h, nofun⟩
  | newPoint g text => exact Or.inl ⟨_, perform_newPoint net g text, .newPoint g text h hop, nofun⟩
  | link source target => exact Or.inl ⟨_, rfl, .link source target h, nofun⟩
  | newPointOn g c =>
    cases c with
    | none => exact Or.inl ⟨_, h.owned.perform_newPointOn g none, .newPoint g "" h hop.1, nofun⟩
    | some c =>
      rcases free_or_taken net c with hfree | ⟨text, q, htaken⟩
      · left
        refine ⟨_, create_of_free g hfree, ?_, ?_⟩
        · exact .newPointOn g (some c) h hop.1 hop.2 (newPointOn_of_free g hfree)
        · intro g' c' heq
          cases heq
          exact hfree
      · right
        exact ⟨g, c, text, q, rfl, htaken, create_of_taken g htaken (h.owned.ne_size htaken)⟩

/-- An operation that applies leaves a network that can be built, also if it fails. -/
theorem Built.leave (h : net.Built) {op : Operation} (hop : op.Applies net) :
    (op.leave net).Built := by
  unfold Operation.leave
  rcases h.perform_cases hop with ⟨net', hrun, hbuilt, -⟩ | ⟨g, c, text, q, -, -, hrun⟩
  · rw [hrun]
    exact hbuilt
  · rw [hrun]
    exact h

/-- Each operation of a list applies to what the ones before it left. -/
def AllApply : Network → List Operation → Prop
  | _, [] => True
  | net, op :: rest => op.Applies net ∧ AllApply (op.leave net) rest

instance : (net : Network) → (ops : List Operation) → Decidable (AllApply net ops)
  | _, [] => inferInstanceAs (Decidable True)
  | net, op :: rest =>
    have : Decidable (AllApply (op.leave net) rest) := instDecidableAllApply (op.leave net) rest
    inferInstanceAs (Decidable (op.Applies net ∧ AllApply (op.leave net) rest))

/-- The network that a list of operations leaves. -/
def leaveAll (net : Network) (ops : List Operation) : Network :=
  ops.foldl (fun net op => op.leave net) net

theorem Built.leaveAll (h : net.Built) {ops : List Operation} (hops : AllApply net ops) :
    (net.leaveAll ops).Built := by
  induction ops generalizing net with
  | nil => exact h
  | cons op rest ih => exact ih (h.leave hops.1) hops.2

/-- **Construction keeps a network coherent.** After every sequence of operations all views agree,
and creations done stage by stage come to what `newPoint` and `newPointOn` say. An operation fails
exactly if it is to create a point on a context with an owner, and it leaves the network as it
was. -/
theorem construction_coherent (ops : List Operation) (h : AllApply .empty ops) :
    let net := leaveAll .empty ops
    net.Coherent ∧
      (∀ g text, (Operation.newPoint g text).perform.run net = .ok () (net.newPoint g text).1) ∧
      (∀ g c, (Operation.newPointOn g c).perform.run net = net.afterNewPointOn g c) ∧
      ∀ op : Operation, op.Applies net → ∀ e,
        (op.error? net = some e ↔ ∃ g c text q, op = .newPointOn g (some c) ∧
          net.contexts[c]? = some ⟨text, some q⟩ ∧ e = .contextTaken text) ∧
        (op.error? net = some e → op.leave net = net) := by
  intro net
  -- What operations leave can be built, and whatever is built is coherent.
  have hbuilt : net.Built := Built.empty.leaveAll h
  refine ⟨hbuilt.coherent, perform_newPoint net, hbuilt.owned.perform_newPointOn, ?_⟩
  intro op hop e
  unfold Operation.error? Operation.leave
  rcases hbuilt.perform_cases hop with ⟨net', hrun, -, hfree⟩ | ⟨g, c, text, q, rfl, htaken, hrun⟩
  · -- The operation succeeds, so its context is free if it is given one.
    rw [hrun]
    refine ⟨⟨nofun, ?_⟩, nofun⟩
    rintro ⟨g, c, text, q, rfl, htaken, -⟩
    have hnone := hfree g c rfl
    simp [owner?, htaken] at hnone
  · -- The operation fails, so it creates a point on a context that has an owner.
    rw [hrun]
    refine ⟨⟨?_, ?_⟩, fun _ => rfl⟩
    · intro he
      exact ⟨g, c, text, q, rfl, htaken, (Option.some.inj he).symm⟩
    · rintro ⟨g', c', text', q', heq, htaken', rfl⟩
      cases heq
      rw [htaken] at htaken'
      cases htaken'
      rfl

/-- Two graphs whose points lead to each other and to themselves, with a context that is asked for
twice. -/
def crossing : List Operation :=
  [.newGraph, .newGraph, .newContext "ls", .newPointOn 0 (some 0), .newPointOn 1 (some 0),
    .newPointOn 1 none, .newPoint 0 "", .link 0 1, .link 0 1, .link 2 2, .link 1 0]

/-- The second creation on the context fails, and every later one on it would. -/
theorem construction_coherent_crossing :
    AllApply .empty crossing ∧ (leaveAll .empty crossing).Coherent ∧
      (Operation.newPointOn 0 (some 0)).error? (leaveAll .empty crossing) =
        some (.contextTaken "ls") ∧
      (Operation.newPointOn 0 (some 0)).leave (leaveAll .empty crossing) =
        leaveAll .empty crossing := by
  have happly : AllApply .empty crossing := by decide +kernel
  obtain ⟨hcoherent, -, -, hfail⟩ := construction_coherent crossing happly
  have herror : (Operation.newPointOn 0 (some 0)).error? (leaveAll .empty crossing) =
      some (.contextTaken "ls") := by decide +kernel
  refine ⟨happly, hcoherent, herror, ?_⟩
  exact (hfail _ (by decide +kernel) _).2 herror

end Network

end ScriptFlow
