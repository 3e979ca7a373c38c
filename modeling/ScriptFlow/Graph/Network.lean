/-!
# Networks of flow points

Control flow graphs under construction. A network holds any number of graphs; each issues the ids
of its own flow points, and an edge may lead from a point of one graph to a point of another.
Points, contexts and graphs are numbered in the order of their creation over the whole network.

A context is the piece of script a flow point stands for. It belongs to at most one flow point:
creating a second point on it fails and changes nothing.
-/

namespace ScriptFlow

/-- A directed connection between two flow points. The serial number tells parallel edges apart. -/
structure Edge where
  serial : Nat
  source : Nat
  target : Nat
deriving DecidableEq, Inhabited, Repr

/-- A piece of script, with the flow point that stands for it once there is one. -/
structure Context where
  text : String
  owner : Option Nat := none
deriving DecidableEq, Inhabited, Repr

/-- A node of a control flow graph. Edges are listed in the order in which they were made. -/
structure FlowPoint where
  /-- The graph that issued the id. -/
  graph : Nat
  /-- The position among the points of that graph. -/
  id : Nat
  /-- The context the point stands for. -/
  context : Nat
  outgoing : Array Edge := #[]
  incoming : Array Edge := #[]
deriving DecidableEq, Inhabited, Repr

/-- Why a flow point cannot be created. -/
inductive NetworkError
  /-- The context already belongs to a flow point. -/
  | contextTaken (text : String)
deriving DecidableEq, Repr

/-- The wording of a network error. -/
def NetworkError.message : NetworkError → String
  | contextTaken text => "cfg: context " ++ text ++ " is already attached to another flow point"

/-- Graphs under construction, with their contexts, flow points and edges. -/
structure Network where
  /-- The points of each graph, by id. -/
  graphs : Array (Array Nat) := #[]
  contexts : Array Context := #[]
  points : Array FlowPoint := #[]
  /-- How many edges were made so far. -/
  links : Nat := 0
deriving Inhabited

namespace Network

/-- The text of a flow point that was created without one. -/
def defaultText : String := "Flow Point"

/-- A network without graphs. -/
def empty : Network := {}

/-! ## Construction -/

/-- Adds a graph without points. -/
def newGraph (net : Network) : Network × Nat :=
  ({ net with graphs := net.graphs.push #[] }, net.graphs.size)

/-- Adds a context that belongs to no flow point yet. -/
def newContext (net : Network) (text : String) : Network × Nat :=
  ({ net with contexts := net.contexts.push ⟨text, none⟩ }, net.contexts.size)

/-- Adds a point to graph `g` on context `c`, and makes it the owner of the context. -/
def attach (net : Network) (g c : Nat) : Network × Nat :=
  let p := net.points.size
  -- Ids count the points of one graph, while `p` counts those of the network.
  let id := (net.graphs[g]?.map Array.size).getD 0
  ({ net with
      graphs := net.graphs.modify g (·.push p)
      contexts := net.contexts.modify c fun ctx => { ctx with owner := some p }
      points := net.points.push { graph := g, id := id, context := c } }, p)

/-- Adds a point with the given text to graph `g`, on a context of its own. An empty text is
replaced by the default. -/
def newPoint (net : Network) (g : Nat) (text : String) : Network × Nat :=
  let (net, c) := net.newContext (if text = "" then defaultText else text)
  net.attach g c

/-- Adds a point to graph `g` on a given context; without one it gets a context with the default
text. -/
def newPointOn (net : Network) (g : Nat) : Option Nat → Except NetworkError (Network × Nat)
  | none => .ok (net.newPoint g "")
  | some c =>
    match net.contexts[c]? with
    | some ⟨text, some _⟩ => .error (.contextTaken text)
    | _ => .ok (net.attach g c)

/-- Adds an edge between two existing points. -/
def link (net : Network) (source target : Nat) : Network :=
  if source < net.points.size ∧ target < net.points.size then
    -- Both ends hold the same edge, told apart from its doubles by its number.
    let e : Edge := ⟨net.links, source, target⟩
    let points := net.points.modify source fun p => { p with outgoing := p.outgoing.push e }
    let points := points.modify target fun p => { p with incoming := p.incoming.push e }
    { net with points := points, links := net.links + 1 }
  else net

/-! ## Views -/

/-- The text of a point, which is that of its context. -/
def text (net : Network) (p : Nat) : String :=
  match net.points[p]? with
  | none => ""
  | some point => (net.contexts[point.context]?.map Context.text).getD ""

/-- The id of a point within its graph. -/
def idOf (net : Network) (p : Nat) : Nat :=
  (net.points[p]?.map FlowPoint.id).getD 0

/-- The edges leaving a point, in the order in which they were made. -/
def outgoing (net : Network) (p : Nat) : List Edge :=
  (net.points[p]?.map fun point => point.outgoing.toList).getD []

/-- The edges entering a point, in the order in which they were made. -/
def incoming (net : Network) (p : Nat) : List Edge :=
  (net.points[p]?.map fun point => point.incoming.toList).getD []

/-- The targets of the edges leaving a point. -/
def successors (net : Network) (p : Nat) : List Nat :=
  (net.outgoing p).map Edge.target

/-- The sources of the edges entering a point. -/
def predecessors (net : Network) (p : Nat) : List Nat :=
  (net.incoming p).map Edge.source

/-- The points of a graph, by id. -/
def pointsOf (net : Network) (g : Nat) : List Nat :=
  (net.graphs[g]?.map Array.toList).getD []

/-- The point of a graph with the given id. -/
def find? (net : Network) (g : Nat) (id : Int) : Option Nat :=
  if id < 0 then none else (net.pointsOf g)[id.toNat]?

/-- An edge as text. -/
def edgeText (net : Network) (e : Edge) : String :=
  net.text e.source ++ " -> " ++ net.text e.target

end Network

end ScriptFlow
