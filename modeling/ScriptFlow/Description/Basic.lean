import ScriptFlow.Graph.Network
import ScriptFlow.Suppression

/-!
# Graph descriptions

A control flow graph as it is written down: its nodes in order, each with a unique name, a command
text, at most two successors and possibly an annotation. `Description.build` makes the graph or
reports the first thing that is wrong: first the annotation of the graph, then name and annotation
of each node, then the successors of each node, then the entries.
-/

namespace ScriptFlow

/-- One node of a description. -/
structure NodeDescription where
  name : String := ""
  /-- The command; the name stands in for an empty one. -/
  text : String := ""
  /-- The names of the successors. -/
  next : List String := []
  /-- An annotation for this node, if not empty. -/
  nolint : String := ""
deriving DecidableEq, Inhabited, Repr

/-- A graph as it is written down. -/
structure Description where
  name : String := ""
  /-- The names of the entries; without any, the first node is the entry. -/
  entry : List String := []
  /-- An annotation for the whole graph, if not empty. -/
  nolint : String := ""
  nodes : List NodeDescription := []
deriving DecidableEq, Inhabited, Repr

/-- The graph of a description. -/
structure Script where
  name : String
  network : Network
  /-- The points of the nodes; point `i` stands for the `i`-th node. -/
  names : Array String
  entries : List Nat
  suppressions : Suppressions
deriving Inhabited

/-- What is wrong with a description. -/
inductive DescriptionError
  | graphNolint (cause : AnnotationError)
  | emptyName
  | duplicateNode (name : String)
  | nodeNolint (node : String) (cause : AnnotationError)
  | tooManySuccessors (node : String) (count : Nat)
  | unknownSuccessor (name node : String)
  | noEntry
  | unknownEntry (name : String)
deriving DecidableEq, Repr

/-- The wording of a description error. -/
def DescriptionError.message : DescriptionError → String
  | graphNolint cause => cause.message
  | emptyName => "node without name"
  | duplicateNode name => "duplicate node name: " ++ name
  | nodeNolint node cause => node ++ ": " ++ cause.message
  | tooManySuccessors node count =>
    "too many successors: " ++ node ++ " has " ++ toString count
  | unknownSuccessor name node => "unknown node: " ++ name ++ " (successor of " ++ node ++ ")"
  | noEntry => "graph has no entry"
  | unknownEntry name => "unknown node: entry " ++ name

namespace Script

/-- The point of the node with the given name. -/
def lookup (s : Script) (name : String) : Option Nat :=
  s.names.idxOf? name

/-- The name of the node a point stands for. -/
def nameOf (s : Script) (p : Nat) : String :=
  s.names[p]?.getD ""

/-- The points of the graph in declaration order. -/
def points (s : Script) : List Nat :=
  s.network.pointsOf 0

/-- A graph without nodes. -/
def blank (name : String) (suppressions : Suppressions) : Script :=
  { name := name
    network := Network.empty.newGraph.1
    names := #[]
    entries := []
    suppressions := suppressions }

end Script

namespace Description

/-- The largest number of successors of a node. -/
def maxSuccessors : Nat := 2

/-- The annotation of the whole graph. -/
def graphSuppressions (d : Description) : Except DescriptionError Suppressions :=
  if d.nolint = "" then .ok .none
  else (Suppressions.none.addGraph d.nolint).mapError .graphNolint

/-- Adds the point of one node. -/
def addNode (s : Script) (n : NodeDescription) : Except DescriptionError Script :=
  if n.name = "" then .error .emptyName
  else if s.names.contains n.name then .error (.duplicateNode n.name)
  else
    let (net, p) := s.network.newPoint 0 (if n.text = "" then n.name else n.text)
    let annotated :=
      if n.nolint = "" then .ok s.suppressions
      else (s.suppressions.addPoint (net.idOf p) n.nolint).mapError (.nodeNolint n.name)
    annotated.map fun suppressions =>
      { s with network := net, names := s.names.push n.name, suppressions := suppressions }

/-- Links the point of node `i` to the nodes in a list of names. -/
def linkTo (i : Nat) (node : String) : Script → List String → Except DescriptionError Script
  | s, [] => .ok s
  | s, name :: rest =>
    match s.lookup name with
    | none => .error (.unknownSuccessor name node)
    | some j => linkTo i node { s with network := s.network.link i j } rest

/-- Links the nodes from the `i`-th on to their successors. -/
def linkNodes (s : Script) : Nat → List NodeDescription → Except DescriptionError Script
  | _, [] => .ok s
  | i, n :: rest =>
    if maxSuccessors < n.next.length then .error (.tooManySuccessors n.name n.next.length)
    else match linkTo i n.name s n.next with
      | .error e => .error e
      | .ok s => linkNodes s (i + 1) rest

/-- The names of the entries; the first node stands in when none is given. -/
def entryNames (d : Description) : List String :=
  if d.entry.isEmpty then (d.nodes.head?.map (·.name)).toList else d.entry

/-- The points with the given names. -/
def findEntries (s : Script) : List String → Except DescriptionError (List Nat)
  | [] => .ok []
  | name :: rest =>
    match s.lookup name with
    | none => .error (.unknownEntry name)
    | some p => (findEntries s rest).map (p :: ·)

/-- Makes the graph of a description. -/
def build (d : Description) : Except DescriptionError Script := do
  let suppressions ← d.graphSuppressions
  let s ← d.nodes.foldlM addNode (Script.blank d.name suppressions)
  -- Names are all known before the first successor is looked up, so edges may lead forward.
  let s ← linkNodes s 0 d.nodes
  if d.entryNames.isEmpty then throw .noEntry
  let entries ← findEntries s d.entryNames
  return { s with entries := entries }

end Description

end ScriptFlow
