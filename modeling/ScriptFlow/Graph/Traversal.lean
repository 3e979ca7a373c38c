import ScriptFlow.Graph.Network
import ScriptFlow.Graph.PointMap

/-!
# Traversal

Depth-first traversal of a network along outgoing edges, with an explicit stack. Each reachable
point is listed once, before the points reached from it, and the first edge of a point is followed
first. The stack holds every point at most once per edge into it, so the number of edges bounds
the number of steps.
-/

namespace ScriptFlow

namespace Network

/-- Takes points off the stack and lists those not seen before; the unseen successors of a listed
point go on top of the stack, first edge uppermost. The first argument bounds the number of points
taken off. -/
def walk (net : Network) : Nat → List Nat → PointSet → List Nat
  | 0, _, _ => []
  | _ + 1, [], _ => []
  | steps + 1, p :: stack, seen =>
    -- A point can be on the stack several times before it is listed.
    if seen.contains p then net.walk steps stack seen
    else
      let seen := PointMap.mark seen p
      p :: net.walk steps ((net.successors p).filter (fun q => !seen.contains q) ++ stack) seen

/-- One step for the root and one for every edge of the network. -/
def walkBound (net : Network) : Nat :=
  net.points.foldl (fun n p => n + p.outgoing.size) 1

/-- The points reachable from `root`, itself included, in depth-first pre-order. -/
def reachable (net : Network) (root : Nat) : List Nat :=
  net.walk net.walkBound [root] .empty

/-- The points of a list without repetitions, each at its first occurrence. -/
def distinct : List Nat → PointSet → List Nat
  | [], _ => []
  | p :: rest, seen =>
    if seen.contains p then distinct rest seen
    else p :: distinct rest (PointMap.mark seen p)

/-- The points reachable from any of the entries, each once. -/
def reachableFrom (net : Network) (entries : List Nat) : List Nat :=
  distinct (entries.flatMap net.reachable) .empty

end Network

end ScriptFlow
