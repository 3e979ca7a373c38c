import ScriptFlow.Dataflow.Queue
import ScriptFlow.Graph.Traversal

/-!
# The fixed-point engine

Iterates a domain over the points reachable from a list of entries until no value changes. Points
waiting for a visit stand in a queue without repetitions. A visit merges the values of the
predecessors that have one, applies the transfer function and stores both values; if the outcome
differs from the one before, the successors are queued.

A run ends at a fixed point, after as many visits as its cap allows, or when it notices that it
was cancelled, which it looks for before every 128th visit.
-/

namespace ScriptFlow

/-! ## Domains

What the engine needs to know about an analysis: the value at an entry, the effect of a flow point
on a value, the merge of two values that arrive over different edges, and the test that tells when a
value has stopped changing. -/

/-- The part of a flow point that its effect depends on. -/
structure Site where
  id : Nat
  text : String
deriving DecidableEq, Inhabited, Repr

/-- An analysis with values in `T`. -/
structure Domain (T : Type) where
  /-- The value that holds before an entry. -/
  initial : T
  /-- The value after a flow point, given the value before it. -/
  transfer : Site → T → T
  /-- The value where two ways meet. -/
  merge : T → T → T
  /-- Whether two values count as the same. -/
  equal : T → T → Bool

/-! ## Stored values -/

/-- The values of one domain: `current` after each flow point, `input` before it. -/
structure Slots (T : Type) where
  current : PointMap T := .empty
  input : PointMap T := .empty
deriving Inhabited

/-- What a run reads and writes: the values of its domain and the analyzed markers. -/
structure Memory (T : Type) extends Slots T where
  analyzed : PointSet := .empty
deriving Inhabited

namespace Memory

variable {T : Type}

/-- Drops both values and the marker of a point. -/
def forget (m : Memory T) (p : Nat) : Memory T :=
  { current := m.current.erase p
    input := m.input.erase p
    analyzed := m.analyzed.erase p }

end Memory

/-- When a run is cancelled: `some n` means during its `n`-th visit, `some 0` before it starts. -/
abbrev Cancellation := Option Nat

namespace Cancellation

/-- The number of visits between two looks at the cancellation. -/
def interval : Nat := 128

/-- Whether a run that made so many visits notices its cancellation now. -/
def noticed (c : Cancellation) (visits : Nat) : Bool :=
  visits % interval == 0 && c.any fun n => decide (n ≤ visits)

end Cancellation

/-- How a run ended. -/
inductive Ending
  /-- There were no entries and nothing was done. -/
  | idle
  /-- No value changes any more. -/
  | fixedPoint
  /-- The cancellation was noticed. -/
  | cancelled
  /-- The cap was reached with points still waiting. -/
  | exhausted
deriving DecidableEq, Repr

/-- The state of a run between two visits. -/
structure Progress (T : Type) where
  memory : Memory T
  /-- The points waiting for a visit. -/
  queue : Queue Nat
  /-- The same points as a set. -/
  waiting : PointSet
  /-- The number of visits made. -/
  iterations : Nat := 0
  /-- The number of times a point was queued because a value changed. -/
  propagations : Nat := 0
deriving Inhabited

/-- The result of a run. -/
structure Outcome (T : Type) where
  memory : Memory T
  iterations : Nat
  propagations : Nat
  /-- The number of points reachable from the entries. -/
  flowPoints : Nat
  ending : Ending

namespace Network

/-- What the transfer function of a domain sees of a point. -/
def site (net : Network) (p : Nat) : Site :=
  ⟨net.idOf p, net.text p⟩

end Network

namespace Engine

variable {T : Type}

/-- The cap of a run that was given none. -/
def defaultCap : Nat := 100000

/-- The cap meant by a number; below one the default is meant. -/
def capOf (n : Int) : Nat :=
  if n < 1 then defaultCap else n.toNat

/-- The values merged at a point, in order: the initial value at an entry, then the value after
each predecessor that has one, once per edge. -/
def arriving (net : Network) (d : Domain T) (entry : Bool) (current : PointMap T) (p : Nat) :
    List T :=
  (if entry then [d.initial] else []) ++ (net.predecessors p).filterMap current.get?

/-- The merge of arriving values from left to right; the initial value if nothing arrives. -/
def mergeAll (d : Domain T) : List T → T
  | [] => d.initial
  | v :: rest => rest.foldl d.merge v

/-- The value before a point. -/
def inputAt (net : Network) (d : Domain T) (entry : Bool) (current : PointMap T) (p : Nat) : T :=
  mergeAll d (arriving net d entry current p)

/-- Queues those of the given points that do not wait yet. -/
def schedule : List Nat → Progress T → Progress T
  | [], s => s
  | p :: rest, s =>
    if s.waiting.contains p then schedule rest s
    else
      schedule rest
        { s with
          queue := s.queue.push p
          waiting := PointMap.mark s.waiting p
          propagations := s.propagations + 1 }

/-- Visits a point: computes its values and queues its successors unless its outcome is as
before. -/
def visit (net : Network) (d : Domain T) (entries : PointSet) (s : Progress T) (p : Nat) :
    Progress T :=
  let m := s.memory
  let input := inputAt net d (entries.contains p) m.current p
  let output := d.transfer (net.site p) input
  -- A point not visited in this run never counts as settled, whatever value it held before.
  let settled := m.analyzed.contains p && (m.current.get? p).any fun v => d.equal v output
  let m : Memory T :=
    { current := m.current.set p output
      input := m.input.set p input
      analyzed := if settled then m.analyzed else PointMap.mark m.analyzed p }
  let s := { s with memory := m, iterations := s.iterations + 1 }
  -- The successors are queued after the values are stored, so a self-loop finds its own outcome.
  if settled then s else schedule (net.successors p) s

/-- Visits the point just taken off the queue, of which `queue` is the rest. -/
def advance (net : Network) (d : Domain T) (entries : PointSet) (s : Progress T) (p : Nat)
    (queue : Queue Nat) : Progress T :=
  visit net d entries { s with queue := queue, waiting := s.waiting.erase p } p

/-- Visits points until none waits, the cancellation is noticed or `room` visits were made. -/
def settle (net : Network) (d : Domain T) (entries : PointSet) (c : Cancellation) :
    Nat → Progress T → Progress T × Ending
  | room, s =>
    match s.queue.pop? with
    | none => (s, .fixedPoint)
    | some (p, queue) =>
      -- The cancellation goes before the cap: a run that is over both ways was cancelled.
      if c.noticed s.iterations then (s, .cancelled)
      else match room with
        | 0 => (s, .exhausted)
        | room + 1 => settle net d entries c room (advance net d entries s p queue)

/-- The state before the first visit: the values and markers of the reachable points are dropped
and every entry waits once. -/
def start (net : Network) (entries : List Nat) (m : Memory T) : Progress T :=
  { memory := (net.reachableFrom entries).foldl Memory.forget m
    queue := .ofList (Network.distinct entries .empty)
    waiting := entries.foldl PointMap.mark .empty }

/-- Runs a domain from the given entries. -/
def run (net : Network) (d : Domain T) (cap : Nat) (c : Cancellation) (entries : List Nat)
    (m : Memory T) : Outcome T :=
  if entries.isEmpty then
    { memory := m, iterations := 0, propagations := 0, flowPoints := 0, ending := .idle }
  else
    let (s, ending) :=
      settle net d (entries.foldl PointMap.mark .empty) c cap (start net entries m)
    { memory := s.memory
      iterations := s.iterations
      propagations := s.propagations
      flowPoints := (net.reachableFrom entries).length
      ending := ending }

end Engine

end ScriptFlow
