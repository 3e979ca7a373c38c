import ScriptFlow.Dataflow.Engine

/-!
# Workbenches

A network together with everything analyses leave on its points: two markers per point, and per
key the values of one domain. Keys are arbitrary and each has its own type of values; values
stored under different keys never meet. A run works on the values of one key and on the analyzed
markers, and on nothing else.
-/

namespace ScriptFlow

/-- A network with markers and with the values stored under each key. -/
structure Workbench (κ : Type) (V : κ → Type) where
  network : Network := .empty
  analyzed : PointSet := .empty
  visited : PointSet := .empty
  slots : (k : κ) → Slots (V k) := fun _ => {}

namespace Workbench

variable {κ : Type} [DecidableEq κ] {V : κ → Type}

/-- Replaces the values stored under one key. -/
def setSlots (w : Workbench κ V) (k : κ) (s : Slots (V k)) : Workbench κ V :=
  { w with slots := fun k' => if h : k' = k then h ▸ s else w.slots k' }

/-- Stores the value after a point. -/
def setCurrent (w : Workbench κ V) (k : κ) (p : Nat) (v : V k) : Workbench κ V :=
  w.setSlots k { w.slots k with current := (w.slots k).current.set p v }

/-- Stores the value before a point. -/
def setInput (w : Workbench κ V) (k : κ) (p : Nat) (v : V k) : Workbench κ V :=
  w.setSlots k { w.slots k with input := (w.slots k).input.set p v }

/-- Drops both values of a point. -/
def clear (w : Workbench κ V) (k : κ) (p : Nat) : Workbench κ V :=
  w.setSlots k
    { current := (w.slots k).current.erase p, input := (w.slots k).input.erase p }

/-- Sets or removes the analyzed marker of a point. -/
def markAnalyzed (w : Workbench κ V) (p : Nat) (on : Bool) : Workbench κ V :=
  { w with analyzed := w.analyzed.assign p on }

/-- Sets or removes the visited marker of a point. -/
def markVisited (w : Workbench κ V) (p : Nat) (on : Bool) : Workbench κ V :=
  { w with visited := w.visited.assign p on }

/-- Removes both markers of every point reachable from `root`. -/
def reset (w : Workbench κ V) (root : Nat) : Workbench κ V :=
  let points := w.network.reachable root
  { w with
    analyzed := points.foldl PointMap.erase w.analyzed
    visited := points.foldl PointMap.erase w.visited }

/-- Runs a domain whose values are stored under key `k`. -/
def run (w : Workbench κ V) (k : κ) (d : Domain (V k)) (cap : Nat) (c : Cancellation)
    (entries : List Nat) : Workbench κ V × Outcome (V k) :=
  let outcome := Engine.run w.network d cap c entries ⟨w.slots k, w.analyzed⟩
  ({ w.setSlots k outcome.memory.toSlots with analyzed := outcome.memory.analyzed }, outcome)

end Workbench

end ScriptFlow
