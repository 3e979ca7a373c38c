import ScriptFlow.Lattice.Presence
import ScriptFlow.SortedMap

/-!
# Path states

What is known about all paths at one point of a script. A reached point has a finite table of the
paths something is known about, and a path outside the table is `top`; a point that is never
reached is `bottom` on every path. Tables are kept sorted, so equal knowledge has one form as long
as `top` is not written down.
-/

namespace ScriptFlow

/-- The knowledge about all paths at one point. -/
inductive PathState
  /-- The point is never reached. -/
  | unreached
  /-- The point is reached, and the table holds the paths something is known about. -/
  | table (paths : SortedMap String Presence)
deriving DecidableEq, Inhabited

namespace PathState

/-- A reached point at which nothing is known. -/
def nothing : PathState := .table .empty

/-- The value of one path. -/
def get : PathState → String → Presence
  | unreached, _ => .bottom
  | table paths, p => (paths.find? p).getD .top

/-- A table with the value of one path replaced. Knowing nothing is expressed by leaving the path
out. -/
def record (paths : SortedMap String Presence) (p : String) (v : Presence) :
    SortedMap String Presence :=
  if v = .top then paths.erase p else paths.insert p v

/-- The state with the value of one path replaced. A point that is never reached stays so. -/
def put : PathState → String → Presence → PathState
  | unreached, _, _ => unreached
  | table paths, p, v => table (record paths p v)

/-- The state that holds on the union of the ways leading to two states. -/
def join : PathState → PathState → PathState
  | unreached, b => b
  | a, unreached => a
  | table a, table b =>
    let paths := a.keys ++ b.keys.filter fun p => !a.contains p
    table (paths.foldl (fun m p => record m p (((table a).get p).join ((table b).get p))) .empty)

/-- The table as text, paths in ascending order. A point that is never reached looks like one at
which nothing is known. -/
def format : PathState → String
  | unreached => "\x7b\x7d"
  | table paths =>
    "\x7b" ++ ", ".intercalate (paths.entries.map fun e => e.1 ++ ": " ++ e.2.name) ++ "\x7d"

end PathState

end ScriptFlow
