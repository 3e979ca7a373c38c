import ScriptFlow.Command
import ScriptFlow.Dataflow.Engine
import ScriptFlow.Lattice.ItemSet
import ScriptFlow.Lattice.PathState
import ScriptFlow.Report.Basic

/-!
# The three analyses

Reachability marks every flow point that control can reach from an entry. Labels collects the names
of the commands that run on at least one way to a flow point. Path presence tracks which paths
exist after each flow point, and reports the commands that use a path which is not known to exist
before them.
-/

namespace ScriptFlow

/-! ## Reachability -/

/-- A truth value as a lattice: `false` is below `true`. -/
abbrev Flag := Bool

namespace Flag

/-- The least upper bound of two flags. -/
def join (a b : Flag) : Flag := a || b

/-- The greatest lower bound of two flags. -/
def meet (a b : Flag) : Flag := a && b

/-- A flag as text. -/
def format (a : Flag) : String := if a then "true" else "false"

end Flag

/-- The value is `true` at every entry, and no flow point changes it. -/
def reachability : Domain Flag where
  initial := true
  transfer _ v := v
  merge a b := a.join b
  equal a b := a == b

/-! ## Labels -/

/-- The value is the set of command names seen so far. -/
def labels : Domain (ItemSet String) where
  initial := .empty
  transfer site v :=
    let name := (Command.parse site.text).name
    if name = "" then v else v.insert name
  merge a b := a.union b
  equal a b := decide (a = b)

/-! ## Presence of paths -/

/-- The presence of a path after a command had an effect on it. -/
def Command.Effect.presence : Command.Effect → Presence
  | create => .present
  | remove => .absent

/-- The state after a command: its effects are recorded in order. -/
def Command.apply (c : Command) (s : PathState) : PathState :=
  c.effects.foldl (fun s e => s.put e.1 e.2.presence) s

/-- The value tells about every path whether it exists. -/
def pathPresence : Domain PathState where
  initial := .nothing
  transfer site s := (Command.parse site.text).apply s
  merge a b := a.join b
  equal a b := decide (a = b)

namespace PathPresence

/-- The name of the rule that needs paths to exist. -/
def rule : String := "path-presence"

/-- The finding about a path with the given presence that the command of a flow point needs. -/
def finding? (id : Nat) (text : String) (command path : String) (v : Presence) : Option Issue :=
  let found (severity : Severity) (ending note : String) : Issue :=
    { rule := rule, filename := "", flowPoint := id, text := text,
      message := command ++ ": " ++ path ++ ending, note := note, severity := severity }
  if v = .present ∨ v = .bottom then none
  else if v = .absent then some (found .error " does not exist on any path" "")
  else if v = .maybe then
    some (found .warning " does not exist on every path" "create it on all branches before use")
  else some (found .info " is never created by the script" "")

/-- The findings at one flow point, given the state before it. -/
def findingsAt (id : Nat) (text : String) (before : PathState) : List Issue :=
  let command := Command.parse text
  command.required.filterMap fun path => finding? id text command.name path (before.get path)

/-- The findings at a list of points; points without a state before them are skipped. -/
def findings (net : Network) (input : PointMap PathState) (points : List Nat) : List Issue :=
  points.flatMap fun p =>
    match input.get? p with
    | none => []
    | some before => findingsAt (net.idOf p) (net.text p) before

end PathPresence

end ScriptFlow
