import ScriptFlow.Config.File
import ScriptFlow.FileAnalyzer
import ScriptFlow.Graph.Listing
import ScriptFlow.Report.Json
import ScriptFlow.Report.Text

/-!
# Actions

What the commands do to a workspace and what they print.
-/

namespace ScriptFlow

/-! ## Graphs -/

/-- The listings of a graph, one per entry. -/
def Script.listing (s : Script) (dot : Bool) : String :=
  String.join (s.entries.map fun p =>
    if dot then (s.network.printDot p {}).1.text else (s.network.print p {}).1.text)

/-- Prints the graph of a file, or writes it to another file if the path of one is given. The
outcome is the workspace and what is printed. -/
def Workspace.listGraph (w : Workspace) (path : String) (dot : Bool) (output : String) :
    Except GraphFileError (Workspace × String) := do
  let s ← Script.load w path
  if output = "" then return (w, s.listing dot)
  let w ← (w.store output (s.listing dot)).mapError .file
  return (w, "Graph written to " ++ output ++ "\n")

/-! ## Reports -/

/-- How reports are delivered. -/
structure Delivery where
  json : Bool := false
  /-- The file JSON is written to; if empty it is printed. Text is always printed. -/
  output : String := ""
  colored : Bool := false
deriving DecidableEq, Inhabited, Repr

/-- What an analysis leaves behind. -/
structure AnalysisRun where
  analyzer : FileAnalyzer
  workspace : Workspace
  printed : String := ""
  /-- The number of findings. -/
  issues : Nat := 0
  error : Option AnalysisError := none
deriving Inhabited

/-- The number of findings in a list of reports. -/
def Report.countIssues (reports : List Report) : Nat :=
  reports.foldl (fun n r => n + r.issues.length) 0

/-- Analyzes files and delivers the reports. -/
def FileAnalyzer.deliver (a : FileAnalyzer) (w : Workspace) (c : Cancellation)
    (paths : List String) (d : Delivery) : AnalysisRun :=
  match a.paths w c paths with
  | (a, .error e) => { analyzer := a, workspace := w, error := some e }
  | (a, .ok reports) =>
    let run : AnalysisRun :=
      { analyzer := a, workspace := w, issues := Report.countIssues reports }
    if !d.json then
      { run with printed := String.join (reports.map fun r => r.format d.colored ++ "\n") }
    else if d.output = "" then { run with printed := Report.writeJson reports }
    else match w.store d.output (Report.writeJson reports) with
      | .error e => { run with error := some (.output e) }
      | .ok w => { run with workspace := w }

end ScriptFlow
