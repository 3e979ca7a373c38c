/-!
# Reports

The results of the analyses of one graph: for each analysis a table with the value before and after
every flow point, and the findings, each at one flow point and with its severity. A list that was
never begun is kept apart from an empty one.
-/

namespace ScriptFlow

/-! ## Findings -/

/-- How severe a finding is, given by its integer code. Three codes have a name. -/
structure Severity where
  /-- The code. -/
  code : Int
deriving DecidableEq, Inhabited, Repr

namespace Severity

/-- The command fails whenever it runs. -/
@[match_pattern] def error : Severity := ⟨0⟩

/-- The command fails on some ways through the script. -/
@[match_pattern] def warning : Severity := ⟨1⟩

/-- The script itself does not tell whether the command fails. -/
@[match_pattern] def info : Severity := ⟨2⟩

/-- The name of a severity. -/
def name (s : Severity) : String :=
  if s = error then "ERROR"
  else if s = warning then "WARNING"
  else if s = info then "INFO"
  else "UNKNOWN"

end Severity

/-- A finding at one flow point. -/
structure Issue where
  /-- The rule that found it. -/
  rule : String
  /-- The file of the graph, empty if the graph was not read from a file. -/
  filename : String
  /-- The id of the flow point. -/
  flowPoint : Int
  /-- The text of the flow point. -/
  text : String
  /-- What is wrong. -/
  message : String
  /-- Advice, often empty. -/
  note : String
  /-- How severe it is. -/
  severity : Severity
deriving DecidableEq, Inhabited, Repr

/-! ## Tables and reports -/

/-- The values of a domain at one flow point, as text. They are empty at a point that is not
reachable from an entry. -/
structure Row where
  flowPoint : Int := 0
  name : String := ""
  text : String := ""
  /-- The value before the point. -/
  input : String := ""
  /-- The value after the point. -/
  current : String := ""
deriving DecidableEq, Inhabited, Repr

/-- The results of one analysis. -/
structure DomainReport where
  domain : String := ""
  iterations : Int := 0
  propagations : Int := 0
  flowPoints : Int := 0
  rows : Option (List Row) := none
deriving DecidableEq, Inhabited, Repr

/-- The results for one graph. -/
structure Report where
  file : String := ""
  name : String := ""
  domains : Option (List DomainReport) := none
  issues : List Issue := []
deriving DecidableEq, Inhabited, Repr

namespace Report

/-- The report with one more table. -/
def addDomain (r : Report) (d : DomainReport) : Report :=
  { r with domains := some (r.domains.getD [] ++ [d]) }

/-- The report and its findings with the file they belong to. -/
def inFile (r : Report) (path : String) : Report :=
  { r with file := path, issues := r.issues.map fun i => { i with filename := path } }

end Report

end ScriptFlow
