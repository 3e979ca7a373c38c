import ScriptFlow.Report.Basic
import ScriptFlow.Text.Json

/-!
# Reports as JSON

A list of reports as an indented JSON array. Empty file names, notes, row values and lists of
findings are left out; a list that was never begun is `null`.
-/

namespace ScriptFlow

/-- A member that is left out when its text is empty. -/
def Json.optional (key value : String) : List (String × Json) :=
  if value = "" then [] else [(key, .text value)]

/-- A finding as JSON. -/
def Issue.toJson (i : Issue) : Json :=
  .object <|
    [("rule", .text i.rule)] ++ Json.optional "filename" i.filename ++
      [("flow_point", .number i.flowPoint), ("text", .text i.text),
        ("message", .text i.message)] ++
      Json.optional "note" i.note ++ [("severity", .text i.severity.name)]

/-- A row as JSON. -/
def Row.toJson (r : Row) : Json :=
  .object <|
    [("flow_point", .number r.flowPoint), ("name", .text r.name), ("text", .text r.text)] ++
      Json.optional "original" r.input ++ Json.optional "current" r.current

/-- A list that may not have been begun. -/
def Json.listOf {α : Type} (f : α → Json) : Option (List α) → Json
  | none => .null
  | some items => .array (items.map f)

/-- The results of an analysis as JSON. -/
def DomainReport.toJson (d : DomainReport) : Json :=
  .object
    [("domain", .text d.domain), ("iterations", .number d.iterations),
      ("propagations", .number d.propagations), ("flow_points", .number d.flowPoints),
      ("rows", .listOf Row.toJson d.rows)]

namespace Report

/-- A report as JSON. -/
def toJson (r : Report) : Json :=
  .object <|
    [("file", .text r.file), ("name", .text r.name),
      ("domains", .listOf DomainReport.toJson r.domains)] ++
      (if r.issues.isEmpty then [] else [("issues", .array (r.issues.map Issue.toJson))])

/-- A list of reports as JSON text. -/
def writeJson (reports : List Report) : String :=
  (Json.array (reports.map toJson)).render 0 ++ "\n"

end Report

end ScriptFlow
