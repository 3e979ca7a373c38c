import ScriptFlow.Report.Basic
import ScriptFlow.Text.Table

/-!
# Reports as text

A report for a terminal: a title, per analysis a heading and a table with one row per flow point,
and the findings. A style is a list of terminal codes. Painted text stands between the sequence that
switches the codes on and the one that switches them off; on a plain terminal it is left as it is.
-/

namespace ScriptFlow

/-! ## Colours -/

namespace Text

/-- A way of showing text, given by its terminal codes. -/
structure Style where
  codes : String
deriving DecidableEq, Repr

namespace Style

/-- Bold red. -/
def red : Style := ⟨"31;1"⟩

/-- Bold green. -/
def green : Style := ⟨"32;1"⟩

/-- Bold yellow. -/
def yellow : Style := ⟨"33;1"⟩

/-- Bold cyan. -/
def cyan : Style := ⟨"36;1"⟩

/-- Bold bright yellow. -/
def brightYellow : Style := ⟨"93;1"⟩

/-- Bold bright blue. -/
def brightBlue : Style := ⟨"94;1"⟩

/-- Shows a text in a style if colours are on. -/
def paint (style : Style) (colored : Bool) (text : String) : String :=
  if colored then "\x1b[" ++ style.codes ++ "m" ++ text ++ "\x1b[0;22m" else text

end Style

end Text

open Text (Style)

/-! ## Findings -/

namespace Issue

/-- The word that introduces a finding; codes without a name have none. -/
def label (s : Severity) (colored : Bool) : String :=
  if s = .error then Style.red.paint colored "error: "
  else if s = .warning then Style.brightYellow.paint colored "warning: "
  else if s = .info then Style.brightBlue.paint colored "info: "
  else ""

/-- A finding: its rule, its place, what is wrong and possibly a note. -/
def format (i : Issue) (colored : Bool) : String :=
  let frame := Style.brightBlue.paint colored
  let place := Style.cyan.paint colored
  label i.severity colored ++ Style.yellow.paint colored (i.rule ++ "\n") ++
    frame " --> " ++ (if i.filename = "" then "" else place (i.filename ++ ":")) ++
    place ("#" ++ toString i.flowPoint) ++ " (" ++ i.text ++ ")\n" ++
    frame "  | " ++ Style.red.paint colored i.message ++
    (if i.note = "" then ""
      else "\n" ++ frame "  = " ++ Style.green.paint colored "note: " ++ i.note) ++ "\n"

/-- Findings one after the other, each followed by an empty line. -/
def formatAll (issues : List Issue) (colored : Bool) : String :=
  String.join (issues.map fun i => i.format colored ++ "\n")

end Issue

/-! ## Tables -/

/-- What is shown for a value that is missing. -/
def Row.missing : String := "-"

/-- A value of a row as it is shown. -/
def Row.shown (value : String) : String :=
  if value = "" then Row.missing else value

/-- A row with tabs between its cells. -/
def Row.format (r : Row) : String :=
  "  #" ++ toString r.flowPoint ++ "\t" ++ r.name ++ "\t" ++ r.text ++ "\t" ++
    Row.shown r.input ++ "\t=>\t" ++ Row.shown r.current ++ "\n"

/-- The rows of an analysis in columns. -/
def DomainReport.table (d : DomainReport) : String :=
  Text.Table.layout (String.join ((d.rows.getD []).map Row.format))

/-- The heading of an analysis and its rows. -/
def DomainReport.format (d : DomainReport) (colored : Bool) : String :=
  Style.yellow.paint colored d.domain ++ " [" ++ toString d.iterations ++ " iterations, " ++
    toString d.flowPoints ++ " flow points]\n" ++ d.table

/-! ## Whole reports -/

namespace Report

/-- The title of a report: its file, and the name of the graph if it has one. -/
def title (r : Report) : String :=
  if r.name = "" then r.file else r.file ++ " (" ++ r.name ++ ")"

/-- A report as text. -/
def format (r : Report) (colored : Bool) : String :=
  Style.cyan.paint colored ("==> " ++ r.title ++ "\n") ++
    String.join ((r.domains.getD []).map fun d => d.format colored) ++
    (if r.issues.isEmpty then "" else "\n" ++ Issue.formatAll r.issues colored)

end Report

end ScriptFlow
