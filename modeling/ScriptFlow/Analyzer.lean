import ScriptFlow.Config.Basic
import ScriptFlow.Dataflow.Trace
import ScriptFlow.Description.Basic
import ScriptFlow.Domains

/-!
# Analysis of a graph

Runs the configured analyses over a graph, one after the other, and collects their tables and
findings in a report. Each analysis starts on fresh values. The first one that fails ends the
analysis; the report then holds what the earlier ones found.
-/

namespace ScriptFlow

/-- A checked configuration. -/
structure Analyzer where
  analyses : List Analysis
  /-- The cap of each run. -/
  cap : Nat
deriving DecidableEq, Inhabited, Repr

/-- The analysis of a graph failed because one of its runs did. -/
structure GraphError where
  graph : String
  cause : RunError
deriving DecidableEq, Repr

/-- The wording of a graph error. -/
def GraphError.message (e : GraphError) : String :=
  "graph " ++ e.graph ++ ": " ++ e.cause.message

/-- What the analysis of a graph leaves: a report, perhaps an incomplete one with the reason, and
the records of its runs. -/
structure GraphResult where
  report : Report
  logs : List LogRecord := []
  error : Option GraphError := none
deriving Inhabited

namespace Analyzer

/-- The analyzer for a configuration. -/
def new? (c : Config) : Except ConfigError Analyzer :=
  c.validate.map fun analyses => ⟨analyses, Engine.capOf c.maxIterations⟩

/-- The table of a successful run. -/
def tableOf {T : Type} (s : Script) (analysis : Analysis) (format : T → String)
    (o : Outcome T) : DomainReport :=
  let rows := s.points.map fun p =>
    { flowPoint := s.network.idOf p
      name := s.nameOf p
      text := s.network.text p
      input := ((o.memory.input.get? p).map format).getD ""
      current := ((o.memory.current.get? p).map format).getD "" }
  { domain := analysis.name
    iterations := o.iterations
    propagations := o.propagations
    flowPoints := o.flowPoints
    rows := if rows.isEmpty then none else some rows }

/-- One analysis of a graph: its log records, and its table and findings or the reason why it has
none. -/
structure Pass where
  logs : List LogRecord
  result : Except RunError (DomainReport × List Issue)

/-- Runs a domain over a graph on fresh values. -/
def pass {T : Type} (a : Analyzer) (s : Script) (c : Cancellation) (analysis : Analysis)
    (d : Domain T) (format : T → String) (findings : Outcome T → List Issue) : Pass :=
  -- Every pass has values and markers of its own, so passes cannot see one another.
  let o := Engine.run s.network d a.cap c s.entries {}
  { logs := o.logs analysis.name
    result :=
      match o.error? analysis.name with
      | some e => .error e
      | none => .ok (tableOf s analysis format o, findings o) }

/-- The findings that are not suppressed. -/
def visible (s : Script) (issues : List Issue) : List Issue :=
  issues.filter fun i => !s.suppressions.suppresses i.flowPoint i.rule

/-- Runs one analysis. -/
def analysis (a : Analyzer) (s : Script) (c : Cancellation) : Analysis → Pass
  | .reachability => a.pass s c .reachability ScriptFlow.reachability Flag.format fun _ => []
  | .labels => a.pass s c .labels ScriptFlow.labels ItemSet.format fun _ => []
  | .presence =>
    a.pass s c .presence pathPresence PathState.format fun o =>
      visible s (PathPresence.findings s.network o.memory.input s.points)

/-- Runs analyses in order and adds what they find to a result. -/
def graphFrom (a : Analyzer) (s : Script) (c : Cancellation) :
    List Analysis → GraphResult → GraphResult
  | [], r => r
  | name :: rest, r =>
    let p := a.analysis s c name
    let r := { r with logs := r.logs ++ p.logs }
    match p.result with
    -- What the earlier passes found stays in the report.
    | .error e => { r with error := some ⟨s.name, e⟩ }
    | .ok (table, issues) =>
      a.graphFrom s c rest
        { r with
          report := { r.report.addDomain table with issues := r.report.issues ++ issues } }

/-- Runs every configured analysis over a graph. -/
def graph (a : Analyzer) (s : Script) (c : Cancellation) : GraphResult :=
  a.graphFrom s c a.analyses { report := { name := s.name } }

end Analyzer

end ScriptFlow
