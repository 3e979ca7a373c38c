import ScriptFlow.CommandLine.Action
import ScriptFlow.CommandLine.Invocation

/-!
# Running a command line

The whole program as a function: from the words of a command line and a workspace to an exit code,
what is printed, and the workspace afterwards.
-/

namespace ScriptFlow.CommandLine

/-- The effect of a command line. -/
structure Effect where
  /-- Zero if all went well and nothing was found. -/
  exit : Nat := 0
  printed : String := ""
  workspace : Workspace
  /-- What went wrong, for the user. -/
  complaint : String := ""
deriving Inhabited

/-- Time limits up to this many nanoseconds are over before the analysis starts. -/
def shortestTimeout : Int := 1000

/-- The cancellation that comes with a time limit. -/
def cancellationOf (timeout : Int) : Cancellation :=
  if timeout ≤ shortestTimeout then some 0 else none

/-- The analyzer asked for by the settings. -/
def fileAnalyzer (w : Workspace) (s : Settings) : Except String FileAnalyzer := do
  let config ← (Config.loadOrDefault w s.config).mapError Config.LoadError.message
  let config := if s.domains.isEmpty then config else { config with domains := s.domains }
  let analyzer ← (Analyzer.new? config).mapError ConfigError.message
  return { analyzer := analyzer, cache := if s.watch then some .empty else none }

/-- Runs the analysis of some paths. Under a watch its own failure does not count, but a path that
cannot be watched does. -/
def analyzePaths (w : Workspace) (colored : Bool) (s : Settings) (paths : List String) : Effect :=
  if paths.isEmpty then
    { exit := 1, printed := "error: Please provide file or directory paths\n", workspace := w }
  else match fileAnalyzer w s with
    | .error e => { exit := 1, workspace := w, complaint := e }
    | .ok a =>
      let delivery : Delivery := { json := s.json, output := s.output, colored := colored }
      let effect (c : Cancellation) : Effect :=
        let run := a.deliver w c paths delivery
        { exit := if run.error.isSome ∨ 0 < run.issues then 1 else 0
          printed := run.printed
          workspace := run.workspace
          complaint := (run.error.map AnalysisError.message).getD "" }
      -- Only the first round of a watch happens here, and its outcome is not an exit code.
      if s.watch then
        match w.watched paths with
        | .error e => { exit := 1, workspace := w, complaint := e.message }
        | .ok _ => { effect none with exit := 0 }
      else effect (cancellationOf s.timeout)

/-- Carries out what a command line asks for. -/
def Invocation.run (w : Workspace) (colored : Bool) : Invocation → Effect
  | .help t => { printed := t.helpText, workspace := w }
  | .noHelp => { workspace := w, complaint := "unknown help topic" }
  | .init path =>
    match Config.install w path with
    | .error e => { workspace := w, complaint := e.message }
    | .ok w =>
      { printed := "Configuration file created/updated: " ++ Config.newPath path ++ "\n",
        workspace := w }
  | .cfg path dot output =>
    match w.listGraph path dot output with
    | .error e => { exit := 1, workspace := w, complaint := e.message }
    | .ok (w, printed) => { printed := printed, workspace := w }
  | .analyze s paths => analyzePaths w colored s paths

/-- Runs a command line. -/
def run (w : Workspace) (colored : Bool) (words : List String) : Effect :=
  match Invocation.parse words with
  | .error e => { exit := 1, workspace := w, complaint := e.message }
  | .ok invocation => invocation.run w colored

end ScriptFlow.CommandLine
