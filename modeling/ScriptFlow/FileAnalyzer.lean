import ScriptFlow.Analyzer
import ScriptFlow.Workspace.GraphFiles

/-!
# Analysis of files

Analyzes the graph files of a workspace, possibly with the help of a cache. The cache remembers the
last report made for each file together with the content it was made from: a report is only given
out again for the same content, and a request with other content drops it. What is found in a file
depends on its path, its content and the analyzer alone; the cache saves work and changes no report.
-/

namespace ScriptFlow

/-! ## The report cache -/

/-- The remembered reports, by path. A content is a text of a workspace, or a fingerprint that
stands for one. -/
structure Cache where
  /-- For each path the content that was analyzed and its report. -/
  entries : SortedMap String (String × Report) := .empty
deriving Inhabited

namespace Cache

/-- A cache that remembers nothing. -/
def empty : Cache := {}

/-- The report remembered for a path if it was made from the given content. A report made from
other content is forgotten. -/
def get (c : Cache) (path content : String) : Option Report × Cache :=
  match c.entries.find? path with
  | none => (none, c)
  | some (known, report) =>
    if known = content then (some report, c) else (none, ⟨c.entries.erase path⟩)

/-- Remembers the report made from the given content of a path. -/
def set (c : Cache) (path content : String) (report : Report) : Cache :=
  ⟨c.entries.insert path (content, report)⟩

/-- The number of remembered reports. -/
def size (c : Cache) : Nat :=
  c.entries.size

end Cache

/-! ## Results -/

/-- Why the analysis of files failed. -/
inductive AnalysisError
  | collecting (cause : CollectError)
  | graphFile (cause : GraphFileError)
  | graph (cause : GraphError)
  /-- The reports cannot be stored. -/
  | output (cause : FileError)
  /-- The analysis was cancelled before it looked at any file. -/
  | cancelled
deriving DecidableEq, Repr

/-- The wording of an analysis error. -/
def AnalysisError.message : AnalysisError → String
  | collecting cause => cause.message
  | graphFile cause => cause.message
  | graph cause => cause.message
  | output cause => cause.message
  | cancelled => RunError.cancelled.message

/-- What the analysis of a file leaves: a report, perhaps an incomplete one with the reason, and
log records. -/
structure FileResult where
  report : Report
  logs : List LogRecord := []
  error : Option AnalysisError := none
deriving Inhabited

namespace FileResult

/-- The record left when a report is taken from the cache. -/
def cachedLog (path : String) : LogRecord :=
  ⟨.debug, "Using cached report", [("file", .text path)]⟩

/-- The reports of a list of results, or the first error. -/
def reports : List FileResult → Except AnalysisError (List Report)
  | [] => .ok []
  | r :: rest =>
    match r.error with
    | some e => .error e
    | none => (reports rest).map (r.report :: ·)

end FileResult

/-! ## Analysis -/

/-- Analyzes the graph that a reader makes from the content of a file. -/
def Analyzer.contentBy (read : String → Except GraphTextError Script) (a : Analyzer)
    (c : Cancellation) (path content : String) : FileResult :=
  match read content with
  | .error e => { report := { file := path }, error := some (.graphFile (.text path e)) }
  | .ok s =>
    let r := a.graph s c
    { report := r.report.inFile path, logs := r.logs, error := r.error.map .graph }

/-- Analyzes the graph that the content of a file describes. -/
def Analyzer.content (a : Analyzer) : Cancellation → String → String → FileResult :=
  a.contentBy Script.parse

/-- An analyzer of files, with a cache or without. -/
structure FileAnalyzer where
  analyzer : Analyzer
  cache : Option Cache := none
deriving Inhabited

namespace FileAnalyzer

/-- The report the cache holds for the content of a path. -/
def lookUp (a : FileAnalyzer) (path content : String) : Option Report × FileAnalyzer :=
  match a.cache with
  | none => (none, a)
  | some cache =>
    let (found, cache) := cache.get path content
    (found, { a with cache := some cache })

/-- Puts a report into the cache, if there is one. -/
def remember (a : FileAnalyzer) (path content : String) (report : Report) : FileAnalyzer :=
  { a with cache := a.cache.map fun cache => cache.set path content report }

/-- Analyzes a file. Only complete reports are remembered. -/
def file (a : FileAnalyzer) (w : Workspace) (c : Cancellation) (path : String) :
    FileAnalyzer × FileResult :=
  match w.contentOf path with
  | .error e => (a, { report := { file := path }, error := some (.graphFile (.file e)) })
  | .ok content =>
    -- A look-up with other content drops what the cache held for the path.
    match a.lookUp path content with
    | (some report, a) => (a, { report := report, logs := [FileResult.cachedLog path] })
    | (none, a) =>
      let r := a.analyzer.content c path content
      (if r.error.isNone then a.remember path content r.report else a, r)

/-- Analyzes files in order. A failure does not keep the later files from being analyzed. -/
def files (a : FileAnalyzer) (w : Workspace) (c : Cancellation) :
    List String → FileAnalyzer × List FileResult
  | [] => (a, [])
  | path :: rest =>
    let (a, r) := a.file w c path
    let (a, results) := a.files w c rest
    (a, r :: results)

/-- Analyzes the files meant by a list of paths. A single file is opened even after a
cancellation, which its first run then notices; of several files none is. -/
def paths (a : FileAnalyzer) (w : Workspace) (c : Cancellation) (paths : List String) :
    FileAnalyzer × Except AnalysisError (List Report) :=
  match w.collect paths with
  | .error e => (a, .error (.collecting e))
  | .ok files =>
    if 1 < files.length ∧ c = some 0 then (a, .error .cancelled)
    else
      let (a, results) := a.files w c files
      (a, FileResult.reports results)

end FileAnalyzer

end ScriptFlow
