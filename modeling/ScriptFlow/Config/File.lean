import ScriptFlow.Config.Basic
import ScriptFlow.Workspace.Basic
import ScriptFlow.Yaml.Decode
import ScriptFlow.Yaml.Writer

/-!
# Configuration files

Reads and writes configurations as YAML text, and loads and stores them in a workspace. Fields that
are missing keep their defaults, and keys that are no fields are ignored.
-/

namespace ScriptFlow.Config

open Yaml (Field RecordType decodeText decodeInteger decodeList)

/-! ## YAML -/

/-- The analysis section in YAML. -/
def analysisType : RecordType Config where
  name := "config.Analysis"
  strict := false
  fields :=
    [.of "max_iterations" decodeInteger (·.maxIterations)
        fun c v => { c with maxIterations := v },
      .of "domains" (decodeList "[]string" decodeText "") (·.domains)
        fun c v => { c with domains := v }]

/-- A configuration in YAML. -/
def yamlType : RecordType Config where
  name := "config.Config"
  strict := false
  fields :=
    [.of "name" decodeText (·.name) fun c v => { c with name := v },
      .of "analysis" analysisType.decode id fun _ v => v]

/-- Why a text is no configuration. -/
inductive TextError
  | decoding (cause : Yaml.Error)
  | invalid (cause : ConfigError)
deriving DecidableEq, Repr

/-- Reads a configuration and checks it. -/
def parse (text : String) : Except TextError Config :=
  match Yaml.decodeDocument yamlType.decode default text with
  | .error e => .error (.decoding e)
  | .ok c =>
    match c.complete.validate with
    | .error e => .error (.invalid e)
    | .ok _ => .ok c.complete

/-- A configuration as YAML text. -/
def render (c : Config) : String :=
  "name:" ++ Yaml.writeText 4 c.name ++
    "analysis:\n" ++
    "    max_iterations: " ++ toString c.maxIterations ++ "\n" ++
    (if c.domains.isEmpty then "    domains: []\n"
      else "    domains:\n" ++
        String.join (c.domains.map fun d => "        -" ++ Yaml.writeText 10 d))

/-! ## Files -/

/-- The file a configuration is looked for in. -/
def defaultPath : String := ".fileflow.yaml"

/-- Why no configuration can be loaded from a file. -/
inductive LoadError
  /-- The file cannot be opened. -/
  | file (cause : FileError)
  /-- The file can be opened and not read. -/
  | unreadable (path : String) (cause : FileError)
  | text (path : String) (cause : TextError)
deriving DecidableEq, Repr

/-- The wording of a load error. -/
def LoadError.message : LoadError → String
  | file cause => cause.message
  | unreadable path cause => "error parsing " ++ path ++ ": yaml: input error: " ++ cause.message
  | text path (.decoding cause) => "error parsing " ++ path ++ ": " ++ cause.message
  | text path (.invalid cause) => "invalid configuration " ++ path ++ ": " ++ cause.message

/-- Loads a configuration. -/
def load (w : Workspace) (path : String) : Except LoadError Config :=
  match w.resolve path with
  | .error f => .error (.file ⟨.opening, path, f⟩)
  | .ok (_, .directory) => .error (.unreadable path ⟨.reading, path, .isDirectory⟩)
  | .ok (_, .file content) => (parse content).mapError (.text path)

/-- Loads a configuration; the default stands in for a missing file. -/
def loadOrDefault (w : Workspace) (path : String) : Except LoadError Config :=
  match load w path with
  | .error (.file ⟨_, _, .missing⟩) => .ok default
  | r => r

/-- Stores a configuration. -/
def save (c : Config) (w : Workspace) (path : String) : Except FileError Workspace :=
  w.store path c.render

/-- The path meant when a new configuration is asked for; the empty path means the default one. -/
def newPath (path : String) : String :=
  if path = "" then defaultPath else path

/-- Stores the default configuration for a user to start from. -/
def install (w : Workspace) (path : String) : Except FileError Workspace :=
  default.save w (newPath path)

end ScriptFlow.Config
