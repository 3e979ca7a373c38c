import ScriptFlow.Dataflow.Engine
import ScriptFlow.Text.Quoted

/-!
# Configuration

Which analyses are run, in which order, and how many visits each of them may make.
-/

namespace ScriptFlow

/-- The analyses that can be configured. -/
inductive Analysis
  | reachability
  | labels
  | presence
deriving DecidableEq, Repr

namespace Analysis

/-- The name of an analysis in a configuration and in reports. -/
def name : Analysis → String
  | reachability => "reachability"
  | labels => "labels"
  | presence => "presence"

/-- All analyses in the order in which reports show them. -/
def all : List Analysis := [reachability, labels, presence]

/-- The analysis with the given name. -/
def ofName? (s : String) : Option Analysis :=
  all.find? fun a => a.name == s

end Analysis

/-- A configuration as it is written down. -/
structure Config where
  /-- The name of the project. -/
  name : String
  /-- The cap of each run; zero stands for the default. -/
  maxIterations : Int
  /-- The names of the analyses to run. -/
  domains : List String
deriving DecidableEq, Inhabited, Repr

/-- What is wrong with a configuration. -/
inductive ConfigError
  | negativeCap (n : Int)
  | unknownDomain (name : String)
deriving DecidableEq, Repr

/-- The wording of a configuration error. -/
def ConfigError.message : ConfigError → String
  | negativeCap n => "max_iterations must not be negative, got " ++ toString n
  | unknownDomain name => "unknown domain " ++ Text.quoted name

namespace Config

/-- The names of all analyses. -/
def knownDomains : List String := Analysis.all.map Analysis.name

/-- The configuration used when there is none. -/
def default : Config :=
  { name := "fileflow", maxIterations := Engine.defaultCap, domains := knownDomains }

/-- The analyses with the given names, or the first name without one. -/
def analyses : List String → Except ConfigError (List Analysis)
  | [] => .ok []
  | name :: rest =>
    match Analysis.ofName? name with
    | none => .error (.unknownDomain name)
    | some a => (analyses rest).map (a :: ·)

/-- Checks a configuration; the outcome is the list of analyses it asks for. -/
def validate (c : Config) : Except ConfigError (List Analysis) :=
  if c.maxIterations < 0 then .error (.negativeCap c.maxIterations) else analyses c.domains

/-- The configuration with defaults for a cap of zero and for an empty list of analyses. -/
def complete (c : Config) : Config :=
  { c with
    domains := if c.domains.isEmpty then knownDomains else c.domains
    maxIterations := if c.maxIterations = 0 then Engine.defaultCap else c.maxIterations }

end Config

end ScriptFlow
