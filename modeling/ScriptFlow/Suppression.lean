import ScriptFlow.Lattice.ItemSet
import ScriptFlow.Text.Blank
import ScriptFlow.Text.Quoted

/-!
# Suppressed rules

An annotation switches rules off, for a whole graph or for one flow point. It is the marker alone,
or the marker, a colon and a comma separated list of rule names. A scope that names no rule covers
every rule.
-/

namespace ScriptFlow

/-- Why a text is no annotation. -/
inductive AnnotationError
  /-- The text does not start with the marker. -/
  | noMarker (text : String)
  /-- Something other than a colon follows the marker. -/
  | noColon (text : String)
  /-- Nothing follows the colon. -/
  | noRules
deriving DecidableEq, Repr

/-- The wording of an annotation error. -/
def AnnotationError.message : AnnotationError → String
  | noMarker text => "invalid nolint annotation " ++ Text.quoted text
  | noColon text => "invalid nolint annotation format " ++ Text.quoted text
  | noRules => "invalid nolint annotation: no rules specified after colon"

/-- The rules one annotation covers; without names, all of them. -/
structure Scope where
  /-- The rules named by the annotation. -/
  rules : ItemSet String
deriving DecidableEq, Inhabited

namespace Scope

/-- The text every annotation starts with. -/
def marker : List Char := "//nolint".toList

/-- The names in a comma separated list; blank items are left out. -/
def ruleNames (list : List Char) : List String :=
  ((Text.splitAt ',' list).map fun item => String.ofList (Text.trimChars item)).filter (· ≠ "")

/-- Reads an annotation. -/
def parse (text : String) : Except AnnotationError Scope :=
  let body := Text.trimChars text.toList
  if marker.isPrefixOf body then
    match body.drop marker.length with
    -- The marker alone covers every rule.
    | [] => .ok ⟨.empty⟩
    | c :: rest =>
      if c ≠ ':' then .error (.noColon (String.ofList body))
      else match Text.trimChars rest with
        | [] => .error .noRules
        -- A list of blank items names no rule.
        | list => .ok ⟨.ofList (ruleNames list)⟩
  else .error (.noMarker (String.ofList body))

/-- Whether a scope covers a rule. -/
def covers (s : Scope) (rule : String) : Bool :=
  s.rules.items.isEmpty || s.rules.has rule

end Scope

/-- The annotations given for a graph and for its flow points. -/
structure Suppressions where
  /-- Scopes that hold at every flow point. -/
  everywhere : List Scope := []
  /-- Scopes that hold at the flow point with the given id. -/
  points : List (Int × Scope) := []
deriving Inhabited

namespace Suppressions

/-- No annotations. -/
def none : Suppressions := {}

/-- Adds an annotation for the whole graph. -/
def addGraph (s : Suppressions) (text : String) : Except AnnotationError Suppressions := do
  let scope ← Scope.parse text
  return { s with everywhere := s.everywhere ++ [scope] }

/-- Adds an annotation for one flow point. -/
def addPoint (s : Suppressions) (id : Int) (text : String) :
    Except AnnotationError Suppressions := do
  let scope ← Scope.parse text
  return { s with points := s.points ++ [(id, scope)] }

/-- Whether a rule is switched off at a flow point. -/
def suppresses (s : Suppressions) (id : Int) (rule : String) : Bool :=
  s.everywhere.any (·.covers rule) || s.points.any fun e => decide (e.1 = id) && e.2.covers rule

end Suppressions

end ScriptFlow
