import ScriptFlow.Description.Basic
import ScriptFlow.Yaml.Decode

/-!
# Graph files

Reads descriptions from YAML text. A key that is no field of a description is an error.
-/

namespace ScriptFlow

open Yaml (Field RecordType decodeText decodeList)

/-- The nodes of a description in YAML. -/
def NodeDescription.yamlType : RecordType NodeDescription where
  name := "graphfile.Node"
  strict := true
  fields :=
    [.of "name" decodeText (·.name) fun n v => { n with name := v },
      .of "text" decodeText (·.text) fun n v => { n with text := v },
      .of "next" (decodeList "[]string" decodeText "") (·.next) fun n v => { n with next := v },
      .of "nolint" decodeText (·.nolint) fun n v => { n with nolint := v }]

/-- A description in YAML. -/
def Description.yamlType : RecordType Description where
  name := "graphfile.Description"
  strict := true
  fields :=
    [.of "name" decodeText (·.name) fun d v => { d with name := v },
      .of "entry" (decodeList "[]string" decodeText "") (·.entry) fun d v => { d with entry := v },
      .of "nolint" decodeText (·.nolint) fun d v => { d with nolint := v },
      .of "nodes" (decodeList "[]graphfile.Node" NodeDescription.yamlType.decode {}) (·.nodes)
        fun d v => { d with nodes := v }]

/-- Why a graph cannot be made from a text. -/
inductive GraphTextError
  | decoding (cause : Yaml.Error)
  | description (cause : DescriptionError)
deriving DecidableEq, Repr

/-- The wording of a graph text error. -/
def GraphTextError.message : GraphTextError → String
  | decoding cause => "error decoding graph: " ++ cause.message
  | description cause => cause.message

/-- Makes the graph described by a YAML text. -/
def Script.parse (text : String) : Except GraphTextError Script :=
  match Yaml.decodeDocument Description.yamlType.decode {} text with
  | .error e => .error (.decoding e)
  | .ok d => d.build.mapError .description

end ScriptFlow
