import ScriptFlow.CommandLine.Topic

/-!
# Invocations

What a command line asks for. The command is the first word that is neither a flag nor the value
of one, if it is the name of a command; without a command the words are paths to analyze. Flags
before the command are read before those after it.
-/

namespace ScriptFlow.CommandLine

/-- What a command line asks for. -/
inductive Invocation
  | help (topic : Topic)
  /-- Help on something that is no command. -/
  | noHelp
  | init (path : String)
  | cfg (path : String) (dot : Bool) (output : String)
  | analyze (settings : Settings) (paths : List String)
deriving DecidableEq, Repr

namespace Invocation

/-- The paths whose content matters: files, or directories with the graph files below them. -/
def inputs : Invocation → List String
  | help _ | noHelp => []
  | init _ => []
  | cfg path _ _ => [path]
  | analyze s paths => s.config :: paths

/-- The paths that files may be written to. -/
def outputs : Invocation → List String
  | help _ | noHelp => []
  | init path => [Config.newPath path]
  | cfg _ _ output => [output]
  | analyze s _ => [s.output]

/-- Whether the analysis is to be repeated when files change. -/
def isWatch : Invocation → Bool
  | analyze s _ => s.watch
  | _ => false

end Invocation

/-! ## Finding the command -/

/-- What a word is to the search for the command. -/
inductive WordKind
  /-- A flag; perhaps the next word is its value. -/
  | flag (takesNext : Bool)
  | other
deriving DecidableEq, Repr

/-- Classifies a word. A flag that stands alone in its word takes the next word unless it is known
to be a switch; the double dash counts as such a flag. -/
def wordKind (word : String) : WordKind :=
  match word.toList with
  | '-' :: '-' :: cs =>
    if cs.contains '=' then .flag false
    else .flag !((globalFlags.find? fun f => f.name == String.ofList cs).any Flag.isSwitch)
  | ['-', c] =>
    if c.toNat < 128 ∧ c ≠ '=' then
      .flag !((globalFlags.find? fun f => f.letter == some c).any Flag.isSwitch)
    else .flag false
  | '-' :: _ :: _ => .flag false
  | _ => .other

/-- Splits a command line at its command: the words before it, the command and the words after it.
The first argument tells whether the next word may be the value of a flag, the second holds the
words before it. -/
def splitAtCommand : Bool → List String → List String → Option (List String × Topic × List String)
  | _, _, [] => none
  | isValue, before, word :: rest =>
    match wordKind word with
    | .flag takesNext => splitAtCommand takesNext (before ++ [word]) rest
    | .other =>
      if isValue then splitAtCommand false (before ++ [word]) rest
      else (Topic.ofName? word).map fun t => (before, t, rest)

/-! ## Reading -/

/-- The help that is asked for by a list of names; without names it is that of the program. -/
def helpOn : List String → Invocation
  | [] => .help .program
  | name :: _ =>
    match Topic.ofName? name with
    | none => .noHelp
    | some t => .help t

/-- What is asked for by a command with its settings and arguments. -/
def ask (t : Topic) (s : Settings) (arguments : List String) : Except UsageError Invocation :=
  if s.help then .ok (.help t)
  else match t with
    | .program => .ok (if arguments.isEmpty then .help .program else .analyze s arguments)
    | .analyze => .ok (.analyze s arguments)
    | .cfg =>
      match arguments with
      | [path] => .ok (.cfg path s.dot s.output)
      | _ => .error (.argumentCount 1 arguments.length)
    | .completion => .ok (.help .completion)
    | .help => .ok (helpOn arguments)
    | .init => .ok (.init s.config)

/-- Reads a command line. The flags before the command must be global ones. -/
def Invocation.parse (words : List String) : Except UsageError Invocation := do
  match splitAtCommand false [] words with
  | none =>
    let (s, arguments) ← readWords Topic.program.flags {} words
    ask .program s arguments
  | some (before, t, rest) =>
    -- Words before the command are flags and their values only.
    let (s, _) ← readWords globalFlags {} before
    let (s, arguments) ← readWords t.flags s rest
    ask t s arguments

end ScriptFlow.CommandLine
