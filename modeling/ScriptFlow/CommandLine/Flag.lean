import ScriptFlow.Config.File
import ScriptFlow.Text.CommaList
import ScriptFlow.Text.Duration

/-!
# Flags

The flags of a command line and how they are read. A flag has a name and perhaps a letter. A
switch needs no value; any other flag takes its value from the same word, after an equals sign or
right after its letter, or else from the next word. Letters of switches may share a word. A double
dash ends the flags; all words that are neither flags nor values are arguments.
-/

namespace ScriptFlow.CommandLine

/-- The values of all flags. -/
structure Settings where
  config : String := Config.defaultPath
  /-- The time limit in nanoseconds. -/
  timeout : Int := 300000000000
  verbose : Bool := false
  help : Bool := false
  domains : List String := []
  json : Bool := false
  output : String := ""
  watch : Bool := false
  dot : Bool := false
deriving DecidableEq, Inhabited, Repr

/-- A flag of a command. -/
structure Flag where
  name : String
  letter : Option Char := none
  /-- What the help calls the value; empty for a switch. -/
  operand : String := ""
  usage : String
  /-- The value before it is set, as the help shows it; empty if the help does not. -/
  preset : String := ""
  /-- Sets the value, if the text is one. -/
  set : String → Settings → Option Settings

/-- What is wrong with a command line. -/
inductive UsageError
  | unknownFlag (word : String)
  | malformedFlag (word : String)
  | missingValue (flag : String)
  | badValue (flag value : String)
  | argumentCount (expected received : Nat)
deriving DecidableEq, Repr

/-- The wording of a usage error. -/
def UsageError.message : UsageError → String
  | unknownFlag word => "unknown flag: " ++ word
  | malformedFlag word => "bad flag syntax: " ++ word
  | missingValue flag => "flag needs an argument: --" ++ flag
  | badValue flag value => "invalid argument " ++ Text.quoted value ++ " for --" ++ flag
  | argumentCount expected received =>
    "accepts " ++ toString expected ++ " arg(s), received " ++ toString received

/-- Reads the value of a switch. -/
def truth? (s : String) : Option Bool :=
  if ["1", "t", "T", "TRUE", "true", "True"].contains s then some true
  else if ["0", "f", "F", "FALSE", "false", "False"].contains s then some false
  else none

namespace Flag

/-- A flag that is on or off. -/
def switch (name : String) (letter : Option Char) (usage : String)
    (assign : Settings → Bool → Settings) : Flag :=
  { name := name, letter := letter, usage := usage,
    set := fun v s => (truth? v).map (assign s) }

/-- Whether a flag goes without a value. -/
def isSwitch (f : Flag) : Bool :=
  f.operand = ""

/-- Sets a flag. -/
def apply (f : Flag) (value : String) (s : Settings) : Except UsageError Settings :=
  match f.set value s with
  | none => .error (.badValue f.name value)
  | some s => .ok s

end Flag

/-! ## Reading -/

/-- What was read of a command line so far. -/
structure Reading where
  settings : Settings := {}
  arguments : List String := []
  /-- A flag whose value is the next word. -/
  pending : Option Flag := none
  /-- Whether the flags are over. -/
  closed : Bool := false

/-- Reads the letters of a word. The outcome names the flag whose value is the next word. -/
def readLetters (flags : List Flag) (word : String) :
    List Char → Settings → Except UsageError (Settings × Option Flag)
  | [], s => .ok (s, none)
  | c :: rest, s =>
    match flags.find? fun f => f.letter == some c with
    | none => .error (.unknownFlag word)
    | some f =>
      match rest with
      -- An equals sign with nothing behind it is not a value but the next letter.
      | '=' :: v :: more => (f.apply (String.ofList (v :: more)) s).map (·, none)
      | _ =>
        if f.isSwitch then
          match f.apply "true" s with
          | .error e => .error e
          | .ok s => readLetters flags word rest s
        -- The value is the next word, or else the rest of this one.
        else if rest.isEmpty then .ok (s, some f)
        else (f.apply (String.ofList rest) s).map (·, none)

/-- Reads a word that spells out the name of a flag, after its dashes. -/
def readName (flags : List Flag) (word : String) (cs : List Char) (s : Settings) :
    Except UsageError (Settings × Option Flag) :=
  if cs.head? = some '-' ∨ cs.head? = some '=' then .error (.malformedFlag word)
  else
    let name := String.ofList (cs.takeWhile (· ≠ '='))
    match flags.find? fun f => f.name == name with
    | none => .error (.unknownFlag word)
    | some f =>
      match cs.dropWhile (· ≠ '=') with
      | _ :: value => (f.apply (String.ofList value) s).map (·, none)
      | [] => if f.isSwitch then (f.apply "true" s).map (·, none) else .ok (s, some f)

/-- Reads one word. -/
def Reading.word (flags : List Flag) (r : Reading) (word : String) : Except UsageError Reading :=
  let flagged (outcome : Except UsageError (Settings × Option Flag)) :=
    outcome.map fun (s, pending) => { r with settings := s, pending := pending }
  let argument : Except UsageError Reading := .ok { r with arguments := r.arguments ++ [word] }
  if r.closed then argument
  else match r.pending with
    | some f => (f.apply word r.settings).map fun s => { r with settings := s, pending := none }
    | none =>
      match word.toList with
      | ['-', '-'] => .ok { r with closed := true }
      | '-' :: '-' :: cs => flagged (readName flags word cs r.settings)
      | '-' :: c :: cs => flagged (readLetters flags word (c :: cs) r.settings)
      | _ => argument

/-- Reads a row of words; the outcome holds the values of the flags and the arguments. -/
def readWords (flags : List Flag) (s : Settings) (words : List String) :
    Except UsageError (Settings × List String) :=
  match words.foldlM (Reading.word flags) { settings := s } with
  | .error e => .error e
  | .ok r =>
    match r.pending with
    | some f => .error (.missingValue f.name)
    | none => .ok (r.settings, r.arguments)

end ScriptFlow.CommandLine
