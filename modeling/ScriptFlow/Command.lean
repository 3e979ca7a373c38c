import ScriptFlow.Text.Blank

/-!
# Commands

The text of a flow point read as a shell command: its first word names the command, the words
after it that do not start with a dash are its operands. On top of that, what a command does to
the paths it names: the assignments it makes and the operands it needs to exist.
-/

namespace ScriptFlow

/-- A command with its operands; options are left out. -/
structure Command where
  /-- The first word, empty if there is none. -/
  name : String
  /-- The later words that are no options. -/
  operands : List String
deriving DecidableEq, Inhabited, Repr

namespace Command

/-- Options start with a dash. -/
def isOption (word : String) : Bool :=
  word.toList.head? == some '-'

/-- Reads a text as a command. A text without words is the command without a name. -/
def parse (text : String) : Command :=
  match Text.fields text with
  | [] => ⟨"", []⟩
  | name :: words => ⟨name, words.filter fun w => !isOption w⟩

/-- What a command makes of a path. -/
inductive Effect
  | create
  | remove
deriving DecidableEq, Repr

/-- The assignments of a command in the order in which it makes them. Moving removes every source
and then creates the destination, so the destination wins when it is also a source. -/
def effects (c : Command) : List (String × Effect) :=
  if c.name = "mkdir" ∨ c.name = "touch" then c.operands.map (·, .create)
  else if c.name = "rm" ∨ c.name = "rmdir" then c.operands.map (·, .remove)
  else if c.name = "cp" then
    if c.operands.length < 2 then [] else (c.operands.getLast?.toList).map (·, .create)
  else if c.name = "mv" then
    if c.operands.length < 2 then []
    else c.operands.dropLast.map (·, .remove) ++ (c.operands.getLast?.toList).map (·, .create)
  else []

/-- The operands that have to exist for the command to succeed, in operand order. -/
def required (c : Command) : List String :=
  if c.name = "rm" ∨ c.name = "rmdir" ∨ c.name = "cd" ∨ c.name = "cat" then c.operands
  else if c.name = "cp" ∨ c.name = "mv" then
    if c.operands.length < 2 then [] else c.operands.dropLast
  else []

end Command

end ScriptFlow
