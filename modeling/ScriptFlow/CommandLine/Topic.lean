import ScriptFlow.CommandLine.Flag

/-!
# Commands and their help

The commands of the program with their flags, and the help text of each: what it is for, how it is
called, the commands below it and its flags.
-/

namespace ScriptFlow.CommandLine

/-- What help can be asked about: the program itself or one of its commands. -/
inductive Topic
  | program
  | analyze
  | cfg
  | completion
  | help
  | init
deriving DecidableEq, Repr

/-- The name of the program. -/
def programName : String := "fileflow"

/-! ## Flags -/

/-- The flags every command has, by name. -/
def globalFlags : List Flag :=
  [{ name := "config", letter := some 'c', operand := "string",
      usage := "Path to the configuration file", preset := Text.quoted Config.defaultPath,
      set := fun v s => some { s with config := v } },
    { name := "timeout", operand := "duration", usage := "Set a timeout for the analysis",
      preset := "5m0s",
      set := fun v s => (Duration.parse? v).map fun t => { s with timeout := t } },
    .switch "verbose" (some 'v') "Enable debug logging" fun s b => { s with verbose := b }]

/-- The flag that asks for help on the named command. -/
def helpFlag (name : String) : Flag :=
  .switch "help" (some 'h') ("help for " ++ name) fun s b => { s with help := b }

/-- The flag for the file that output goes to. -/
def outputFlag (usage : String) : Flag :=
  { name := "output", letter := some 'o', operand := "string", usage := usage,
    set := fun v s => some { s with output := v } }

namespace Topic

/-- The name of a command. -/
def name : Topic → String
  | program => programName
  | analyze => "analyze"
  | cfg => "cfg"
  | completion => "completion"
  | help => "help"
  | init => "init"

/-- The flags that only this command has, by name. -/
def ownFlags : Topic → List Flag
  | analyze =>
    [{ name := "domain", operand := "strings",
        usage := "Domains to run (overrides the configuration)",
        set := fun v s =>
          (CommaList.parse? v).map fun names => { s with domains := s.domains ++ names } },
      helpFlag "analyze",
      .switch "json" none "Output reports in JSON format" fun s b => { s with json := b },
      outputFlag "Output path (when using JSON)",
      .switch "watch" (some 'w') "Analyze again whenever a graph file changes"
        fun s b => { s with watch := b }]
  | cfg =>
    [.switch "dot" none "Output the graph in GraphViz DOT format" fun s b => { s with dot := b },
      helpFlag "cfg",
      outputFlag "Output path (defaults to stdout)"]
  | t => [helpFlag t.name]

/-- All flags of a command. -/
def flags (t : Topic) : List Flag :=
  t.ownFlags ++ globalFlags

/-! ## Help -/

/-- What a command does, in one line. -/
def summary : Topic → String
  | program => "fileflow - dataflow analysis of file system scripts"
  | analyze => "Run the configured dataflow domains over graph files"
  | cfg => "Print the control flow graph of a graph file"
  | completion => "Generate the autocompletion script for the specified shell"
  | help => "Help about any command"
  | init => "Initialize a new configuration file"

/-- What a command does, at the head of its help. -/
def description : Topic → String
  | cfg =>
    "Prints every flow point reachable from the entries of the graph, or writes\n" ++
      "the graph in GraphViz DOT format.\n" ++
      "Example) fileflow cfg --dot -o cleanup.dot cleanup.yaml"
  | completion =>
    "Generate the autocompletion script for fileflow for the specified shell.\n" ++
      "See each sub-command's help for details on how to use the generated script."
  | help =>
    "Help provides help for any command in the application.\n" ++
      "Simply type fileflow help [path to command] for full details."
  | t => t.summary

/-- How a command is called. -/
def callLine : Topic → String
  | program => "fileflow [paths...]"
  | analyze => "fileflow analyze [paths...]"
  | cfg => "fileflow cfg [file]"
  | completion => "fileflow completion"
  | help => "fileflow help [command]"
  | init => "fileflow init"

/-- The commands of the program in the order in which the help lists them. -/
def commands : List Topic := [analyze, cfg, completion, help, init]

/-- The commands below a command, with what they do. -/
def subcommands : Topic → List (String × String)
  | program => commands.map fun t => (t.name, t.summary)
  | completion =>
    ["bash", "fish", "powershell", "zsh"].map fun shell =>
      (shell, "Generate the autocompletion script for " ++ shell)
  | _ => []

/-- The command with the given name. -/
def ofName? (name : String) : Option Topic :=
  commands.find? fun t => t.name == name

/-- A text filled up with spaces. -/
def padRight (width : Nat) (s : String) : String :=
  s ++ String.ofList (List.replicate (width - s.length) ' ')

/-- The width of command names in a listing. -/
def nameWidth : Nat := 11

/-- A flag as the help names it. -/
def flagTitle (f : Flag) : String :=
  (match f.letter with
    | some c => "  -" ++ String.singleton c ++ ", --"
    | none => "      --") ++ f.name ++ (if f.isSwitch then "" else " " ++ f.operand)

/-- What the help says about a flag. -/
def flagUsage (f : Flag) : String :=
  f.usage ++ (if f.preset = "" then "" else " (default " ++ f.preset ++ ")")

/-- The lines about a list of flags; what they do is lined up three columns after the longest
title. -/
def flagLines (flags : List Flag) : List String :=
  let width := flags.foldl (fun n f => max n (flagTitle f).length) 0
  flags.map fun f => padRight (width + 3) (flagTitle f) ++ flagUsage f

/-- The flags of the program itself, by name. -/
def programFlags : List Flag :=
  [globalFlags.take 1, [helpFlag programName], globalFlags.drop 1].flatten

/-- The help text of a command. -/
def helpText (t : Topic) : String :=
  let path := if t = program then programName else programName ++ " " ++ t.name
  let usage :=
    (if t = completion then [] else ["  " ++ t.callLine ++ " [flags]"]) ++
      (if t.subcommands.isEmpty then [] else ["  " ++ path ++ " [command]"])
  let listing :=
    if t.subcommands.isEmpty then []
    else ["", "Available Commands:"] ++
      t.subcommands.map fun c => "  " ++ padRight nameWidth c.1 ++ " " ++ c.2
  let flags :=
    if t = program then ["", "Flags:"] ++ flagLines programFlags
    else ["", "Flags:"] ++ flagLines t.ownFlags ++ ["", "Global Flags:"] ++ flagLines globalFlags
  let more :=
    if t.subcommands.isEmpty then []
    else ["", "Use \"" ++ path ++ " [command] --help\" for more information about a command."]
  String.join (([t.description, "", "Usage:"] ++ usage ++ listing ++ flags ++ more).map (· ++ "\n"))

end Topic

end ScriptFlow.CommandLine
