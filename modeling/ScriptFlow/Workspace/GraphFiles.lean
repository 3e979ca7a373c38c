import ScriptFlow.Description.Yaml
import ScriptFlow.Workspace.Basic

/-!
# Graph files in a workspace

Which files are taken for graph files when a directory is given, which changes to files matter to
a watcher, and how a graph is loaded from a file.
-/

namespace ScriptFlow

/-- The extensions of graph files. -/
def graphExtensions : List String := [".yaml", ".yml"]

/-- Whether a file found in a directory is a graph file. -/
def isGraphFile (path : String) : Bool :=
  graphExtensions.contains (Path.extension path)

/-! ## Collecting -/

/-- A path that was to be analyzed cannot be inspected. -/
structure CollectError where
  path : String
  cause : FileError
deriving DecidableEq, Repr

/-- The wording of a collect error. -/
def CollectError.message (e : CollectError) : String :=
  "error accessing " ++ e.path ++ ": " ++ e.cause.message

namespace Workspace

/-- The graph files below a directory that is named by a path, in walking order. -/
def graphFilesBelow (w : Workspace) (path : String) (place : Place) : List String :=
  (w.below place).filterMap fun e =>
    let shown := Path.join path e.1
    match e.2 with
    | .file _ => if isGraphFile shown then some shown else none
    | .directory => none

/-- The files meant by a list of paths. A file is kept as given, whatever its name; a directory
stands for the graph files below it. -/
def collect (w : Workspace) : List String → Except CollectError (List String)
  | [] => .ok []
  | path :: rest =>
    match w.inspect path with
    | .error e => .error ⟨path, e⟩
    | .ok (place, entry) =>
      let found :=
        match entry with
        | .file _ => [path]
        | .directory => w.graphFilesBelow path place
      (w.collect rest).map (found ++ ·)

end Workspace

/-! ## Watching -/

/-- The kinds of change a file system reports; one report may hold several. -/
structure Change where
  create : Bool := false
  write : Bool := false
  remove : Bool := false
  rename : Bool := false
  chmod : Bool := false
deriving DecidableEq, Inhabited, Repr

/-- The change coded by a number, one bit per kind. -/
def Change.ofBits (bits : Nat) : Change :=
  { create := bits.testBit 0
    write := bits.testBit 1
    remove := bits.testBit 2
    rename := bits.testBit 3
    chmod := bits.testBit 4 }

/-- Whether a change to a file calls for a new analysis: the file was created or written, and its
name ends like that of a graph file. -/
def isGraphEvent (name : String) (change : Change) : Bool :=
  (change.write || change.create) &&
    graphExtensions.any fun ending => ending.toList.isSuffixOf name.toList

namespace Workspace

/-- The directories to watch for a path: that of a file, or a directory with all directories below
it. -/
def watchedFor (w : Workspace) (path : String) : Except FileError (List String) :=
  match w.inspect path with
  | .error e => .error e
  | .ok (_, .file _) => .ok [Path.parent path]
  | .ok (place, .directory) =>
    .ok (path :: (w.below place).filterMap fun e =>
      match e.2 with
      | .file _ => none
      | .directory => some (Path.join path e.1))

/-- The directories to watch for a list of paths. -/
def watched (w : Workspace) : List String → Except FileError (List String)
  | [] => .ok []
  | path :: rest =>
    match w.watchedFor path with
    | .error e => .error e
    | .ok found => (w.watched rest).map (found ++ ·)

end Workspace

/-! ## Loading -/

/-- Why no graph can be loaded from a file. -/
inductive GraphFileError
  | file (cause : FileError)
  | text (path : String) (cause : GraphTextError)
deriving DecidableEq, Repr

/-- The wording of a graph file error. -/
def GraphFileError.message : GraphFileError → String
  | file cause => cause.message
  | text path cause => path ++ ": " ++ cause.message

/-- Loads the graph described in a file. -/
def Script.load (w : Workspace) (path : String) : Except GraphFileError Script :=
  match w.contentOf path with
  | .error e => .error (.file e)
  | .ok content => (Script.parse content).mapError (.text path)

end ScriptFlow
