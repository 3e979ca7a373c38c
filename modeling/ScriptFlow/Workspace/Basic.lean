import ScriptFlow.Lattice.ItemSet
import ScriptFlow.SortedMap
import ScriptFlow.Workspace.Path

/-!
# Workspaces

A tree of files and directories as a value. Places in the tree are lists of names from the root;
a path is followed name by name from the working directory or from the root, and every name but
the last has to lead to a directory. Places are kept in ascending order, in which a directory
stands before everything below it and the entries of a directory are sorted by name.

Names and contents are texts. A file whose bytes are no text in UTF-8, such as one in UTF-16, is
therefore in no workspace, and nothing that is said about all workspaces covers it.
-/

namespace ScriptFlow

/-- What stands at a place of the tree. -/
inductive Entry
  /-- A file, known by the text it holds. -/
  | file (content : String)
  | directory
deriving DecidableEq, Inhabited, Repr

/-- The names that lead from the root to a place. -/
abbrev Place := List String

/-- A file tree with a working directory. -/
structure Workspace where
  /-- The entries below the root, which itself is a directory. -/
  tree : SortedMap Place Entry := .empty
  /-- Where relative paths start. -/
  home : Place := []
deriving Inhabited

/-! ## Errors -/

/-- What is wrong with a path. -/
inductive FileFault
  | missing
  | notDirectory
  | isDirectory
  | nameTooLong
  | invalid
deriving DecidableEq, Repr

/-- The wording of a fault. -/
def FileFault.message : FileFault → String
  | missing => "no such file or directory"
  | notDirectory => "not a directory"
  | isDirectory => "is a directory"
  | nameTooLong => "file name too long"
  | invalid => "invalid argument"

/-- What was tried with a path. -/
inductive FileAction
  | opening
  | inspecting
  | reading
  | making
deriving DecidableEq, Repr

/-- The word for an action in messages. -/
def FileAction.word : FileAction → String
  | opening => "open"
  | inspecting => "stat"
  | reading => "read"
  | making => "mkdir"

/-- A failed access to a path. -/
structure FileError where
  action : FileAction
  path : String
  fault : FileFault
deriving DecidableEq, Repr

/-- The wording of a file error. -/
def FileError.message (e : FileError) : String :=
  e.action.word ++ " " ++ e.path ++ ": " ++ e.fault.message

namespace Workspace

/-! ## Following paths -/

/-- The largest size of a name in bytes. -/
def maxName : Nat := 255

/-- The size in bytes from which on a path is too long. -/
def maxPath : Nat := 4096

/-- What stands at a place. -/
def entryAt (w : Workspace) (place : Place) : Option Entry :=
  if place.isEmpty then some .directory else w.tree.find? place

/-- Follows names from a place. -/
def follow (w : Workspace) : Place → List String → Except FileFault (Place × Entry)
  | place, [] =>
    match w.entryAt place with
    | none => .error .missing
    | some e => .ok (place, e)
  | place, name :: rest =>
    match w.entryAt place with
    | none => .error .missing
    | some (.file _) => .error .notDirectory
    | some .directory =>
      -- Repeated slashes and single dots stay in place; the parent of the root is the root.
      if name = "" ∨ name = "." then w.follow place rest
      else if name = ".." then w.follow place.dropLast rest
      else if maxName < name.utf8ByteSize then .error .nameTooLong
      else w.follow (place ++ [name]) rest

/-- Where following a path starts. -/
def startOf (w : Workspace) (path : String) : Place :=
  if Path.isAbsolute path then [] else w.home

/-- The places that names lead through from a place, itself included, whatever stands there. -/
def trailFrom : Place → List String → List Place
  | place, [] => [place]
  | place, name :: rest =>
    place ::
      (if name = "" ∨ name = "." then trailFrom place rest
        else if name = ".." then trailFrom place.dropLast rest
        else trailFrom (place ++ [name]) rest)

/-- The places that following a path may look at. -/
def trail (w : Workspace) (path : String) : List Place :=
  trailFrom (w.startOf path) (Path.names path)

/-- The fault a path has whatever the tree holds. -/
def pathFault? (path : String) : Option FileFault :=
  if path = "" then some .missing
  else if path.toList.contains '\x00' then some .invalid
  else if maxPath ≤ path.utf8ByteSize then some .nameTooLong
  else none

/-- The place a path leads to and what stands there. -/
def resolve (w : Workspace) (path : String) : Except FileFault (Place × Entry) :=
  match pathFault? path with
  | some f => .error f
  | none => w.follow (w.startOf path) (Path.names path)

/-- The place of the file that is created when a path is opened for writing. A path that names a
directory, by what stands there or by a slash at its end, cannot be created. -/
def target (w : Workspace) (path : String) : Except FileFault Place :=
  match pathFault? path with
  | some f => .error f
  | none =>
    match (Path.names path).reverse.dropWhile (· = "") with
    | [] => .error .isDirectory
    | last :: before =>
      -- The path names a directory by its last name, provided that it leads somewhere.
      if last = "." ∨ last = ".." then
        match w.follow (w.startOf path) (Path.names path) with
        | .error f => .error f
        | .ok _ => .error .isDirectory
      else
        match w.follow (w.startOf path) before.reverse with
        | .error f => .error f
        | .ok (_, .file _) => .error .notDirectory
        | .ok (place, .directory) =>
          -- A slash stands at the end.
          if Path.lastName path = "" then .error .isDirectory
          else if maxName < last.utf8ByteSize then .error .nameTooLong
          else match w.entryAt (place ++ [last]) with
            | some .directory => .error .isDirectory
            | _ => .ok (place ++ [last])

/-! ## Access -/

/-- What stands at a path. -/
def inspect (w : Workspace) (path : String) : Except FileError (Place × Entry) :=
  (w.resolve path).mapError fun f => ⟨.inspecting, path, f⟩

/-- The content of a file. -/
def contentOf (w : Workspace) (path : String) : Except FileError String :=
  match w.resolve path with
  | .error f => .error ⟨.opening, path, f⟩
  | .ok (_, .directory) => .error ⟨.reading, path, .isDirectory⟩
  | .ok (_, .file content) => .ok content

/-- The tree with something else at a place. -/
def put (w : Workspace) (place : Place) (e : Entry) : Workspace :=
  { w with tree := w.tree.insert place e }

/-- Creates or replaces a file. -/
def store (w : Workspace) (path content : String) : Except FileError Workspace :=
  match w.target path with
  | .error f => .error ⟨.opening, path, f⟩
  | .ok place => .ok (w.put place (.file content))

/-- Follows names from a place and makes the directories that are missing. The third argument
holds the names followed so far. -/
def makeFrom (w : Workspace) :
    Place → List String → List String → Except FileError Workspace
  | _, _, [] => .ok w
  | place, followed, name :: rest =>
    let followed := followed ++ [name]
    if name = "" ∨ name = "." then w.makeFrom place followed rest
    else if name = ".." then w.makeFrom place.dropLast followed rest
    else
      let place := place ++ [name]
      match w.entryAt place with
      | some .directory => w.makeFrom place followed rest
      | some (.file _) => .error ⟨.making, "/".intercalate followed, .notDirectory⟩
      | none =>
        if maxName < name.utf8ByteSize then
          .error ⟨.making, "/".intercalate followed, .nameTooLong⟩
        else (w.put place .directory).makeFrom place followed rest

/-- Makes a directory and those above it. -/
def makeDirectory (w : Workspace) (path : String) : Except FileError Workspace :=
  match pathFault? path with
  | some f => .error ⟨.making, path, f⟩
  | none => w.makeFrom (w.startOf path) [] (Path.names path)

/-- Creates or replaces a file, after making the directories above it. -/
def storeDeep (w : Workspace) (path content : String) : Except FileError Workspace := do
  let w ← w.makeDirectory (Path.parent path)
  w.store path content

/-- Removes what stands at a path and everything below it, if there is anything. -/
def remove (w : Workspace) (path : String) : Workspace :=
  match w.resolve path with
  | .error _ => w
  | .ok (place, _) => { w with tree := w.tree.filterKeys fun p => !place.isPrefixOf p }

/-! ## Listings -/

/-- Everything below a place in ascending order, with the names that lead there from the place. -/
def below (w : Workspace) (place : Place) : List (List String × Entry) :=
  (w.tree.entries.filter fun e => place.isPrefixOf e.1 && decide (place ≠ e.1)).map fun e =>
    (e.1.drop place.length, e.2)

/-- The relative paths of all files below the working directory, in ascending order as texts. -/
def files (w : Workspace) : List String :=
  (ItemSet.ofList ((w.below w.home).filterMap fun e =>
    match e.2 with
    | .file _ => some ("/".intercalate e.1)
    | .directory => none)).items

end Workspace

end ScriptFlow
