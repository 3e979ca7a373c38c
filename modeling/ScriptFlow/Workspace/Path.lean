import ScriptFlow.Text.Blank

/-!
# Paths

Paths as text: names between slashes. A path is absolute if it starts with a slash. Cleaning a
path drops empty names and single dots and cancels a name against a double dot after it; it looks
at the text alone.
-/

namespace ScriptFlow.Path

/-- The names of a path, empty ones included. -/
def names (path : String) : List String :=
  (Text.splitAt '/' path.toList).map String.ofList

/-- Whether a path starts at the root. -/
def isAbsolute (path : String) : Bool :=
  path.toList.head? == some '/'

/-- Cleans a list of names. The accumulator holds the names kept so far, last first; at the root a
double dot has nothing to cancel and is dropped. -/
def cleanNames (rooted : Bool) : List String → List String → List String
  | kept, [] => kept.reverse
  | kept, name :: rest =>
    if name = "" ∨ name = "." then cleanNames rooted kept rest
    else if name = ".." then
      match kept with
      | [] => cleanNames rooted (if rooted then [] else [".."]) rest
      | last :: before =>
        if last = ".." then cleanNames rooted (".." :: kept) rest
        else cleanNames rooted before rest
    else cleanNames rooted (name :: kept) rest

/-- The shortest path with the same names; the dot stands for a path without any. -/
def clean (path : String) : String :=
  let joined := "/".intercalate (cleanNames (isAbsolute path) [] (names path))
  if isAbsolute path then "/" ++ joined else if joined = "" then "." else joined

/-- The cleaned path of an entry below a directory. -/
def join (directory : String) (below : List String) : String :=
  clean (directory ++ "/" ++ "/".intercalate below)

/-- The path without its last name, cleaned. -/
def parent (path : String) : String :=
  let before := "/".intercalate (names path).dropLast
  clean (if isAbsolute path then "/" ++ before else before)

/-- The last name of a path. -/
def lastName (path : String) : String :=
  (names path).getLast?.getD ""

/-- The last name from its last dot on; empty if it has none. -/
def extension (path : String) : String :=
  let reversed := (lastName path).toList.reverse
  if reversed.contains '.' then
    String.ofList ('.' :: (reversed.takeWhile (· ≠ '.')).reverse)
  else ""

end ScriptFlow.Path
