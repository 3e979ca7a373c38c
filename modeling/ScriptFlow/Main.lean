import ScriptFlow.CommandLine.Run

/-!
# The program

Reads the files a command line is about into a workspace, runs the command line on it, prints what
it prints and writes back the files it changed.
-/

namespace ScriptFlow.Main

/-- The path of a place in the file system. -/
def pathOf (place : Place) : String :=
  "/" ++ "/".intercalate place

/-- The content of a file. Bytes that are no text are entered as a character that no file of ours
may hold. -/
def textOf (path : String) : IO String := do
  return (String.fromUTF8? (← IO.FS.readBinFile path)).getD "\x00"

/-- Enters what stands at a place. -/
def enter (w : Workspace) (place : Place) : IO Workspace := do
  if place.isEmpty then return w
  let path := (← IO.currentDir) / pathOf place
  if ← path.isDir then return w.put place .directory
  else if ← path.pathExists then return w.put place (.file (← textOf (pathOf place)))
  else return w

/-- Enters everything below a place; only graph files are entered with their content. -/
partial def enterBelow (w : Workspace) (place : Place) : IO Workspace := do
  let path := (← IO.currentDir) / pathOf place
  if !(← path.isDir) then return w
  let mut w := w
  for e in ← path.readDir do
    let inner := place ++ [e.fileName]
    if ← e.path.isDir then
      w ← enterBelow (w.put inner .directory) inner
    else if isGraphFile e.fileName then
      w := w.put inner (.file (← textOf (pathOf inner)))
    else
      w := w.put inner (.file "")
  return w

/-- The workspace as far as an invocation can see it. -/
def load (invocation : CommandLine.Invocation) : IO Workspace := do
  let home := (Path.names (← IO.currentDir).toString).filter (· ≠ "")
  let mut w : Workspace := { home := home }
  for place in Workspace.trailFrom [] home do
    w ← enter w place
  for path in invocation.inputs do
    w ← enterBelow w ((w.trail path).getLast?.getD [])
  for path in invocation.inputs ++ invocation.outputs do
    for place in w.trail path do
      w ← enter w place
  return w

/-- Writes the files that differ from those before. -/
def save (before after : Workspace) : IO Unit := do
  for (place, entry) in after.tree.entries do
    match entry with
    | .directory => pure ()
    | .file content =>
      if before.entryAt place ≠ some entry then
        IO.FS.writeFile (pathOf place) content

/-- Runs an invocation once; the outcome is the exit code and the workspace it saw. -/
def once (invocation : CommandLine.Invocation) : IO (Nat × Workspace) := do
  let before ← load invocation
  let colored ← (← IO.getStdout).isTty
  let effect := invocation.run before colored
  IO.print effect.printed
  (← IO.getStdout).flush
  if effect.complaint ≠ "" then IO.eprintln effect.complaint
  save before effect.workspace
  return (effect.exit, before)

/-- Runs an invocation again whenever the files it sees have changed. -/
partial def watch (invocation : CommandLine.Invocation) (seen : Workspace) : IO Unit := do
  IO.sleep 100
  let now ← load invocation
  if now.tree = seen.tree then watch invocation seen
  else
    let (_, seen) ← once invocation
    watch invocation seen

end ScriptFlow.Main

open ScriptFlow in
/-- Runs the program. -/
def main (words : List String) : IO UInt32 := do
  match CommandLine.Invocation.parse words with
  | .error e =>
    IO.eprintln ("Error: " ++ e.message)
    return 1
  | .ok invocation =>
    let (exit, seen) ← Main.once invocation
    if invocation.isWatch && exit == 0 then Main.watch invocation seen
    return exit.toUInt32
