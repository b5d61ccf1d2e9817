import Docblock.Run

/-!
# The command

The command looks up the files that its arguments can name, makes a run on them, prints what the run
prints and says, and writes the files that the run has changed. What a run does is decided in
`Docblock.run`; here files are read and written.
-/

namespace Docblock.Command

/-- The environment variable that sets which events are shown. -/
def logVariable : String := "RUST_LOG"

/-- A text as the system takes it. -/
def native (t : Text) : String := String.ofList t

/-- The bytes of a file, if there is one. -/
def readBytes? (path : Text) : IO (Option (List UInt8)) := do
  try return some (← IO.FS.readBinFile (native path)).toList
  catch _ => return none

/-- The names in a directory, if there is one. -/
def readNames? (path : Text) : IO (Option (List Text)) := do
  try
    let entries ← ((← IO.currentDir) / native path).readDir
    return some (entries.toList.map (·.fileName.toList))
  catch _ => return none

/-- A tree with a change made in it. -/
def apply (action : FileAction Unit) (t : FileTree) : FileTree :=
  match action t with
  | .ok _ t => t
  | .error _ t => t

/-- The beginnings of a path that end with a piece of it, the shortest first. The first piece of an
absolute path is empty and stands for the root. -/
def beginnings (path : Text) : List Text :=
  let pieces := Path.pieces path
  (List.range pieces.length).map fun k =>
    let beginning := List.intercalate ['/'] (pieces.take (k + 1))
    if beginning = [] then ['/'] else beginning

/-- Whether a text can be a pattern. -/
def hasWildcard (t : Text) : Bool := t.any fun c => c == '*' || c == '?' || c == '['

/-- The part of a path in front of its first piece that can be a pattern. -/
def fixedPart (path : Text) : Text :=
  let fixed := List.intercalate ['/'] ((Path.pieces path).takeWhile (!hasWildcard ·))
  if fixed = [] then (if Path.isAbsolute path then ['/'] else ['.']) else fixed

/-- Looks up what a path leads to, without what lies in it. -/
def loadEntry (t : FileTree) (path : Text) : IO FileTree := do
  match ← readBytes? path with
  | some bytes => return apply (FileTree.write path bytes) t
  | none =>
    match ← readNames? path with
    | some _ => return apply (FileTree.makeDirectories path) t
    | none => return t

/-- Looks up what lies in a directory, without what lies in the directories there. -/
def loadDirectory (t : FileTree) (directory : Text) : IO FileTree := do
  let names := (← readNames? directory).getD []
  (names.map (Path.join directory)).foldlM loadEntry t

/-- Looks up everything below a directory. -/
partial def loadBelow (t : FileTree) (directory : Text) : IO FileTree := do
  let names := (← readNames? directory).getD []
  (names.map (Path.join directory)).foldlM (fun t path => do loadBelow (← loadEntry t path) path) t

/-- Looks up what an argument can name. -/
def loadArgument (t : FileTree) (argument : Text) : IO FileTree := do
  let t ← (beginnings argument).foldlM loadEntry t
  let t ← loadDirectory t argument
  if hasWildcard argument then
    let fixed := fixedPart argument
    let t ← (beginnings fixed).foldlM loadEntry t
    loadBelow t fixed
  else return t

/-- A tree that holds nothing but the working directory. -/
def workingTree : IO FileTree := do
  let path := (← IO.currentDir).toString.toList
  let names := (Path.pieces path).filter (· ≠ [])
  return { apply (FileTree.makeDirectories path) {} with working := names }

/-- The files that a command line can name. -/
def loadTree (arguments : List Text) : IO FileTree := do
  let t ← workingTree
  match Arguments.ofList arguments with
  | .error _ => return t
  | .ok a => (a.files ++ a.output.toList).foldlM loadArgument t

/-- Reads a stream to its end. -/
partial def readStream (stream : IO.FS.Stream) (bytes : ByteArray) : IO ByteArray := do
  let more ← stream.read 65536
  if more.isEmpty then return bytes else readStream stream (bytes ++ more)

/-- The standard input, where the command line asks for it. -/
def readInput (arguments : List Text) : IO (List UInt8) := do
  match Arguments.ofList arguments with
  | .ok { files := [], .. } => return (← readStream (← IO.getStdin) .empty).toList
  | _ => return []

/-- Makes the directories and writes the files that a run has changed. -/
def writeChanges (before after : FileTree) : IO Unit := do
  for (l, kind) in after.nodesNotIn before do
    let path := native ('/' :: List.intercalate ['/'] l)
    match kind with
    | .directory => IO.FS.createDirAll path
    | .file bytes => IO.FS.writeBinFile path ⟨bytes.toArray⟩

end Docblock.Command

open Docblock Docblock.Command in
/-- Runs the command. -/
def main (arguments : List String) : IO UInt32 := do
  let arguments := arguments.map (·.toList)
  let before ← loadTree arguments
  let input ← readInput arguments
  let setting := (← IO.getEnv logVariable).map (·.toList)
  let outcome := run arguments input before
  (← IO.getStdout).putStr (native outcome.printed)
  for line in outcome.messages (.ofSetting setting) do
    (← IO.getStderr).putStrLn (native line)
  writeChanges before outcome.tree
  return UInt32.ofNat outcome.ending.exitCode
