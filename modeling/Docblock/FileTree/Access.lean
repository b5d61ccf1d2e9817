import Docblock.FileTree
import Docblock.Path
import Docblock.Text.Utf8

/-!
# Access to files by their paths

A path is followed name by name: each name but the last one leads into a directory, a slash at the
end asks for a directory, and two dots lead to the directory above. What cannot be followed, read or
made is a fault with words and mostly a number.

## Main definitions

* `FileFault`: why a file cannot be reached, read or made
* `FileTree.lookup`: what a path leads to
* `FileTree.contents`: the bytes of the file that a path leads to
* `FileAction`: a change to a tree that may stop with a fault
* `FileTree.makeDirectories`, `FileTree.write`: the changes
-/

namespace Docblock

/-- Why a file or a directory cannot be reached, read or made. -/
inductive FileFault where
  | notFound
  | occupied
  | notDirectory
  | isDirectory
  | nameTooLong
  | zeroInName
  deriving DecidableEq

/-- A fault in words, with its number if it has one. -/
def FileFault.message : FileFault → Text
  | notFound => "No such file or directory (os error 2)".toList
  | occupied => "File exists (os error 17)".toList
  | notDirectory => "Not a directory (os error 20)".toList
  | isDirectory => "Is a directory (os error 21)".toList
  | nameTooLong => "File name too long (os error 36)".toList
  | zeroInName => "file name contained an unexpected NUL byte".toList

/-- The greatest number of bytes in a name, in a tree that bounds them. -/
def maxNameBytes : Nat := 255

/-- The greatest number of bytes in a path, in a tree that bounds them. -/
def maxPathBytes : Nat := 4095

/-- A change to a tree of files that may stop with a fault; what has been changed until then stays
changed. -/
abbrev FileAction := EStateM FileFault FileTree

namespace FileTree

open Docblock.Path (pieces components ofComponents)

/-! ## Following a path -/

/-- Whether a piece of a path is no name: it is empty, or one or two dots. -/
def isSpecialPiece (piece : Text) : Bool := piece = [] ∨ piece = ['.'] ∨ piece = ['.', '.']

/-- Whether a name has too many bytes. -/
def isLongName (t : FileTree) (name : Text) : Bool :=
  !t.unbounded && maxNameBytes < (Utf8.encode name).length

/-- Whether a path has too many bytes. -/
def isLongPath (t : FileTree) (path : Text) : Bool :=
  !t.unbounded && maxPathBytes < (Utf8.encode path).length

/-- No tree has a bound below the usual one. -/
theorem isLongPath_of_le {path : Text} (t : FileTree)
    (short : (Utf8.encode path).length ≤ maxPathBytes) : t.isLongPath path = false := by
  simp [isLongPath, Nat.not_lt.2 short]

/-- A way into a tree: the names that have been followed and the nodes that they have led to, the
last one first. -/
abbrev Way := List (Text × FileNode)

/-- The node in which a way ends. -/
def target (t : FileTree) : Way → FileNode
  | [] => t.root
  | (_, node) :: _ => node

/-- The location at which a way ends. -/
def Way.location (way : Way) : Location := (way.map (·.1)).reverse

/-- Where the pieces of a path lead from the end of a way. Every piece is looked up in a
directory. -/
def walk (t : FileTree) : Way → List Text → Except FileFault Way
  | way, [] => .ok way
  | way, piece :: rest =>
    match t.target way with
    | .file _ => .error .notDirectory
    | .directory entries =>
      if piece = ['.', '.'] then t.walk way.tail rest
      else if isSpecialPiece piece then t.walk way rest
      else if t.isLongName piece then .error .nameTooLong
      else
        match Catalog.find piece entries with
        | some node => t.walk ((piece, node) :: way) rest
        | none => .error .notFound

/-- The names that lead to where a path starts. -/
def start (t : FileTree) (path : Text) : Location :=
  if Path.isAbsolute path then [] else t.working

/-- Where pieces lead from the start of a path. An empty path leads nowhere, and a path with a zero
byte or with too many bytes is not followed. -/
def follow (t : FileTree) (path : Text) (pieces : List Text) : Except FileFault Way :=
  if '\x00' ∈ path then .error .zeroInName
  else if path = [] then .error .notFound
  else if t.isLongPath path then .error .nameTooLong
  else t.walk [] (t.start path ++ pieces)

/-- What a path leads to. -/
def lookup (t : FileTree) (path : Text) : Except FileFault FileNode := do
  return t.target (← t.follow path (pieces path))

/-- Whether a path leads to a file or a directory. -/
def reaches (t : FileTree) (path : Text) : Bool := (t.lookup path).isOk

/-- Whether a path leads to a file. -/
def isFile (t : FileTree) (path : Text) : Bool :=
  match t.lookup path with
  | .ok (.file _) => true
  | _ => false

/-- Whether a path leads to a directory. -/
def isDirectory (t : FileTree) (path : Text) : Bool :=
  match t.lookup path with
  | .ok (.directory _) => true
  | _ => false

/-- The bytes of the file that a path leads to. -/
def contents (t : FileTree) (path : Text) : Except FileFault (List UInt8) := do
  match ← t.lookup path with
  | .file bytes => return bytes
  | .directory _ => throw .isDirectory

/-- What is in the directory that a path leads to; nothing where it leads to no directory. -/
def entriesOf (t : FileTree) (path : Text) : Entries :=
  match t.lookup path with
  | .ok node => node.entries
  | .error _ => []

/-- The names in the directory that a path leads to. -/
def childrenOf (t : FileTree) (path : Text) : List Text := (t.entriesOf path).map (·.1)

/-! ## Changes -/

/-- The directory in which the last of some pieces is to be found, and that piece. -/
def parentOf (t : FileTree) (path : Text) (pieces : List Text) :
    Except FileFault (Location × Text) := do
  let parent ← t.follow path (pieces.dropLast ++ [[]])
  return (parent.location, pieces.getLast?.getD [])

/-- Pieces without the empty ones at the end. -/
def trimPieces (pieces : List Text) : List Text := (pieces.reverse.dropWhile (· = [])).reverse

/-- The tree with a new directory. Slashes at the end of the path make no difference. -/
def withDirectory (t : FileTree) (path : Text) : Except FileFault FileTree := do
  let (parent, name) ← t.parentOf path (trimPieces (pieces path))
  if isSpecialPiece name then throw .occupied
  if t.isLongName name then throw .nameTooLong
  match t.kind? (parent ++ [name]) with
  | some _ => throw .occupied
  | none => return t.place parent name .directory

/-- The tree with a new file, or with a file written anew. -/
def withFile (t : FileTree) (path : Text) (bytes : List UInt8) : Except FileFault FileTree := do
  let (parent, name) ← t.parentOf path (pieces path)
  if isSpecialPiece name then throw .isDirectory
  if t.isLongName name then throw .nameTooLong
  match t.kind? (parent ++ [name]) with
  | some .directory => throw .isDirectory
  | _ => return t.place parent name (.file bytes)

/-- A change that leaves the tree as it is where it fails. -/
def change (f : FileTree → Except FileFault FileTree) : FileAction Unit := fun t =>
  match f t with
  | .ok t' => .ok () t'
  | .error fault => .error fault t

/-- Makes a directory. -/
def makeDirectory (path : Text) : FileAction Unit := change (·.withDirectory path)

/-- Writes a file, which is made if need be. -/
def write (path : Text) (bytes : List UInt8) : FileAction Unit := change (·.withFile path bytes)

/-- Makes a directory unless a path leads to one. -/
def ensureDirectory (path : Text) : FileAction Unit := fun t =>
  match makeDirectory path t with
  | .ok _ t' => .ok () t'
  | .error fault t' => if t'.isDirectory path then .ok () t' else .error fault t'

/-- Makes a directory unless a path leads to one; where it cannot be found what it lies in, that is
made first. -/
def ensureWith (path : Text) (parents : FileAction Unit) : FileAction Unit := fun t =>
  match ensureDirectory path t with
  | .error .notFound t' => (parents >>= fun _ => ensureDirectory path) t'
  | result => result

/-- Makes the directories that some components lead to, the last component first in the list. -/
def ensureAll : List Path.Component → FileAction Unit
  | [] => pure ()
  | last :: above => ensureWith (ofComponents (last :: above).reverse) (ensureAll above)

/-- Makes a directory and all that it lies in, as far as they are not there. -/
def makeDirectories (path : Text) : FileAction Unit :=
  ensureWith path (ensureAll (components path).dropLast.reverse)

end FileTree

end Docblock
