import Docblock.FileTree.Access
import Docblock.Glob

/-!
# Searching a tree with a pattern

A pattern is followed piece by piece, as a path is. A piece that spells out a name leads to that
name alone; any other piece leads to all the names in a directory that it stands for, and two stars
lead to everything below. The names with dots that stand for a directory itself and for the one
above it are found only by a piece that starts with a dot.

## Main definitions

* `Glob.Step`: a piece of a pattern
* `Glob.steps`: the pieces of a pattern
* `Glob.search`: the paths that a pattern leads to
-/

namespace Docblock.Glob

open Docblock.Path (join joinHere)

/-- A piece of a pattern between slashes. -/
inductive Step where
  | depth
  | name (tokens : List Token)
  deriving DecidableEq

/-- Reads a piece of a pattern. -/
def stepOf (piece : Text) : Except Fault Step := do
  match ← tokens piece with
  | [.anyDepth] => return .depth
  | tokens => return .name tokens

/-- The pieces of a text between its slashes, without an empty one at the end. -/
def piecesOf (t : Text) : List Text :=
  let pieces := Path.pieces t
  if pieces.getLast? = some [] then pieces.dropLast else pieces

/-- The pieces of a pattern behind its root. The pattern is read as a whole first, so a fault is
found where it is in the whole. -/
def steps (pattern : Text) : Except Fault (List Step) := do
  let _ ← tokens pattern
  let rest := if Path.isAbsolute pattern then pattern.drop 1 else pattern
  if rest = [] then return [.name []]
  (piecesOf rest).mapM stepOf

/-- The names and the paths of what lies in a directory and below it, each directory in front of
what it holds. -/
def pathsBelow (t : FileTree) (directory : Text) : List (Text × Text) :=
  (t.entriesOf directory).flatMap fun (name, node) =>
    let path := joinHere directory name
    (name, path) ::
      (node.held (fun above name => (name, join above.2 name)) (name, path)).map (·.1)

/-- The paths in a directory that the parts of a piece stand for: those with dots, the one above
first, and the names in the directory. -/
def matchesIn (t : FileTree) (tokens : List Token) (directory : Text) : List Text :=
  let dots :=
    if tokens.head? = some (.char '.') ∧ t.isDirectory directory then
      [['.', '.'], ['.']].filter (accepts tokens)
    else []
  dots.map (join directory) ++
    ((t.childrenOf directory).filter (accepts tokens)).map (joinHere directory)

/-- Whether a name leads on from a directory. -/
def leadsOn (t : FileTree) (directory name : Text) : Bool :=
  if name = ['.'] ∨ name = ['.', '.'] then t.isDirectory directory
  else t.reaches (joinHere directory name)

mutual

/-- Where pieces lead from a directory. -/
def enter (t : FileTree) : List Step → Text → List Text
  | [], path => [path]
  | .depth :: steps, path =>
    (pathsBelow t path).flatMap fun (name, path) => arrive t steps name path
  | .name tokens :: steps, path =>
    match literal? tokens with
    | some name => if leadsOn t path name then enter t steps (joinHere path name) else []
    | none => (matchesIn t tokens path).flatMap (enter t steps)

/-- Where the pieces behind two stars lead from something that the stars have led to, with its
name. At the end, they lead to directories only. -/
def arrive (t : FileTree) : List Step → Text → Text → List Text
  | [], _, path => if t.isDirectory path then [path] else []
  | .depth :: steps, name, path => arrive t steps name path
  | .name tokens :: steps, name, path =>
    if accepts tokens name then enter t steps path else []

end

/-- The paths that a pattern leads to. A slash at the end asks for directories. -/
def search (t : FileTree) (pattern : Text) : Except Fault (List Text) := do
  let steps ← steps pattern
  let found := enter t steps (if Path.isAbsolute pattern then ['/'] else ['.'])
  if pattern.getLast? = some '/' then return found.filter (t.isDirectory ·) else return found

end Docblock.Glob
