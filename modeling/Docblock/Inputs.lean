import Docblock.Glob.Search

/-!
# The inputs of a run

An input is named by its path, by a directory that holds it, or by a pattern. All that is named is
listed in the order of the components of the paths, each file once.

## Main definitions

* `Inputs.isSource`: whether a name is that of a source
* `Inputs.named`: the paths that an argument names
* `Inputs.patternFaults`: the arguments that are neither paths nor patterns
* `Inputs.select`: the paths that some arguments name, listed once each
-/

namespace Docblock.Inputs

/-- The extensions of sources. -/
def extensions : List Text :=
  ["h".toList, "hh".toList, "hpp".toList, "hxx".toList, "c".toList, "cc".toList, "cpp".toList,
    "cxx".toList]

/-- Whether a name is that of a source. -/
def isSource (name : Text) : Bool :=
  match Path.extension? name with
  | some extension => extensions.contains extension
  | none => false

/-- The sources in a directory, but not those in the directories below it. -/
def sourcesIn (t : FileTree) (directory : Text) : List Text :=
  (((t.childrenOf directory).filter isSource).map (Path.join directory)).filter (t.isFile ·)

/-- The files that a pattern leads to, or the pattern itself as a path when there are none. -/
def matched (t : FileTree) (pattern : Text) : List Text :=
  match Glob.search t pattern with
  | .error _ => [pattern]
  | .ok found =>
    let files := found.filter (t.isFile ·)
    if files = [] then [pattern] else files

/-- The paths that an argument names. -/
def named (t : FileTree) (argument : Text) : List Text :=
  if t.isFile argument then [argument]
  else if t.isDirectory argument then sourcesIn t argument
  else matched t argument

/-- What is wrong with an argument that is taken for a pattern and is none. -/
def patternFault? (t : FileTree) (argument : Text) : Option Glob.Fault :=
  if t.isFile argument || t.isDirectory argument then none
  else
    match Glob.search t argument with
    | .error fault => some fault
    | .ok _ => none

/-- The arguments that are taken for patterns and are none, with their faults. -/
def patternFaults (t : FileTree) (arguments : List Text) : List (Text × Glob.Fault) :=
  arguments.filterMap fun argument => (patternFault? t argument).map (argument, ·)

/-- Paths by their components. Of paths with the same components the first one is kept. -/
def catalog (paths : List Text) : Catalog (List Path.Component) Text :=
  paths.foldl (fun c path => c.update (Path.components path) (·.getD path)) {}

/-- The paths that arguments name, in the order of their components, each one once. -/
def select (t : FileTree) (arguments : List Text) : List Text :=
  (catalog (arguments.flatMap (named t))).values

end Docblock.Inputs
