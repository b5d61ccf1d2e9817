import Docblock.Arguments
import Docblock.Document.Record
import Docblock.Inputs
import Docblock.Log

/-!
# Runs

A run reads sources, collects what they say in one document, and writes the pages of the document.
Without files it reads its standard input and writes the pages one behind the other; with files it
writes each page into a file of its own. Sources with faults and files that cannot be read do not
make it fail.

## Main definitions

* `addFiles`: the document of some files, and what is reported of them
* `writePages`: writes pages into a directory
* `run`: a run, from its command line to its outcome
-/

namespace Docblock

/-- Why a run fails. -/
inductive Failure where
  | unknownFormat (name : Text)
  | missingOutput
  | unwritable (path : Text) (fault : FileFault)
  deriving DecidableEq

/-- What is said of a failure, line by line. The fault of a file is told once more as the cause. -/
def Failure.lines : Failure → List Text
  | unknownFormat name => ["Error: ".toList ++ Format.unknownMessage name]
  | missingOutput => ["Error: --output is required when files are given".toList]
  | unwritable path fault =>
    ["Error: cannot write ".toList ++ path ++ ": ".toList ++ fault.message, [],
      "Caused by:".toList, "    ".toList ++ fault.message]

/-- How a run ends. -/
inductive Ending where
  | success
  | failure (cause : Failure)
  | usage (fault : UsageFault)
  deriving DecidableEq

/-- The number that a run gives back. -/
def Ending.exitCode : Ending → Nat
  | success => 0
  | failure _ => 1
  | usage .help => 0
  | usage _ => 2

/-- What a run leaves: how it ends, what it prints, what it reports, and the files. -/
structure Outcome where
  ending : Ending
  printed : Text
  events : List Event
  tree : FileTree

/-! ## Reading -/

/-- What a file adds to a document, and what is reported of it. -/
def addFile (t : FileTree) (d : Document) (path : Text) : Document × List Event :=
  match t.contents path with
  | .error fault => (d, [.unreadable path fault])
  | .ok bytes =>
    let source := Utf8.decode bytes
    (d.recordSource source, .reading path :: Event.ofSource (some path) source)

/-- What files add to a document, one after the other, and what is reported of them. -/
def addFiles (t : FileTree) (d : Document) : List Text → Document × List Event
  | [] => (d, [])
  | path :: paths =>
    let first := addFile t d path
    let others := addFiles t first.1 paths
    (others.1, first.2 ++ others.2)

/-! ## Writing -/

/-- What is reported while pages are made: the classes whose pages get other names. -/
def renamings (format : Format) (d : Document) : List Event :=
  match format with
  | .html =>
    (Html.classPages d).filterMap fun (l, name) =>
      if name = pageName l.item.name then none else some (.renamed l.item.name name)
  | .json => []

/-- Writes pages into a directory, one after the other, up to the first that cannot be written.
Gives the failure, what is reported, and the files. -/
def writeEach (t : FileTree) (directory : Text) : List Page → Option Failure × List Event × FileTree
  | [] => (none, [], t)
  | page :: pages =>
    let path := Path.join directory page.fileName
    match FileTree.write path (Utf8.encode page.contents) t with
    | .error fault t' => (some (.unwritable path fault), [], t')
    | .ok _ t' =>
      let others := writeEach t' directory pages
      (others.1, .wrote path :: others.2.1, others.2.2)

/-- Makes a directory if need be and writes pages into it. -/
def writePages (t : FileTree) (directory : Text) (pages : List Page) :
    Option Failure × List Event × FileTree :=
  match FileTree.makeDirectories directory t with
  | .error fault t' => (some (.unwritable directory fault), [], t')
  | .ok _ t' => writeEach t' directory pages

/-! ## Runs -/

/-- A run on its standard input. -/
def runOnInput (format : Format) (input : List UInt8) (t : FileTree) : Outcome :=
  let source := Utf8.decode input
  let d := Document.empty.recordSource source
  { ending := .success
    printed := (format.pages d).flatMap (·.contents)
    events := Event.ofSource none source ++ renamings format d
    tree := t }

/-- A run on files. -/
def runOnFiles (format : Format) (directory : Text) (files : List Text) (t : FileTree) : Outcome :=
  let faults := (Inputs.patternFaults t files).map fun (argument, fault) =>
    Event.notPattern argument fault
  let read := addFiles t .empty (Inputs.select t files)
  let pages := format.pages read.1
  let written := writePages t directory pages
  { ending := (written.1.map Ending.failure).getD .success
    printed := []
    events := faults ++ read.2 ++ renamings format read.1 ++ [.rendered format pages.length] ++
      written.2.1
    tree := written.2.2 }

/-- A run: its command line is read, then the format is looked at, then the files. -/
def run (arguments : List Text) (input : List UInt8) (t : FileTree) : Outcome :=
  match Arguments.ofList arguments with
  | .error .help => ⟨.usage .help, usageLines.flatMap (· ++ ['\n']), [], t⟩
  | .error fault => ⟨.usage fault, [], [], t⟩
  | .ok a =>
    match Format.ofName? a.formatName with
    | none => ⟨.failure (.unknownFormat a.formatName), [], [], t⟩
    | some format =>
      if a.files = [] then runOnInput format input t
      else
        match a.output with
        | none => ⟨.failure .missingOutput, [], [], t⟩
        | some directory => runOnFiles format directory a.files t

namespace Outcome

/-- What a run says on its way and at its end, line by line. -/
def messages (o : Outcome) (threshold : Threshold) : List Text :=
  Log.shown threshold o.events ++
    match o.ending with
    | .success => []
    | .failure cause => cause.lines
    | .usage fault => fault.lines

end Outcome

end Docblock
