import Docblock.Proofs.WrittenPages

/-!
# Runs on the standard input and runs on a file

Two drivers read a source: a run on its standard input prints the pages of the source, and a run on
a file writes them into a directory. For one source and one format the two agree. Both read the same
document, and in a fresh directory no page can be hindered, as the pages have different names and
nothing else is there; so what is printed is what the written files hold.

## Main definitions

* `FileTree.IsFresh`: a directory is there or can be made, and nothing is in it
* `Outcome.warnings`: the warnings of a run
* `RunsAgree`: a run on the standard input agrees with one on a file

## Main results

* `mem_childrenOf_iff`: what is in a directory
* `writable_join`: a file can be written into a directory unless a directory has its name
* `PagesIn.childrenOf_perm`: an empty directory holds the pages that are written into it, and no
  other file
* `filter_ofSource`: the warnings of a source are its diagnostics
* `runs_agree`: runs on the standard input agree with runs on a file
-/

namespace Docblock

namespace FileTree

open Docblock.Path

variable {t s : FileTree} {directory name path : Text}

/-! ## What is in a directory -/

/-- A path to a directory leads to its entries, which are listed in the order of their names. -/
theorem exists_entries_of_isDirectory (isDirectory : t.isDirectory path = true) :
    ∃ entries : Entries, t.node? (t.placeOf path) = some (.directory entries) ∧
      t.childrenOf path = entries.map (·.1) ∧
      entries.Pairwise fun x y => Key.before x.1 y.1 = true := by
  obtain ⟨way, entries, followed, inside⟩ := isDirectory_iff_follow.1 isDirectory
  have found := lookup_of_follow followed
  have here := node?_placeOf followed
  rw [inside] at found here
  refine ⟨entries, here, ?_, ?_⟩
  · rw [childrenOf, entriesOf, found]
    rfl
  · have passes (node : FileNode) (ordered : node.Ordered) : ∀ x ∈ node.entries, x.2.Ordered := by
      cases ordered.entries with
      | directory _ names inner => exact inner
    cases FileNode.of_at? passes t.ordered here with
    | directory _ names inner => exact names

/-- **A name is in a directory** if something is at its place. -/
theorem mem_childrenOf_iff (isDirectory : t.isDirectory path = true) :
    name ∈ t.childrenOf path ↔ ∃ kind, t.kind? (t.placeOf path ++ [name]) = some kind := by
  obtain ⟨entries, here, children, names⟩ := exists_entries_of_isDirectory isDirectory
  rw [children, kind?, node?_append, here, Option.bind_some]
  constructor
  · intro inside
    obtain ⟨⟨_, node⟩, listed, rfl⟩ := List.mem_map.1 inside
    have found := (Catalog.find_eq_some_iff names).2 listed
    exact ⟨node.kind, Option.map_eq_some_iff.2 ⟨node, found, rfl⟩⟩
  · rintro ⟨kind, found⟩
    obtain ⟨node, found, -⟩ := Option.map_eq_some_iff.1 found
    exact List.mem_map.2 ⟨_, (Catalog.find_eq_some_iff names).1 found, rfl⟩

theorem nodup_childrenOf (isDirectory : t.isDirectory path = true) : (t.childrenOf path).Nodup := by
  obtain ⟨entries, -, children, names⟩ := exists_entries_of_isDirectory isDirectory
  rw [children, List.Nodup, List.pairwise_map]
  refine names.imp fun {x y} before same => ?_
  rw [same, Key.before_irrefl] at before
  exact nomatch before

theorem SameDirectories.isDirectory_eq (same : t.SameDirectories s) (path : Text) :
    s.isDirectory path = t.isDirectory path := by
  rw [Bool.eq_iff_iff, isDirectory_iff, isDirectory_iff, same.passable_iff,
    start_congr same.working, isLongPath_congr same.unbounded]

/-! ## Files in a directory -/

/-- A name is put behind the pieces of a directory; an empty piece at their end is left out. -/
theorem exists_pieces_join (isFileName : IsFileName name) (given : directory ≠ []) :
    ∃ above, pieces (join directory name) = above ++ [name] ∧
      (pieces directory = above ∨ pieces directory = above ++ [[]]) := by
  have behind (path : Text) : pieces (path ++ '/' :: name) = pieces path ++ [name] := by
    rw [pieces, List.splitOn_append_cons_self, List.splitOn_eq_singleton isFileName.noSlash]
    rfl
  rw [join]
  by_cases slash : directory.getLast? = some '/'
  · obtain ⟨path, rfl⟩ := List.getLast?_eq_some_iff.1 slash
    refine ⟨pieces path, ?_, Or.inr (List.splitOn_append_cons_self _ _)⟩
    rw [if_pos (Or.inr slash), List.append_assoc, List.singleton_append, behind]
  · refine ⟨pieces directory, ?_, Or.inl rfl⟩
    rw [if_neg (not_or.2 ⟨given, slash⟩), behind]

theorem start_join (given : directory ≠ []) (t : FileTree) (name : Text) :
    t.start (join directory name) = t.start directory := by
  obtain ⟨c, rest, rfl⟩ := List.exists_cons_of_ne_nil given
  rw [start, start, join]
  split <;> rfl

theorem join_ne_nil (given : directory ≠ []) (name : Text) : join directory name ≠ [] := by
  rw [join]
  split <;> exact List.append_ne_nil_of_left_ne_nil given _

theorem notMem_zero_join (isFileName : IsFileName name) (noZero : '\x00' ∉ directory) :
    '\x00' ∉ join directory name := by
  rw [join]
  split
  · exact List.not_mem_append noZero isFileName.noZero
  · refine List.not_mem_append noZero ?_
    exact List.not_mem_cons_of_ne_of_not_mem (by decide) isFileName.noZero

/-- **A file can be written into a directory** unless a directory has its name. -/
theorem writable_join (isDirectory : t.isDirectory directory = true) (isFileName : IsFileName name)
    (shortName : t.isLongName name = false) (shortPath : t.isLongPath (join directory name) = false)
    (free : t.kind? (t.placeOf directory ++ [name]) ≠ some .directory) :
    t.Writable (join directory name) := by
  obtain ⟨noZero, given, -, route⟩ := isDirectory_iff.1 isDirectory
  obtain ⟨above, whole, isDirectory⟩ := exists_pieces_join isFileName given
  have last : lastPiece (join directory name) = name := by
    rw [lastPiece, whole, List.getLast?_concat, Option.getD_some]
  -- A slash at the end of the directory asks for nothing new.
  have passable : t.Passable [] (t.start directory ++ above) := by
    rcases isDirectory with same | same
    · rwa [same] at route
    · rw [same, ← List.append_assoc] at route
      exact (passable_append_iff.1 route).1
  exact {
    noZero := notMem_zero_join isFileName noZero
    given := join_ne_nil given name
    shortPath := shortPath
    above := by rwa [routeAbove, start_join given, whole, List.dropLast_concat]
    named := by rw [last]; exact isFileName.plain
    shortName := by rw [last]; exact shortName
    free := by rw [isFileName.placeOf_join]; exact free }

/-- **A directory is fresh**: it is there or can be made, and then nothing is in it. -/
def IsFresh (t : FileTree) (directory : Text) : Prop :=
  ∃ s, makeDirectories directory t = .ok () s ∧ s.childrenOf directory = []

end FileTree

open Docblock.Path (join)
open FileTree (mem_childrenOf_iff nodup_childrenOf)

variable {t s : FileTree} {directory file : Text} {page : Page} {pages : List Page}
  {format : Format} {bytes : List UInt8}

/-! ## Pages in an empty directory -/

/-- **Nothing hinders a page in an empty directory** where names and paths may have any length. -/
theorem canBeWritten_of_childrenOf_eq_nil (isDirectory : t.isDirectory directory = true)
    (empty : t.childrenOf directory = []) (unbounded : t.unbounded = true)
    (isFileName : IsFileName page.fileName) : page.CanBeWritten t directory := by
  rw [canBeWritten_iff, Page.path]
  refine FileTree.writable_join isDirectory isFileName ?_ ?_ fun there => ?_
  · rw [FileTree.isLongName, unbounded]
    rfl
  · rw [FileTree.isLongPath, unbounded]
    rfl
  · have inside := (mem_childrenOf_iff isDirectory).2 ⟨_, there⟩
    rw [empty] at inside
    exact absurd inside List.not_mem_nil

/-- **An empty directory holds the pages that are written into it**, and no other file. -/
theorem PagesIn.childrenOf_perm (written : PagesIn t s directory pages)
    (isDirectory : t.isDirectory directory = true) (empty : t.childrenOf directory = [])
    (isFileName : ∀ page ∈ pages, IsFileName page.fileName)
    (differ : (pages.map (·.fileName)).Nodup) :
    (s.childrenOf directory).Perm (pages.map (·.fileName)) := by
  have same := written.sameDirectories
  have isDirectory' := (same.isDirectory_eq directory).trans isDirectory
  refine (List.perm_ext_iff_of_nodup (nodup_childrenOf isDirectory') differ).2 fun name => ?_
  rw [mem_childrenOf_iff isDirectory', FileTree.placeOf_congr same.working, List.mem_map]
  constructor
  · -- What is no page would have been in the directory before.
    rintro ⟨kind, here⟩
    by_contra other
    rw [written.kind?_other] at here
    · have inside := (mem_childrenOf_iff isDirectory).2 ⟨kind, here⟩
      rw [empty] at inside
      exact absurd inside List.not_mem_nil
    · intro page isPage place
      rw [Page.path, (isFileName page isPage).placeOf_join] at place
      exact other ⟨page, isPage, (List.cons.inj (List.append_cancel_left place)).1.symm⟩
  · rintro ⟨page, isPage, rfl⟩
    have here := written.kind?_page page isPage
    rw [Page.path, (isFileName page isPage).placeOf_join] at here
    exact ⟨_, here⟩

/-- The files of pages hold the bytes of the pages. -/
theorem PagesIn.map_contents (written : PagesIn t s directory pages) :
    pages.map (fun page => s.contents (page.path directory)) =
      (pages.map Page.bytes).map .ok := by
  rw [List.map_map]
  exact List.map_congr_left fun page isPage => written.contents_eq isPage

/-- Pages that are printed one behind the other are their bytes. -/
theorem encode_flatMap_contents (pages : List Page) :
    Utf8.encode (pages.flatMap (·.contents)) = (pages.map Page.bytes).flatten := by
  rw [Utf8.encode, List.flatMap_assoc, List.flatMap_def]
  rfl

/-! ## Warnings -/

/-- The warnings of a run. -/
def Outcome.warnings (o : Outcome) : List Event := o.events.filter (·.level = .warn)

/-- What is met while a block is read is no warning. -/
theorem level_ne_of_mem_ofBlock {block : Block} {e : Event} (reported : e ∈ Event.ofBlock block) :
    e.level ≠ .warn := by
  cases block with
  | broken d =>
    obtain rfl := List.mem_singleton.1 reported
    exact nofun
  | entry entry =>
    rw [Event.ofBlock, List.mem_append, List.mem_append] at reported
    rcases reported with (link | item) | last
    · split at link
      · obtain rfl := List.mem_singleton.1 link
        exact nofun
      · exact nomatch link
    · obtain rfl := List.mem_singleton.1 item
      exact nofun
    · obtain ⟨d, -, rfl⟩ := List.mem_map.1 last
      exact nofun

/-- **The warnings of a source** are its diagnostics. -/
theorem filter_ofSource (file : Option Text) (source : Text) :
    (Event.ofSource file source).filter (·.level = .warn) =
      (sourceFaults source).map (Event.fault file) := by
  have met : ((Block.ofSource source).flatMap Event.ofBlock).filter (·.level = .warn) = [] := by
    refine List.filter_eq_nil_iff.2 fun e reported => ?_
    obtain ⟨block, -, reported⟩ := List.mem_flatMap.1 reported
    rw [decide_eq_true_eq]
    exact level_ne_of_mem_ofBlock reported
  have told : ((sourceFaults source).map (Event.fault file)).filter (·.level = .warn) =
      (sourceFaults source).map (Event.fault file) := by
    refine List.filter_eq_self.2 fun e reported => ?_
    obtain ⟨d, -, rfl⟩ := List.mem_map.1 reported
    rfl
  rw [Event.ofSource, List.filter_append, met, List.nil_append]
  exact told

/-- Other names for pages are no warnings. -/
theorem filter_renamings (format : Format) (d : Document) :
    (renamings format d).filter (·.level = .warn) = [] := by
  refine List.filter_eq_nil_iff.2 fun e reported => ?_
  cases format with
  | json => exact nomatch reported
  | html =>
    obtain ⟨⟨l, name⟩, -, isEvent⟩ := List.mem_filterMap.1 reported
    simp only at isEvent
    split at isEvent
    · exact nomatch isEvent
    · obtain rfl := Option.some.inj isEvent
      exact nofun

/-- Pages are written without a warning. -/
theorem filter_writeEach (t : FileTree) (directory : Text) (pages : List Page) :
    (writeEach t directory pages).2.1.filter (·.level = .warn) = [] := by
  induction pages generalizing t with
  | nil => rfl
  | cons page pages ih =>
    rw [writeEach]
    cases FileTree.write (join directory page.fileName) (Utf8.encode page.contents) t with
    | error fault s => rfl
    | ok _ s => exact (List.filter_cons_of_neg Bool.false_ne_true).trans (ih s)

theorem warnings_runOnInput (format : Format) (bytes : List UInt8) (t : FileTree) :
    (runOnInput format bytes t).warnings =
      (sourceFaults (Utf8.decode bytes)).map (Event.fault none) := by
  rw [Outcome.warnings, runOnInput]
  simp only [List.filter_append, filter_ofSource, filter_renamings, List.append_nil]

/-- A diagnostic of a file is shown with the name of the file behind it. -/
theorem line_fault (file : Text) (d : Diagnostic) :
    (Event.fault (some file) d).line =
      (Event.fault none d).line ++ Event.fieldText ("file".toList, file) := by
  rw [Event.line, Event.line]
  exact (congrArg _ (List.append_nil _)).trans (congrArg (· ++ _) (List.append_nil _).symm)

/-- Diagnostics are shown with the name of the file behind each of them. -/
theorem shown_map_fault (threshold : Threshold) (file : Text) (faults : List Diagnostic) :
    Log.shown threshold (faults.map (Event.fault (some file))) =
      (Log.shown threshold (faults.map (Event.fault none))).map
        (· ++ Event.fieldText ("file".toList, file)) := by
  simp only [Log.shown, List.filter_map, List.map_map]
  exact List.map_congr_left fun d _ => line_fault file d

/-! ## Runs on one file -/

/-- A file that is named by its path is selected alone, and its path is not taken for a pattern. -/
theorem Inputs.select_singleton (isFile : t.isFile file = true) :
    select t [file] = [file] ∧ patternFaults t [file] = [] := by
  have alone : named t file = [file] := by rw [named, if_pos isFile]
  have plain : patternFault? t file = none := by rw [patternFault?, isFile]; rfl
  constructor
  · rw [select, List.flatMap_singleton, alone]
    rfl
  · rw [patternFaults, List.filterMap_cons, plain]
    rfl

theorem addFiles_singleton (held : t.contents file = .ok bytes) (d : Document) :
    addFiles t d [file] = (d.recordSource (Utf8.decode bytes),
      .reading file :: Event.ofSource (some file) (Utf8.decode bytes)) := by
  simp only [addFiles, addFile, held, List.append_nil]

/-- **A run on the standard input agrees with a run on a file** that holds the same source: both
succeed, what the first one prints is what the files of the pages hold, in the order of the pages,
these files are all that is in the directory, and the warnings of both runs are the diagnostics of
the source, which the second one shows with the name of the file. -/
structure RunsAgree (format : Format) (source file directory : Text) (onInput onFile : Outcome) :
    Prop where
  succeed : onInput.ending.exitCode = 0 ∧ onFile.ending.exitCode = 0
  printed : ∃ files : List (List UInt8),
    (format.pages (Document.empty.recordSource source)).map
        (fun page => onFile.tree.contents (page.path directory)) = files.map .ok ∧
      Utf8.encode onInput.printed = files.flatten
  childrenOf : (onFile.tree.childrenOf directory).Perm
    ((format.pages (Document.empty.recordSource source)).map (·.fileName))
  warnings : onInput.warnings = (sourceFaults source).map (.fault none) ∧
    onFile.warnings = (sourceFaults source).map (.fault (some file))
  shown : ∀ threshold, Log.shown threshold onFile.warnings =
    (Log.shown threshold onInput.warnings).map (· ++ Event.fieldText ("file".toList, file))

/-- A run on a file reads it and writes the pages of what it says. -/
theorem runOnFiles_singleton (held : t.contents file = .ok bytes) (format : Format)
    (directory : Text) :
    let d := Document.empty.recordSource (Utf8.decode bytes)
    let written := writePages t directory (format.pages d)
    (runOnFiles format directory [file] t).ending =
        (written.1.map Ending.failure).getD .success ∧
      (runOnFiles format directory [file] t).tree = written.2.2 ∧
      (runOnFiles format directory [file] t).warnings =
        (sourceFaults (Utf8.decode bytes)).map (Event.fault (some file)) ++
          written.2.1.filter (·.level = .warn) := by
  obtain ⟨alone, plain⟩ := Inputs.select_singleton (FileTree.isFile_of_contents held)
  have reading : [Event.reading file].filter (·.level = .warn) = [] := rfl
  have rendered (count : Nat) : [Event.rendered format count].filter (·.level = .warn) = [] := rfl
  refine ⟨?_, ?_, ?_⟩
  · simp only [runOnFiles, alone, addFiles_singleton held]
  · simp only [runOnFiles, alone, addFiles_singleton held]
  · rw [Outcome.warnings]
    simp only [runOnFiles, alone, plain, addFiles_singleton held, List.map_nil, List.nil_append]
    rw [← List.singleton_append]
    simp only [List.filter_append, filter_ofSource, filter_renamings, reading, rendered,
      List.append_nil, List.nil_append]

/-- **Pages are written into a fresh directory**, all of them and without a warning. -/
theorem exists_pagesIn_writePages (format : Format) (d : Document) (fresh : t.IsFresh directory)
    (unbounded : t.unbounded = true) :
    ∃ s, s.isDirectory directory = true ∧ s.childrenOf directory = [] ∧
      PagesIn s (writePages t directory (format.pages d)).2.2 directory (format.pages d) ∧
      (writePages t directory (format.pages d)).1 = none ∧
      (writePages t directory (format.pages d)).2.1.filter (·.level = .warn) = [] := by
  obtain ⟨s, made, empty⟩ := fresh
  have isDirectory := FileTree.isDirectory_of_makeDirectories made
  have unbounded' : s.unbounded = true := by
    have more := FileTree.moreDirectories_makeDirectories directory t
    rw [made] at more
    exact more.unbounded.trans unbounded
  obtain ⟨k, written, stops⟩ := exists_pagesIn_writeEach s (nodup_places format d directory s)
  have quiet := filter_writeEach s directory (format.pages d)
  simp only [writePages, made]
  generalize writeEach s directory (format.pages d) = result at written stops quiet ⊢
  obtain ⟨failure, events, u⟩ := result
  cases stops with
  | finished all =>
    rw [all, List.take_length] at written
    exact ⟨s, isDirectory, empty, written, rfl, quiet⟩
  | stopped isPage hindered =>
    -- Nothing is there that could hinder a page.
    refine absurd ?_ hindered
    exact canBeWritten_of_childrenOf_eq_nil isDirectory empty unbounded'
      (Format.isFileName_of_mem_pages (List.mem_of_getElem? isPage))

/-- **Runs on the standard input agree with runs on a file** that holds the same bytes, in the same
format, if the pages are written into a fresh directory and names and paths may have any length. -/
theorem runs_agree {arguments arguments' : List Text} {a a' : Arguments}
    (parsed : Arguments.ofList arguments = .ok a) (noFile : a.files = [])
    (known : Format.ofName? a.formatName = some format)
    (parsed' : Arguments.ofList arguments' = .ok a') (given : a'.files = [file])
    (output : a'.output = some directory) (known' : Format.ofName? a'.formatName = some format)
    (held : t.contents file = .ok bytes) (fresh : t.IsFresh directory)
    (unbounded : t.unbounded = true) (input : List UInt8) :
    RunsAgree format (Utf8.decode bytes) file directory (run arguments bytes t)
        (run arguments' input t) ∧
      (run arguments bytes t).tree = t := by
  have given' : a'.files ≠ [] := by
    rw [given]
    exact List.cons_ne_nil _ _
  rw [run_of_files_eq_nil parsed known noFile, run_of_output parsed' known' given' output, given]
  obtain ⟨ending, tree, warnings⟩ := runOnFiles_singleton held format directory
  obtain ⟨s, isDirectory, empty, written, finished, quiet⟩ := exists_pagesIn_writePages format
    (Document.empty.recordSource (Utf8.decode bytes)) fresh unbounded
  rw [finished] at ending
  rw [quiet, List.append_nil] at warnings
  rw [← tree] at written
  have warnings' := warnings_runOnInput format bytes t
  refine ⟨?_, rfl⟩
  exact {
    succeed := ⟨rfl, by rw [ending]; rfl⟩
    printed := ⟨_, written.map_contents, encode_flatMap_contents _⟩
    childrenOf := written.childrenOf_perm isDirectory empty
      (fun page => Format.isFileName_of_mem_pages) (format.nodup_fileNames _)
    warnings := ⟨warnings', warnings⟩
    shown := fun threshold => by rw [warnings, warnings', shown_map_fault] }

/-- A class on the standard input, and in a file whose pages are written into a new directory. -/
theorem runs_agree_on_class :
    let t : FileTree := { classTree with unbounded := true }
    let bytes := Utf8.encode "/*: class A */".toList
    RunsAgree .html (Utf8.decode bytes) "a.h".toList "out".toList (run [] bytes t)
        (run (outputOptions ++ ["a.h".toList]) [] t) ∧
      (run [] bytes t).tree = t := by
  have fresh : FileTree.IsFresh { classTree with unbounded := true } "out".toList :=
    ⟨_, rfl, by decide +kernel⟩
  have parsed : Arguments.ofList [] = .ok {} := by decide +kernel
  have parsed' : Arguments.ofList (outputOptions ++ ["a.h".toList]) =
      .ok { files := ["a.h".toList], output := some "out".toList } := by decide +kernel
  have known : Format.ofName? (Arguments.formatName {}) = some .html := by decide +kernel
  have held : FileTree.contents { classTree with unbounded := true } "a.h".toList =
      .ok (Utf8.encode "/*: class A */".toList) := by decide +kernel
  exact runs_agree parsed rfl known parsed' rfl rfl known held fresh rfl []

end Docblock
