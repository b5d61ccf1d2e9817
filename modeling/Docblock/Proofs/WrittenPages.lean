import Docblock.Proofs.InputOrder
import Docblock.Proofs.MadeDirectories
import Docblock.Proofs.NamedPaths
import Docblock.Proofs.PageNames

/-!
# What a run writes

A run on files makes the output directory and writes the pages into it, one after the other, up to
the first one that cannot be written. The pages have different names and lie in one directory, so
none of them takes the place of another one, and whether one can be written does not depend on
those before it. All other files stay as they are.

## Main definitions

* `Page.path`: the path of a page in a directory
* `Page.CanBeWritten`: a page can be written into a directory of a tree
* `PagesIn`: what a tree is made of another one by writing pages
* `Effects`: how a run ends that writes pages, and what it leaves

## Main results

* `Format.isFileName_of_mem_pages`, `Format.nodup_fileNames`: the names of the pages of a document
* `exists_pagesIn_writeEach`: pages are written up to the first that cannot be written
* `effects_runOnFiles`: the three ways in which writing pages ends
* `run_effects`: what runs change
-/

namespace Docblock

open Docblock.Path (join LeadsDown components_join)

/-! ## The names of pages -/

/-- A name of a file: it is a single piece of a path, and neither empty nor made of dots alone. -/
structure IsFileName (name : Text) : Prop where
  noSlash : '/' ∉ name
  noZero : '\x00' ∉ name
  plain : FileTree.isSpecialPiece name = false

namespace Format

variable {d : Document} {name : Text}

/-- **The pages of a document have the names of files.** -/
theorem isFileName_of_mem_pages {format : Format} {page : Page} (inside : page ∈ format.pages d) :
    IsFileName page.fileName := by
  have isFileName {name : Text} (chars : ∀ c ∈ name, isAnchorChar c = true)
      (suffix : ".html".toList <:+ name) : IsFileName name := by
    refine ⟨fun slash => ?_, fun zero => ?_, ?_⟩
    · exact nomatch chars _ slash
    · exact nomatch chars _ zero
    · have long := suffix.length_le
      rw [FileTree.isSpecialPiece, decide_eq_false_iff_not]
      rintro (rfl | rfl | rfl) <;> exact absurd long (by decide)
  cases format with
  | json =>
    obtain rfl := List.mem_singleton.1 inside
    exact (⟨by decide, by decide, rfl⟩ : IsFileName "index.json".toList)
  | html =>
    have listed : page.fileName ∈ (Html.pages d).map (·.fileName) := List.mem_map_of_mem inside
    rw [Html.map_fileName_pages] at listed
    rcases List.mem_cons.1 listed with isIndex | listed
    · rw [isIndex]
      exact ⟨by decide, by decide, rfl⟩
    · obtain ⟨chars, suffix⟩ := (Html.assignedAll_assignNames _).isFileName listed
      exact isFileName chars suffix

/-- **No two pages of a document have the same name.** -/
theorem nodup_fileNames (format : Format) (d : Document) :
    ((format.pages d).map (·.fileName)).Nodup := by
  cases format with
  | json => exact List.nodup_singleton _
  | html =>
    have all := Html.assignedAll_assignNames ((Html.namedClasses d).map (·.item.name))
    have differ := all.pairwise (List.pairwise_singleton _ _)
    rw [pages, Html.map_fileName_pages]
    refine differ.imp fun {a b} different same => ?_
    rw [Html.differ_iff, same] at different
    exact different rfl

end Format

/-! ## Pages in a directory -/

/-- The path of a page in a directory. -/
def Page.path (directory : Text) (page : Page) : Text := join directory page.fileName

/-- The bytes of a page. -/
def Page.bytes (page : Page) : List UInt8 := Utf8.encode page.contents

/-- A page can be written into a directory of a tree. -/
def Page.CanBeWritten (t : FileTree) (directory : Text) (page : Page) : Prop :=
  ∃ s, FileTree.write (page.path directory) page.bytes t = .ok () s

variable {t s : FileTree} {directory name : Text} {page : Page} {pages : List Page}

/-- A name lies in the directory that it is joined to. -/
theorem IsFileName.placeOf_join (isFileName : IsFileName name) (t : FileTree) (directory : Text) :
    t.placeOf (join directory name) = t.placeOf directory ++ [name] := by
  have special := isFileName.plain
  have leadsDown : LeadsDown name := by
    refine ⟨isFileName.noSlash, ?_, ?_⟩
    · rintro rfl
      exact nomatch special
    · rintro rfl
      exact nomatch special
  rw [FileTree.placeOf, components_join leadsDown, FileTree.placeFrom_append,
    FileTree.ofPiece?_of_named special]
  rfl

theorem canBeWritten_iff : page.CanBeWritten t directory ↔ t.Writable (page.path directory) := by
  rw [Page.CanBeWritten, FileTree.write, FileTree.change]
  constructor
  · rintro ⟨s, written⟩
    split at written
    · rename_i s' withFile
      exact (FileTree.withFile_eq_ok_iff.1 withFile).1
    · cases written
  · intro writable
    rw [FileTree.withFile_eq_ok_iff.2 ⟨writable, rfl⟩]
    exact ⟨_, rfl⟩

/-- **Pages are in a directory**: each has its bytes under its name, and all other files and
directories are as they are in the tree that the pages have been written into. -/
structure PagesIn (t s : FileTree) (directory : Text) (pages : List Page) : Prop where
  sameDirectories : t.SameDirectories s
  writable : ∀ page ∈ pages, t.Writable (page.path directory)
  kind?_page : ∀ page ∈ pages,
    s.kind? (t.placeOf (page.path directory)) = some (.file page.bytes)
  kind?_other : ∀ l, (∀ page ∈ pages, l ≠ t.placeOf (page.path directory)) → s.kind? l = t.kind? l

theorem pagesIn_nil (t : FileTree) (directory : Text) : PagesIn t t directory [] :=
  ⟨t.sameDirectories_refl, nofun, nofun, fun _ _ => rfl⟩

/-- **A page is written in front of others** that have other names. -/
theorem PagesIn.cons {u : FileTree} (written : t.withFile (page.path directory) page.bytes = .ok s)
    (others : PagesIn s u directory pages)
    (apart : ∀ other ∈ pages, t.placeOf (page.path directory) ≠ t.placeOf (other.path directory)) :
    PagesIn t u directory (page :: pages) := by
  have here := FileTree.kind?_of_withFile written
  have same := FileTree.sameDirectories_of_withFile written
  refine ⟨same.trans others.sameDirectories, ?_, ?_, fun l away => ?_⟩
  · refine List.forall_mem_cons.2 ⟨(FileTree.withFile_eq_ok_iff.1 written).1, ?_⟩
    exact fun other inside =>
      (FileTree.writable_iff_of_sameDirectories same).1 (others.writable other inside)
  · refine List.forall_mem_cons.2 ⟨?_, fun other inside => ?_⟩
    · -- No later page takes the place of this one.
      rw [others.kind?_other, here, if_pos rfl]
      intro other inside
      rw [FileTree.placeOf_congr same.working]
      exact apart other inside
    · rw [← FileTree.placeOf_congr same.working]
      exact others.kind?_page other inside
  · obtain ⟨first, away⟩ := List.forall_mem_cons.1 away
    rw [others.kind?_other, here, if_neg first]
    intro other inside
    rw [FileTree.placeOf_congr same.working]
    exact away other inside

/-- **Each page can be read** where the pages are. -/
theorem PagesIn.contents_eq (written : PagesIn t s directory pages) (inside : page ∈ pages) :
    s.contents (page.path directory) = .ok page.bytes := by
  refine FileTree.contents_of_writable ?_ ?_
  · exact (FileTree.writable_iff_of_sameDirectories written.sameDirectories).2
      (written.writable page inside)
  · rw [FileTree.placeOf_congr written.sameDirectories.working]
    exact written.kind?_page page inside

/-- **No page of a document takes the place of another one.** -/
theorem nodup_places (format : Format) (d : Document) (directory : Text) (t : FileTree) :
    ((format.pages d).map fun page => t.placeOf (page.path directory)).Nodup := by
  have names := List.pairwise_map.1 (format.nodup_fileNames d)
  refine List.pairwise_map.2 (names.imp_of_mem fun {first second} isFirst isSecond => ?_)
  rw [Page.path, Page.path, (Format.isFileName_of_mem_pages isFirst).placeOf_join,
    (Format.isFileName_of_mem_pages isSecond).placeOf_join]
  intro different same
  exact different (List.cons.inj (List.append_cancel_left same)).1

/-! ## Writing pages -/

/-- Where writing pages stops: behind the last one, or at one that cannot be written. -/
inductive StopsWriting (t : FileTree) (directory : Text) (pages : List Page) (k : Nat) :
    Option Failure → Prop
  | finished (all : k = pages.length) : StopsWriting t directory pages k none
  | stopped {page : Page} {fault : FileFault} (isPage : pages[k]? = some page)
      (hindered : ¬ page.CanBeWritten t directory) :
      StopsWriting t directory pages k (some (.unwritable (page.path directory) fault))

/-- **Behind a page that has been written** the others stop where they would have stopped before. -/
theorem StopsWriting.cons {k : Nat} {failure : Option Failure} (same : t.SameDirectories s)
    (stops : StopsWriting s directory pages k failure) :
    StopsWriting t directory (page :: pages) (k + 1) failure := by
  cases stops with
  | finished all => exact .finished (by rw [all, List.length_cons])
  | @stopped _ fault isPage hindered =>
    refine .stopped isPage fun before => hindered ?_
    rw [canBeWritten_iff] at before ⊢
    exact (FileTree.writable_iff_of_sameDirectories same).2 before

/-- **Pages are written up to the first that cannot be written**, in the tree in which the first one
is written. -/
theorem exists_pagesIn_writeEach (t : FileTree)
    (apart : (pages.map fun page => t.placeOf (page.path directory)).Nodup) :
    ∃ k, PagesIn t (writeEach t directory pages).2.2 directory (pages.take k) ∧
      StopsWriting t directory pages k (writeEach t directory pages).1 := by
  induction pages generalizing t with
  | nil => exact ⟨0, pagesIn_nil t directory, .finished rfl⟩
  | cons page pages ih =>
    rw [writeEach, FileTree.write, FileTree.change, ← Page.path, ← Page.bytes]
    cases written : t.withFile (page.path directory) page.bytes with
    | error fault =>
      refine ⟨0, pagesIn_nil t directory, .stopped rfl ?_⟩
      rw [canBeWritten_iff]
      intro writable
      rw [FileTree.withFile_eq_ok_iff.2 ⟨writable, rfl⟩] at written
      cases written
    | ok s =>
      have same := FileTree.sameDirectories_of_withFile written
      obtain ⟨first, apart⟩ := List.nodup_cons.1 apart
      -- The places of the others are the same in the tree with the first page.
      simp only [← FileTree.placeOf_congr same.working] at apart
      obtain ⟨k, others, stops⟩ := ih s apart
      refine ⟨k + 1, PagesIn.cons written others fun other inside taken => first ?_, stops.cons same⟩
      exact List.mem_map.2 ⟨other, List.mem_of_mem_take inside, taken.symm⟩

/-! ## Runs by their command lines -/

section Parsed

variable {arguments : List Text} {a : Arguments} {format : Format}
  (parsed : Arguments.ofList arguments = .ok a)

include parsed

theorem exists_run_of_refused
    (refused : Format.ofName? a.formatName = none ∨ a.files ≠ [] ∧ a.output = none)
    (input : List UInt8) (t : FileTree) :
    ∃ cause, run arguments input t = ⟨.failure cause, [], [], t⟩ := by
  rw [run, parsed]
  cases known : Format.ofName? a.formatName with
  | none => exact ⟨.unknownFormat a.formatName, by simp only [known]⟩
  | some format =>
    rw [known] at refused
    obtain ⟨given, none⟩ := refused.resolve_left (Option.some_ne_none format)
    exact ⟨.missingOutput, by simp only [known, if_neg given, none]⟩

theorem run_of_files_eq_nil (known : Format.ofName? a.formatName = some format)
    (none : a.files = []) (input : List UInt8) (t : FileTree) :
    run arguments input t = runOnInput format input t := by
  simp only [run, parsed, known, if_pos none]

theorem run_of_output (known : Format.ofName? a.formatName = some format) (given : a.files ≠ [])
    (output : a.output = some directory) (input : List UInt8) (t : FileTree) :
    run arguments input t = runOnFiles format directory a.files t := by
  simp only [run, parsed, known, if_neg given, output]

end Parsed

/-! ## The effects of a run -/

/-- What a tree is made of another one by writing pages into a directory that may have been made:
each page can be read, and everything that is not at the place of a page is as before, apart from
directories that have been made. -/
structure Leaves (t s : FileTree) (directory : Text) (pages : List Page) : Prop where
  contents_eq : ∀ page ∈ pages, s.contents (page.path directory) = .ok page.bytes
  kind?_other : ∀ l, (∀ page ∈ pages, l ≠ t.placeOf (page.path directory)) →
    s.kind? l = t.kind? l ∨ t.kind? l = none ∧ s.kind? l = some .directory

/-- **How a run ends that writes pages**, and what it leaves. The number that it gives back tells
whether all pages have been written; those in front of the first that cannot be have been. -/
inductive Effects (t : FileTree) (directory : Text) (pages : List Page) (o : Outcome) : Prop
  | unmade {s : FileTree} {fault : FileFault}
      (stops : FileTree.makeDirectories directory t = .error fault s)
      (code : o.ending.exitCode = 1) (leaves : Leaves t o.tree directory [])
  | stopped {s : FileTree} {page : Page} {k : Nat}
      (made : FileTree.makeDirectories directory t = .ok () s) (isPage : pages[k]? = some page)
      (before : ∀ page ∈ pages.take k, page.CanBeWritten s directory)
      (hindered : ¬ page.CanBeWritten s directory) (code : o.ending.exitCode = 1)
      (leaves : Leaves t o.tree directory (pages.take k))
  | finished {s : FileTree} (made : FileTree.makeDirectories directory t = .ok () s)
      (all : ∀ page ∈ pages, page.CanBeWritten s directory) (code : o.ending.exitCode = 0)
      (leaves : Leaves t o.tree directory pages)

theorem PagesIn.leaves {u : FileTree} (more : t.MoreDirectories s)
    (written : PagesIn s u directory pages) : Leaves t u directory pages where
  contents_eq page inside := written.contents_eq inside
  kind?_other l away := by
    rw [written.kind?_other l fun page inside => by
      rw [FileTree.placeOf_congr more.working]
      exact away page inside]
    exact more.kind?_cases l

/-- What the files that arguments name say, as far as they can be read. -/
def Inputs.document (t : FileTree) (files : List Text) : Document :=
  ((select t files).filterMap (bytes? t)).foldl
    (fun d bytes => d.recordSource (Utf8.decode bytes)) .empty

/-- **The three ways in which writing pages ends.** -/
theorem effects_runOnFiles (format : Format) (directory : Text) (files : List Text)
    (t : FileTree) :
    Effects t directory (format.pages (Inputs.document t files))
      (runOnFiles format directory files t) := by
  have document : (addFiles t .empty (Inputs.select t files)).1 = Inputs.document t files :=
    addFiles_fst t .empty (Inputs.select t files)
  have more := FileTree.moreDirectories_makeDirectories directory t
  simp only [runOnFiles, writePages, document]
  generalize Inputs.document t files = d
  cases made : FileTree.makeDirectories directory t with
  | error fault s =>
    rw [made] at more
    have nothing (page : Page) (inside : page ∈ []) :
        s.contents (page.path directory) = .ok page.bytes := absurd inside List.not_mem_nil
    exact .unmade made rfl ⟨nothing, fun l _ => more.kind?_cases l⟩
  | ok _ s =>
    rw [made] at more
    obtain ⟨k, written, stops⟩ := exists_pagesIn_writeEach s (nodup_places format d directory s)
    have leaves := written.leaves more
    simp only
    generalize writeEach s directory (format.pages d) = result at stops leaves
    obtain ⟨failure, events, u⟩ := result
    have before (page : Page) (inside : page ∈ (format.pages d).take k) :
        page.CanBeWritten s directory := canBeWritten_iff.2 (written.writable page inside)
    cases stops with
    | finished all =>
      rw [all, List.take_length] at before leaves
      exact .finished made before rfl leaves
    | stopped isPage hindered => exact .stopped made isPage before hindered rfl leaves

/-- A run that writes pages succeeds exactly if its directory can be made and all pages can be
written. -/
theorem Effects.exitCode_eq_zero_iff {o : Outcome} (effects : Effects t directory pages o) :
    o.ending.exitCode = 0 ↔ ∃ s, FileTree.makeDirectories directory t = .ok () s ∧
      ∀ page ∈ pages, page.CanBeWritten s directory := by
  cases effects with
  | unmade stops code leaves =>
    refine iff_of_false (by rw [code]; decide) ?_
    rintro ⟨s, made, -⟩
    exact nomatch stops.symm.trans made
  | @stopped s page k made isPage before hindered code leaves =>
    refine iff_of_false (by rw [code]; decide) ?_
    rintro ⟨s', made', all⟩
    obtain ⟨-, rfl⟩ := EStateM.Result.ok.inj (made.symm.trans made')
    exact hindered (all page (List.mem_of_getElem? isPage))
  | finished made all code leaves => exact iff_of_true code ⟨_, made, all⟩

/-- **What runs change.** A run whose command line is wrong changes nothing; neither does one that
asks for an unknown format or gives files without an output directory, which fails, nor one on its
standard input, which succeeds. A run on files changes nothing but the files of the pages that it
writes, apart from directories that it makes. It writes the pages in front of the first that cannot
be written, with all that they hold, and it succeeds exactly if its directory can be made and all
pages can be written, whatever is wrong with what it has read. -/
theorem run_effects (arguments : List Text) (input : List UInt8) (t : FileTree) :
    (∀ fault, Arguments.ofList arguments = .error fault → (run arguments input t).tree = t) ∧
    ∀ a, Arguments.ofList arguments = .ok a →
      (Format.ofName? a.formatName = none ∨ a.files ≠ [] ∧ a.output = none →
        (run arguments input t).ending.exitCode = 1 ∧ (run arguments input t).tree = t) ∧
      ∀ format, Format.ofName? a.formatName = some format →
        (a.files = [] →
          (run arguments input t).ending.exitCode = 0 ∧ (run arguments input t).tree = t) ∧
        ∀ directory, a.files ≠ [] → a.output = some directory →
          let pages := format.pages (Inputs.document t a.files)
          Effects t directory pages (run arguments input t) ∧
          ((run arguments input t).ending.exitCode = 0 ↔
            ∃ s, FileTree.makeDirectories directory t = .ok () s ∧
              ∀ page ∈ pages, page.CanBeWritten s directory) := by
  constructor
  · intro fault wrong
    rw [run, wrong]
    cases fault <;> rfl
  · intro a parsed
    refine ⟨?_, fun format known => ⟨fun none => ?_, fun directory given output => ?_⟩⟩
    · intro refused
      obtain ⟨cause, whole⟩ := exists_run_of_refused parsed refused input t
      rw [whole]
      exact ⟨rfl, rfl⟩
    · rw [run_of_files_eq_nil parsed known none]
      exact ⟨rfl, rfl⟩
    · rw [run_of_output parsed known given output]
      have effects := effects_runOnFiles format directory a.files t
      exact ⟨effects, effects.exitCode_eq_zero_iff⟩

-- A directory is in the way of the page of a class, but not of the index in front of it.
example :
    let t := FileAction.left (FileTree.makeDirectories "out/A.html".toList classTree)
    let o := run (outputOptions ++ ["a.h".toList]) [] t
    o.ending.exitCode = 1 ∧ (o.tree.contents "out/index.html".toList).isOk = true := by
  decide +kernel

end Docblock
