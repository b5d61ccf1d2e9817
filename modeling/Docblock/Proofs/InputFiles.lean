import Docblock.Proofs.InputOrder
import Docblock.Proofs.NamedPaths
import Mathlib.Data.List.Nodup

/-!
# The files that are read

One file can be named in several ways: by its path, through a directory that holds it, and through a
pattern. Paths with the same components are selected once, so a file is read once for each list of
components under which it is named. Two such lists lead to the same file if they lead to the same
place, and they can: a path may start in the root, with a dot or with a name, and it may go up and
down again. Among paths that start alike and never go up each file is read once.

## Main definitions

* `Inputs.filesRead`: the files that are read, by their locations
* `Path.lead`: what a path starts with, in front of all names

## Main results

* `nodup_filesRead_iff`: when no file is read twice
* `nodup_filesRead_of_direct`: paths that start alike and never go up
* `nodup_filesRead_of_plain`: arguments that are alike absolute or relative and have no dots
* `files_read_once`: the document of a run is that of the files that are read
* `filesRead_here_eq`: a file that is named alone and through the working directory is read twice
-/

namespace Docblock

open Docblock.Path (Component components placeFrom)

namespace Path

variable {path : Text}

/-- What a path starts with in front of all names: the root, a dot, or nothing. -/
def lead (path : Text) : List Component := (components path).filter (!·.isStep)

/-- The components of a path are what it starts with, and its steps. -/
theorem components_eq (path : Text) :
    components path = lead path ++ (components path).filter Component.isStep := by
  have noStep : (steps (pieces path)).filter (!·.isStep) = [] :=
    List.filter_eq_nil_iff.2 fun c inside => by simp [isStep_of_mem_steps inside]
  rw [filter_isStep_components, lead]
  unfold components
  rw [List.filter_append, ← steps, noStep, List.append_nil]
  split
  · rfl
  · split <;> rfl

/-- A path that never goes up has names alone behind its start. -/
theorem exists_names (direct : .up ∉ components path) :
    ∃ names : List Text, components path = lead path ++ names.map .name := by
  have onlyNames {route : List Component} (steps : ∀ c ∈ route, c.isStep = true)
      (direct : .up ∉ route) : ∃ names : List Text, route = names.map .name := by
    induction route with
    | nil => exact ⟨[], rfl⟩
    | cons c route ih =>
      obtain ⟨isStep, others⟩ := List.forall_mem_cons.1 steps
      rw [List.mem_cons, not_or] at direct
      obtain ⟨names, rfl⟩ := ih others direct.2
      cases c with
      | root => exact nomatch isStep
      | here => exact nomatch isStep
      | up => exact absurd rfl direct.1
      | name n => exact ⟨n :: names, rfl⟩
  obtain ⟨names, same⟩ := onlyNames (fun c inside => (List.mem_filter.1 inside).2)
    fun up => direct (List.mem_filter.1 up).1
  exact ⟨names, (components_eq path).trans (congrArg _ same)⟩

theorem Downward.lead_eq {absolute : Bool} (downward : Downward absolute path) :
    lead path = base absolute := by
  obtain ⟨names, same⟩ := downward
  rw [lead, same]
  cases absolute <;> simp [base, Component.isStep]

theorem Downward.up_notMem {absolute : Bool} (downward : Downward absolute path) :
    .up ∉ components path := by
  obtain ⟨names, same⟩ := downward
  rw [same]
  cases absolute <;> simp [base]

/-- Where names lead. -/
theorem placeFrom_names (l : Location) (names : List Text) :
    placeFrom l (names.map .name) = l ++ names := by
  induction names generalizing l with
  | nil => exact (List.append_nil l).symm
  | cons n names ih =>
    rw [List.map_cons, List.append_cons, ← ih]
    rfl

end Path

namespace FileTree

variable {t : FileTree} {path other : Text}

/-- **Paths that start alike and never go up** have the same components if they lead to the same
place. -/
theorem components_eq_of_placeOf_eq (alike : Path.lead path = Path.lead other)
    (direct : .up ∉ components path) (direct' : .up ∉ components other)
    (same : t.placeOf path = t.placeOf other) : components path = components other := by
  obtain ⟨names, isPath⟩ := Path.exists_names direct
  obtain ⟨names', isOther⟩ := Path.exists_names direct'
  rw [placeOf, placeOf, isPath, isOther, alike, placeFrom_append, placeFrom_append,
    Path.placeFrom_names, Path.placeFrom_names] at same
  rw [isPath, isOther, alike, List.append_cancel_left same]

end FileTree

namespace Inputs

variable {t : FileTree} {files : List Text}

/-- The files that are read of those that arguments name, by their locations. -/
def filesRead (t : FileTree) (files : List Text) : List Location :=
  ((select t files).filter (t.isFile ·)).map t.placeOf

/-- Paths that are selected with the same components are one. -/
theorem eq_of_mem_select {p q : Text} (first : p ∈ select t files) (second : q ∈ select t files)
    (same : components p = components q) : p = q := by
  rw [mem_select_iff] at first second
  rw [same, second] at first
  exact (Option.some.inj first).symm

/-- **No file is read twice** exactly if no two selected paths lead to one file. -/
theorem nodup_filesRead_iff :
    (filesRead t files).Nodup ↔
      ∀ p ∈ select t files, ∀ q ∈ select t files, t.isFile p = true → t.isFile q = true →
        t.placeOf p = t.placeOf q → components p = components q := by
  have nodup : ((select t files).filter (t.isFile ·)).Nodup := by
    refine List.Nodup.filter _ ((pairwise_select t files).imp fun before same => ?_)
    rw [same, Key.before_irrefl] at before
    exact nomatch before
  rw [filesRead, List.nodup_map_iff_inj_on nodup]
  constructor
  · intro injective p first q second isFile isFile' same
    exact congrArg components (injective p (List.mem_filter.2 ⟨first, isFile⟩) q
      (List.mem_filter.2 ⟨second, isFile'⟩) same)
  · intro injective p first q second same
    obtain ⟨first, isFile⟩ := List.mem_filter.1 first
    obtain ⟨second, isFile'⟩ := List.mem_filter.1 second
    exact eq_of_mem_select first second (injective p first q second isFile isFile' same)

/-- The bytes of the file at a location; there are none where there is no file. -/
def bytesAt (t : FileTree) (l : Location) : List UInt8 :=
  match t.node? l with
  | some (.file bytes) => bytes
  | _ => []

/-- What is read of selected paths is what the files at their places hold. -/
theorem filterMap_bytes?_select (t : FileTree) (files : List Text) :
    (select t files).filterMap (bytes? t) = (filesRead t files).map (bytesAt t) := by
  rw [filesRead, List.map_map]
  induction select t files with
  | nil => rfl
  | cons path paths ih =>
    rw [List.filterMap_cons, List.filter_cons, ih]
    cases isFile : t.isFile path with
    | true =>
      obtain ⟨bytes, read, here⟩ := FileTree.contents_of_isFile isFile
      rw [bytes?, read, if_pos rfl, List.map_cons, Function.comp_apply, bytesAt, here]
      rfl
    | false =>
      rw [bytes?_eq_none isFile, if_neg Bool.false_ne_true]

/-- Among paths that start alike and never go up each file is read once. -/
theorem nodup_filesRead_of_direct
    (alike : ∀ p ∈ select t files, ∀ q ∈ select t files, Path.lead p = Path.lead q)
    (direct : ∀ p ∈ select t files, .up ∉ components p) : (filesRead t files).Nodup :=
  nodup_filesRead_iff.2 fun p first q second _ _ => FileTree.components_eq_of_placeOf_eq
    (alike p first q second) (direct p first) (direct q second)

/-- **Plain arguments, all absolute or all relative,** lead to each file once: as itself, through
its directory, or through a pattern. -/
theorem nodup_filesRead_of_plain {absolute : Bool} (proper : t.ProperlyNamed)
    (plain : ∀ a ∈ files, Path.Plain a ∧ Path.isAbsolute a = absolute) :
    (filesRead t files).Nodup := by
  have downward : ∀ p ∈ select t files, Path.Downward absolute p := by
    intro p inside
    obtain ⟨a, isArgument, named⟩ := List.mem_flatMap.1
      (List.mem_of_find?_eq_some (mem_select_iff.1 inside))
    obtain ⟨isPlain, rfl⟩ := plain a isArgument
    exact downward_of_mem_named proper isPlain named
  -- All of them start in the root, or all in the working directory.
  refine nodup_filesRead_of_direct (fun p first q second => ?_)
    fun p inside => (downward p inside).up_notMem
  rw [(downward p first).lead_eq, (downward q second).lead_eq]

end Inputs

/-- **Files are read under their components.** Of the selected paths no two have the same
components, and each that leads to a file leads to the one at the place of its components. The
document of a run is that of these files, one after the other. No file comes into it twice exactly
if no two of the paths lead to one file, and so it is if they all start alike, in the root, with a
dot or with a name, and none goes up. Where no name in the tree is a dot, two dots or has a slash in
it, that is so for all arguments that are alike absolute or relative and of which no part starts
with a dot. -/
theorem files_read_once (t : FileTree) (files : List Text) :
    ((Inputs.select t files).map components).Nodup ∧
    (∀ p ∈ Inputs.select t files, t.isFile p = true →
      ∃ bytes, t.contents p = .ok bytes ∧ t.node? (t.placeOf p) = some (.file bytes)) ∧
    (addFiles t .empty (Inputs.select t files)).1 = (Inputs.filesRead t files).foldl
      (fun d l => d.recordSource (Utf8.decode (Inputs.bytesAt t l))) .empty ∧
    ((Inputs.filesRead t files).Nodup ↔
      ∀ p ∈ Inputs.select t files, ∀ q ∈ Inputs.select t files, t.isFile p = true →
        t.isFile q = true → t.placeOf p = t.placeOf q → components p = components q) ∧
    ((∀ p ∈ Inputs.select t files, ∀ q ∈ Inputs.select t files, Path.lead p = Path.lead q) →
      (∀ p ∈ Inputs.select t files, .up ∉ components p) → (Inputs.filesRead t files).Nodup) ∧
    (t.ProperlyNamed → ∀ absolute,
      (∀ a ∈ files, Path.Plain a ∧ Path.isAbsolute a = absolute) →
      (Inputs.filesRead t files).Nodup) := by
  refine ⟨?_, fun p _ => FileTree.contents_of_isFile, ?_, Inputs.nodup_filesRead_iff,
    Inputs.nodup_filesRead_of_direct, fun proper _ => Inputs.nodup_filesRead_of_plain proper⟩
  · rw [List.Nodup, List.pairwise_map]
    exact (Inputs.pairwise_select t files).imp Key.ne_of_before
  · rw [addFiles_fst, Inputs.filterMap_bytes?_select, List.foldl_map]

/-- A tree with a file, and with another one in a directory. -/
def nestedTree : FileTree :=
  (classTree.place [] "src".toList .directory).place ["src".toList] "a.h".toList (.file [])

/-- A file that is named alone, through its directory and through a pattern is read once. -/
example :
    Inputs.filesRead nestedTree ["src/*.h".toList, "src/a.h".toList, "src".toList] =
      [["src".toList, "a.h".toList]] := by
  decide +kernel

/-- **A file that is named alone and through the working directory** is read twice: the paths start
with a dot and with a name. So what is said of its class is recorded twice. -/
theorem filesRead_here_eq :
    let arguments := [".".toList, "a.h".toList]
    Inputs.select classTree arguments = ["./a.h".toList, "a.h".toList] ∧
      Inputs.filesRead classTree arguments = [["a.h".toList], ["a.h".toList]] ∧
      ((addFiles classTree .empty (Inputs.select classTree arguments)).1.item?
        (.classNamed "A".toList)).map (·.notes.attributes.length) = some 2 := by
  refine ⟨?_, ?_, ?_⟩ <;> decide +kernel

end Docblock
