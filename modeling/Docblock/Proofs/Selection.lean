import Docblock.Proofs.Places
import Docblock.Run

/-!
# The paths that are selected

The paths that arguments name are put into a catalog under their components, so of some paths with
the same components one is selected, the one that is named first. An argument that leads to no file
and no directory names the files that it matches; only when there are none it is itself selected, as
a path that cannot be read.

## Main definitions

* `Inputs.firstOf`: of some paths the first one with given components
* `Inputs.bytes?`: the bytes of the file that a path leads to, if it leads to one

## Main results

* `mem_select_iff`: a path is selected if it is the first one with its components
* `pairwise_select`: selected paths are listed in the order of their components
* `named_of_not_isFile`: what is named and is no file is an argument that names nothing else
* `addFiles_fst`: the document of some paths is that of the files among them
-/

namespace Docblock

namespace Inputs

open Docblock.Path (Component components)

variable {t : FileTree} {paths files : List Text} {path argument : Text} {k : List Component}

/-! ## First paths -/

/-- Of some paths the first one with some components. -/
def firstOf (paths : List Text) (k : List Component) : Option Text :=
  paths.find? fun path => components path = k

theorem components_of_firstOf (found : firstOf paths k = some path) : components path = k :=
  of_decide_eq_true (List.find?_some (p := fun path => decide (components path = k)) found)

theorem exists_firstOf (inside : path ∈ paths) (has : components path = k) :
    ∃ first ∈ paths, firstOf paths k = some first := by
  cases found : firstOf paths k with
  | none =>
    have absent := List.find?_eq_none.1 found path inside
    simp [has] at absent
  | some first => exact ⟨first, List.mem_of_find?_eq_some found, rfl⟩

/-- **The first path with its components is kept.** -/
theorem get?_catalog (paths : List Text) (k : List Component) :
    (catalog paths).get? k = firstOf paths k := by
  -- The induction takes the catalog so far along: what is found there stays.
  have along (c : Catalog (List Component) Text) :
      (paths.foldl (fun c path => c.update (components path) (·.getD path)) c).get? k =
        (c.get? k).or (firstOf paths k) := by
    induction paths generalizing c with
    | nil => simp [firstOf]
    | cons path paths ih =>
      have next : firstOf (path :: paths) k =
          if components path = k then some path else firstOf paths k := by
        rw [firstOf, List.find?_cons]
        by_cases here : components path = k <;> simp [here, firstOf]
      rw [List.foldl_cons, ih, next]
      by_cases here : components path = k
      · subst here
        rw [Catalog.get?_update_self]
        cases c.get? (components path) <;> simp
      · rw [Catalog.get?_update_of_ne (Ne.symm here), if_neg here]
  rw [catalog, along, Catalog.get?_empty, Option.none_or]

theorem components_of_mem_catalog (listed : (k, path) ∈ (catalog paths).entries) :
    components path = k := by
  have found := Catalog.get?_eq_some_iff.2 listed
  rw [get?_catalog] at found
  exact components_of_firstOf found

/-- **A path is selected** if it is the first one with its components that is named. -/
theorem mem_select_iff :
    path ∈ select t files ↔ firstOf (files.flatMap (named t)) (components path) = some path := by
  rw [select, Catalog.values, List.mem_map]
  constructor
  · rintro ⟨⟨k, path'⟩, listed, rfl⟩
    obtain rfl := components_of_mem_catalog listed
    rw [← get?_catalog]
    exact Catalog.get?_eq_some_iff.2 listed
  · intro found
    rw [← get?_catalog] at found
    exact ⟨_, Catalog.get?_eq_some_iff.1 found, rfl⟩

/-- **Selected paths are listed in the order of their components**, so no two of them have the same
ones. -/
theorem pairwise_select (t : FileTree) (files : List Text) :
    (select t files).Pairwise fun p q => Key.before (components p) (components q) = true := by
  rw [select, Catalog.values, List.pairwise_map]
  refine (catalog _).ordered.imp_of_mem fun first second before => ?_
  rwa [components_of_mem_catalog first, components_of_mem_catalog second]

/-! ## Named paths -/

/-- Whatever is named and is no file is an argument that names nothing else. -/
theorem named_of_not_isFile (inside : path ∈ named t argument) (noFile : t.isFile path = false) :
    named t argument = [path] ∧ argument = path := by
  have isFile_of_mem_filter {l : List Text} (inside : path ∈ l.filter (t.isFile ·)) : False := by
    rw [(List.mem_filter.1 inside).2] at noFile
    exact nomatch noFile
  rw [named] at inside ⊢
  split at inside
  · rename_i isFile
    obtain rfl := List.mem_singleton.1 inside
    rw [isFile] at noFile
    exact nomatch noFile
  · rename_i notFile
    rw [if_neg notFile]
    split at inside
    · exact (isFile_of_mem_filter inside).elim
    · rename_i notDirectory
      rw [if_neg notDirectory]
      rw [matched] at inside ⊢
      split at inside
      · obtain rfl := List.mem_singleton.1 inside
        exact ⟨rfl, rfl⟩
      · simp only at inside ⊢
        split at inside
        · rename_i none
          obtain rfl := List.mem_singleton.1 inside
          rw [if_pos none]
          exact ⟨rfl, rfl⟩
        · exact (isFile_of_mem_filter inside).elim

/-- An argument that names a file names files alone. -/
theorem isFile_of_mem_named {other : Text} (inside : path ∈ named t argument)
    (isFile : t.isFile path = true) (named : other ∈ named t argument) : t.isFile other = true := by
  cases isOther : t.isFile other with
  | true => rfl
  | false =>
    obtain ⟨alone, -⟩ := named_of_not_isFile named isOther
    rw [alone] at inside
    rw [← isFile, List.mem_singleton.1 inside, isOther]

/-! ## The document of some paths -/

/-- The bytes of the file that a path leads to. -/
def bytes? (t : FileTree) (path : Text) : Option (List UInt8) := (t.contents path).toOption

theorem bytes?_isSome_iff : (bytes? t path).isSome = true ↔ t.isFile path = true := by
  rw [bytes?]
  constructor
  · intro some
    cases read : t.contents path with
    | error fault =>
      rw [read] at some
      exact nomatch some
    | ok bytes => exact FileTree.isFile_of_contents read
  · intro isFile
    obtain ⟨bytes, read, -⟩ := FileTree.contents_of_isFile isFile
    rw [read]
    rfl

theorem bytes?_eq_none (noFile : t.isFile path = false) : bytes? t path = none := by
  rw [← Option.not_isSome_iff_eq_none, bytes?_isSome_iff, noFile]
  exact Bool.false_ne_true

/-- Paths with the same components that lead to a file alike lead to the same bytes. -/
theorem bytes?_eq_of_components_eq {other : Text} (same : components path = components other)
    (alike : t.isFile path = t.isFile other) : bytes? t path = bytes? t other := by
  cases isFile : t.isFile path with
  | true =>
    have place : t.placeOf path = t.placeOf other := congrArg (Path.placeFrom t.workingPlace) same
    have isOther := alike.symm.trans isFile
    rw [bytes?, bytes?, FileTree.contents_eq_of_placeOf_eq place isFile isOther]
  | false =>
    rw [bytes?_eq_none isFile, bytes?_eq_none (alike.symm.trans isFile)]

end Inputs

/-- **The document of some paths** is that of the files among them, one after the other. -/
theorem addFiles_fst (t : FileTree) (d : Document) (paths : List Text) :
    (addFiles t d paths).1 = (paths.filterMap (Inputs.bytes? t)).foldl
      (fun d bytes => d.recordSource (Utf8.decode bytes)) d := by
  induction paths generalizing d with
  | nil => rfl
  | cons path paths ih =>
    rw [addFiles, List.filterMap_cons, Inputs.bytes?]
    simp only [ih, addFile]
    cases t.contents path with
    | error fault => rfl
    | ok bytes => rfl

end Docblock
