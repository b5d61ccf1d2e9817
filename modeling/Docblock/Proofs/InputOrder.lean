import Docblock.Proofs.Selection

/-!
# The order of the arguments

Paths with the same components are taken for one, and the first of them is read. So the order in
which files are named does not matter as long as all named paths with the same components can be
read or none can. A path with the components of a file cannot be read if it asks for a directory, or
if it is too long; named in front of the file, such a path takes its place.

## Main definitions

* `Inputs.read`: what is read of the files that arguments name
* `Inputs.Alike`: of the named paths with the same components all lead to a file or none does

## Main results

* `read_eq_of_alike`, `alike_of_read_eq`: the order does not matter exactly if named paths are alike
* `alike_of_plain`: which arguments name paths that are alike
* `inputs_in_any_order`: runs on the same files in another order
* `run_slash_ne`: a file with a slash behind its name takes the place of the file
-/

namespace Docblock

namespace Inputs

open Docblock.Path (Component components AsksForDirectory)

variable {t : FileTree} {files others : List Text} {path : Text} {k : List Component}
  {bytes : List UInt8}

/-- What is read of the files that arguments name, by the components of their paths. -/
def read (t : FileTree) (files : List Text) : List (List Component × List UInt8) :=
  (select t files).filterMap fun path => (bytes? t path).map (components path, ·)

/-- Of the named paths with the same components all lead to a file or none does. -/
def Alike (t : FileTree) (files : List Text) : Prop :=
  ∀ p ∈ files.flatMap (named t), ∀ q ∈ files.flatMap (named t),
    components p = components q → t.isFile p = t.isFile q

/-- **What is read under some components** are the bytes of the first path that has them. -/
theorem mem_read_iff :
    (k, bytes) ∈ read t files ↔
      ∃ path, firstOf (files.flatMap (named t)) k = some path ∧ bytes? t path = some bytes := by
  rw [read, List.mem_filterMap]
  constructor
  · rintro ⟨path, selected, written⟩
    obtain ⟨bytes', isRead, same⟩ := Option.map_eq_some_iff.1 written
    obtain ⟨rfl, rfl⟩ := Prod.mk.inj same
    exact ⟨path, mem_select_iff.1 selected, isRead⟩
  · rintro ⟨path, first, isRead⟩
    obtain rfl := components_of_firstOf first
    exact ⟨path, mem_select_iff.2 first, Option.map_eq_some_iff.2 ⟨bytes, isRead, rfl⟩⟩

/-- What is read is listed in the order of components, so it is determined by what is read under
each of them. -/
theorem read_eq_of_mem_iff
    (same : ∀ k bytes, (k, bytes) ∈ read t files ↔ (k, bytes) ∈ read t others) :
    read t files = read t others := by
  have ordered (files : List Text) :
      (read t files).Pairwise fun x y => Key.before x.1 y.1 = true := by
    refine (pairwise_select t files).filterMap _ fun p q before x isFirst y isSecond => ?_
    obtain ⟨-, -, rfl⟩ := Option.map_eq_some_iff.1 isFirst
    obtain ⟨-, -, rfl⟩ := Option.map_eq_some_iff.1 isSecond
    exact before
  let listed (files : List Text) : Catalog (List Component) (List UInt8) :=
    ⟨read t files, ordered files⟩
  have found : listed files = listed others := by
    refine Catalog.ext_get? fun k => Option.ext fun bytes => ?_
    rw [Catalog.get?_eq_some_iff, Catalog.get?_eq_some_iff]
    exact same k bytes
  exact congrArg Catalog.entries found

/-- What is read is read as well where more is named and all of it is alike. -/
theorem mem_read_of_alike (alike : Alike t others)
    (more : ∀ path ∈ files.flatMap (named t), path ∈ others.flatMap (named t))
    (isRead : (k, bytes) ∈ read t files) : (k, bytes) ∈ read t others := by
  obtain ⟨path, first, isRead⟩ := mem_read_iff.1 isRead
  have inside := more path (List.mem_of_find?_eq_some first)
  have has := components_of_firstOf first
  -- The first path with these components may be another one, but it leads to the same file.
  obtain ⟨path', inside', first'⟩ := exists_firstOf inside has
  have same := has.trans (components_of_firstOf first').symm
  rw [bytes?_eq_of_components_eq same (alike path inside path' inside' same)] at isRead
  exact mem_read_iff.2 ⟨path', first', isRead⟩

/-- **In any order the same is read** where named paths are alike. -/
theorem read_eq_of_alike (alike : Alike t files) (same : ∀ a, a ∈ files ↔ a ∈ others) :
    read t files = read t others := by
  have named_iff (path : Text) :
      path ∈ files.flatMap (named t) ↔ path ∈ others.flatMap (named t) := by
    simp only [List.mem_flatMap, same]
  have alike' : Alike t others := fun p named q named' =>
    alike p ((named_iff p).2 named) q ((named_iff q).2 named')
  refine read_eq_of_mem_iff fun k bytes => ⟨?_, ?_⟩
  · exact mem_read_of_alike alike' fun path => (named_iff path).1
  · exact mem_read_of_alike alike fun path => (named_iff path).2

/-- A path that is no file, named first, takes the place of a file with the same components; the
file, named first, does not. -/
theorem alike_of_read_eq
    (same : ∀ others, (∀ a, a ∈ files ↔ a ∈ others) → read t others = read t files) :
    Alike t files := by
  -- An argument may be repeated in front of all others.
  have repeated {a : Text} (inside : a ∈ files) : read t (a :: files) = read t files := by
    refine same _ fun b => ?_
    rw [List.mem_cons]
    exact ⟨Or.inr, Or.rec (fun here => here ▸ inside) id⟩
  have isFile_of {p q : Text} (named : p ∈ files.flatMap (Inputs.named t))
      (named' : q ∈ files.flatMap (Inputs.named t)) (has : components p = components q)
      (isFile : t.isFile p = true) : t.isFile q = true := by
    by_contra noFile
    rw [Bool.not_eq_true] at noFile
    obtain ⟨a, isArgument, namesFile⟩ := List.mem_flatMap.1 named
    obtain ⟨b, isArgument', namesOther⟩ := List.mem_flatMap.1 named'
    -- With the argument of the file in front, a file is read under these components.
    obtain ⟨p', inside, first⟩ := exists_firstOf namesFile has
    obtain ⟨bytes, isRead⟩ := Option.isSome_iff_exists.1
      (bytes?_isSome_iff.2 (isFile_of_mem_named namesFile isFile inside))
    have readHere : (components q, bytes) ∈ read t (a :: files) := by
      refine mem_read_iff.2 ⟨p', ?_, isRead⟩
      rw [List.flatMap_cons, firstOf, List.find?_append, ← firstOf, first, Option.some_or]
    -- With the other argument in front, nothing is.
    rw [repeated isArgument, ← repeated isArgument'] at readHere
    obtain ⟨q', first', isRead'⟩ := mem_read_iff.1 readHere
    have alone : Inputs.named t b = [q] := (named_of_not_isFile namesOther noFile).1
    rw [List.flatMap_cons, alone, firstOf, List.singleton_append, List.find?_cons_of_pos (by simp)]
      at first'
    obtain rfl := Option.some.inj first'
    have isOther := bytes?_isSome_iff.1 (Option.isSome_iff_exists.2 ⟨bytes, isRead'⟩)
    rw [noFile] at isOther
    exact Bool.false_ne_true isOther
  intro p named q named' has
  rw [Bool.eq_iff_iff]
  exact ⟨isFile_of named named' has, isFile_of named' named has.symm⟩

/-- **Arguments name paths that are alike** if none of them asks for a directory or is too long. -/
theorem alike_of_plain (plain : ∀ a ∈ files,
    ¬ AsksForDirectory a ∧ (Utf8.encode a).length ≤ maxPathBytes) : Alike t files := by
  have isFile_of {p q : Text} (named : q ∈ files.flatMap (Inputs.named t))
      (has : components p = components q) (isFile : t.isFile p = true) : t.isFile q = true := by
    by_contra noFile
    rw [Bool.not_eq_true] at noFile
    obtain ⟨a, isArgument, named⟩ := List.mem_flatMap.1 named
    -- What is no file is the argument itself.
    obtain ⟨-, rfl⟩ := named_of_not_isFile named noFile
    obtain ⟨asks, short⟩ := plain a isArgument
    rw [FileTree.isFile_of_components_eq has isFile asks (t.isLongPath_of_le short)] at noFile
    exact nomatch noFile
  intro p named q named' has
  rw [Bool.eq_iff_iff]
  exact ⟨isFile_of named' has, isFile_of named has.symm⟩

end Inputs

/-! ## Runs -/

variable {t : FileTree} {files others : List Text}

/-- The document of a run is that of what is read. -/
theorem addFiles_select_fst (t : FileTree) (d : Document) (files : List Text) :
    (addFiles t d (Inputs.select t files)).1 = (Inputs.read t files).foldl
      (fun d file => d.recordSource (Utf8.decode file.2)) d := by
  have bytes : (Inputs.select t files).filterMap (Inputs.bytes? t) =
      (Inputs.read t files).map (·.2) := by
    rw [Inputs.read, List.map_filterMap]
    refine List.filterMap_congr fun path _ => ?_
    rw [Option.map_map]
    exact Option.map_id'.symm
  rw [addFiles_fst, bytes, List.foldl_map]

/-- **What is read decides how a run on files ends**, and which files it leaves. -/
theorem runOnFiles_of_read_eq (same : Inputs.read t files = Inputs.read t others) (format : Format)
    (directory : Text) :
    (runOnFiles format directory files t).ending = (runOnFiles format directory others t).ending ∧
      (runOnFiles format directory files t).tree = (runOnFiles format directory others t).tree := by
  have document : (addFiles t .empty (Inputs.select t files)).1 =
      (addFiles t .empty (Inputs.select t others)).1 := by
    rw [addFiles_select_fst, addFiles_select_fst, same]
  simp only [runOnFiles, document, and_self]

/-- What is read decides how a run ends, and which files it leaves, where files are given or none
are. -/
theorem run_of_read_eq {arguments arguments' : List Text} {a : Arguments}
    (parsed : Arguments.ofList arguments = .ok a)
    (parsed' : Arguments.ofList arguments' = .ok { a with files := others })
    (same : Inputs.read t others = Inputs.read t a.files) (given : others = [] ↔ a.files = [])
    (input : List UInt8) :
    (run arguments' input t).ending = (run arguments input t).ending ∧
      (run arguments' input t).tree = (run arguments input t).tree := by
  have format : Arguments.formatName { a with files := others } = a.formatName := rfl
  rw [run, run, parsed, parsed']
  simp only [format]
  cases Format.ofName? a.formatName with
  | none => exact ⟨rfl, rfl⟩
  | some format =>
    simp only
    by_cases none : a.files = []
    · rw [if_pos none, if_pos (given.2 none)]
      exact ⟨rfl, rfl⟩
    · rw [if_neg none, if_neg fun none' => none (given.1 none')]
      cases a.output with
      | none => exact ⟨rfl, rfl⟩
      | some directory => exact runOnFiles_of_read_eq same format directory

/-- **Runs on the same files in another order.** The order of the files, and how often one is given,
does not matter for what is read exactly if of all named paths with the same components all lead to
a file or none does. That is so if no argument asks for a directory at its end or is too long. Then
runs with the same files, in any order, and the same other options end alike and leave the same
files. -/
theorem inputs_in_any_order (t : FileTree) (files : List Text) :
    (Inputs.Alike t files ↔ ∀ others, (∀ a, a ∈ files ↔ a ∈ others) →
      Inputs.read t others = Inputs.read t files) ∧
    ((∀ a ∈ files, ¬ Path.AsksForDirectory a ∧ (Utf8.encode a).length ≤ maxPathBytes) →
      Inputs.Alike t files) ∧
    (Inputs.Alike t files → ∀ arguments arguments' a, Arguments.ofList arguments = .ok a →
      a.files = files → ∀ others, (∀ a, a ∈ files ↔ a ∈ others) →
      Arguments.ofList arguments' = .ok { a with files := others } → ∀ input,
      (run arguments' input t).ending = (run arguments input t).ending ∧
        (run arguments' input t).tree = (run arguments input t).tree) := by
  refine ⟨⟨fun alike others same => (Inputs.read_eq_of_alike alike same).symm,
    Inputs.alike_of_read_eq⟩, Inputs.alike_of_plain, ?_⟩
  rintro alike arguments arguments' a parsed rfl others same parsed' input
  have given : others = [] ↔ a.files = [] := by
    rw [List.eq_nil_iff_forall_not_mem, List.eq_nil_iff_forall_not_mem]
    simp only [same]
  exact run_of_read_eq parsed parsed' (Inputs.read_eq_of_alike alike same).symm given input

/-! ## A slash behind the name of a file -/

/-- A tree with one file. -/
def treeOf (name : Text) (bytes : List UInt8) : FileTree where
  entries := [(name, .file bytes)]
  ordered := .directory _ (List.pairwise_singleton _ _) fun x inside => by
    rw [List.mem_singleton.1 inside]
    exact .file bytes

/-- A tree with a file that documents a class. -/
def classTree : FileTree := treeOf "a.h".toList (Utf8.encode "/*: class A */".toList)

/-- The options of a run, in front of its files. -/
def outputOptions : List Text := ["-o".toList, "out".toList]

/-- **A file with a slash behind its name** takes the place of the file if it is named first, and it
cannot be read. So the class that the file documents has a page only if the file is named first. -/
theorem run_slash_ne :
    let slashed := ["a.h/".toList, "a.h".toList]
    let plain := ["a.h".toList, "a.h/".toList]
    (∀ a, a ∈ slashed ↔ a ∈ plain) ∧
      (run (outputOptions ++ slashed) [] classTree).tree.kind? ["out".toList, "A.html".toList] =
        none ∧
      (run (outputOptions ++ plain) [] classTree).tree.kind? ["out".toList, "A.html".toList] ≠
        none := by
  refine ⟨fun a => ?_, by decide +kernel, by decide +kernel⟩
  rw [List.mem_pair, List.mem_pair, or_comm]

end Docblock
