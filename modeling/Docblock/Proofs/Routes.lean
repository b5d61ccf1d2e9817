import Docblock.Proofs.Places

/-!
# Routes and the changes of a tree

Whether a directory is reached by a route depends on the directories along it alone, so it does not
matter in which order files are put into directories: a file that can be written can be written
before another one and behind it. A file that is written is found at its place, and nothing else
changes.

## Main definitions

* `FileTree.Passable`: all along a route there are directories
* `FileTree.SameDirectories`: two trees have their directories at the same places
* `FileTree.Writable`: a file can be written under a path

## Main results

* `passable_location_iff`: a directory is reached by the routes that are passable
* `parentOf_eq_ok_iff`: where the last piece of a path is to be found
* `withFile_eq_ok_iff`, `kind?_of_withFile`: a file is written where one can be written, and at its
  place alone
* `writable_iff_of_sameDirectories`: files do not hinder each other
* `contents_of_writable`: a file that is at its place can be read
-/

namespace Docblock

namespace FileTree

open Docblock.Path

variable {t s : FileTree} {way : Way} {piece name path : Text} {route more : List Text}
  {l : Location} {bytes : List UInt8}

/-! ## What trees share -/

theorem start_congr (working : s.working = t.working) (path : Text) :
    s.start path = t.start path := by
  rw [start, start, working]

/-- A place does not depend on what is there. -/
theorem placeOf_congr (working : s.working = t.working) (path : Text) :
    s.placeOf path = t.placeOf path := by
  rw [placeOf, placeOf, workingPlace, workingPlace, working]

theorem isLongName_congr (unbounded : s.unbounded = t.unbounded) (name : Text) :
    s.isLongName name = t.isLongName name := by
  rw [isLongName, isLongName, unbounded]

theorem isLongPath_congr (unbounded : s.unbounded = t.unbounded) (path : Text) :
    s.isLongPath path = t.isLongPath path := by
  rw [isLongPath, isLongPath, unbounded]

/-! ## Passable routes -/

/-- **All along a route there are directories**, from a location on, and no name is too long. -/
def Passable (t : FileTree) : Location → List Text → Prop
  | l, [] => t.kind? l = some .directory
  | l, piece :: route =>
    t.kind? l = some .directory ∧ (isSpecialPiece piece = true ∨ t.isLongName piece = false) ∧
      t.Passable (placeFrom l (Component.ofPiece? piece).toList) route

theorem Passable.kind?_eq (passable : t.Passable l route) : t.kind? l = some .directory := by
  cases route with
  | nil => exact passable
  | cons piece route => exact passable.1

theorem passable_append_iff :
    t.Passable l (route ++ more) ↔
      t.Passable l route ∧ t.Passable (placeFrom l (steps route)) more := by
  induction route generalizing l with
  | nil => exact ⟨fun passable => ⟨passable.kind?_eq, passable⟩, And.right⟩
  | cons piece route ih =>
    have place : placeFrom l (steps (piece :: route)) =
        placeFrom (placeFrom l (Component.ofPiece? piece).toList) (steps route) := by
      rw [← placeFrom_append, steps, steps, List.filterMap_cons]
      cases Component.ofPiece? piece <;> rfl
    rw [List.cons_append, Passable, Passable, ih, place]
    simp only [and_assoc]

/-- A passable route ends in a directory. -/
theorem Passable.kind?_end (passable : t.Passable l route) :
    t.kind? (placeFrom l (steps route)) = some .directory := by
  rw [← List.append_nil route] at passable
  exact (passable_append_iff.1 passable).2

/-- What is at the end of a way. -/
theorem kind?_location (valid : way.Valid t) :
    t.kind? way.location = some (t.target way).kind := by
  rw [kind?, node?_location valid]
  rfl

theorem exists_entries_iff {node : FileNode} :
    (∃ entries, node = .directory entries) ↔ node.kind = .directory := by
  cases node with
  | file bytes => exact iff_of_false (fun ⟨_, same⟩ => nomatch same) fun same => nomatch same
  | directory entries => exact iff_of_true ⟨entries, rfl⟩ rfl

/-- A piece leads on if a directory is at the place that it leads to. -/
theorem exists_step (valid : way.Valid t) (here : t.kind? way.location = some .directory)
    (short : isSpecialPiece piece = true ∨ t.isLongName piece = false)
    (next : t.kind? (placeFrom way.location (Component.ofPiece? piece).toList) = some .directory) :
    ∃ next, Step t way (Component.ofPiece? piece) next := by
  rw [kind?_location valid, Option.some.injEq, ← exists_entries_iff] at here
  obtain ⟨entries, inside⟩ := here
  rcases Component.ofPiece?_cases piece with ⟨-, kind⟩ | ⟨-, kind⟩ | ⟨plain, kind⟩
  · rw [kind]
    exact ⟨way, .stay inside⟩
  · rw [kind]
    exact ⟨way.tail, .up inside⟩
  · rw [kind] at next ⊢
    have place : placeFrom way.location [.name piece] = way.location ++ [piece] := rfl
    rw [Option.toList_some, place, kind?, node?_append, node?_location valid, Option.bind_some,
      inside] at next
    obtain ⟨node, found, -⟩ := Option.map_eq_some_iff.1 next
    have short : t.isLongName piece = false := by
      rcases short with special | short
      · exact absurd (plain.symm.trans special) Bool.false_ne_true
      · exact short
    exact ⟨_, .enter inside short found⟩

/-- **A directory is reached by the routes that are passable.** -/
theorem passable_location_iff (valid : way.Valid t) :
    t.Passable way.location route ↔
      ∃ last, t.walk way route = .ok last ∧ (t.target last).kind = .directory := by
  induction route generalizing way with
  | nil =>
    rw [Passable, kind?_location valid, Option.some.injEq]
    constructor
    · exact fun isDirectory => ⟨way, rfl, isDirectory⟩
    · rintro ⟨last, walked, isDirectory⟩
      obtain rfl := Except.ok.inj walked
      exact isDirectory
  | cons piece route ih =>
    -- The induction goes on from the way that the first piece makes, which is there as well.
    have behind {next : Way} (step : Step t way (Component.ofPiece? piece) next) :
        next.Valid t :=
      valid_of_walk valid (walk_cons_iff.2 ⟨next, step, walk.eq_1 t next⟩)
    constructor
    · rintro ⟨here, short, passable⟩
      obtain ⟨next, step⟩ := exists_step valid here short passable.kind?_eq
      rw [← step.location, ih (behind step)] at passable
      obtain ⟨last, walked, isDirectory⟩ := passable
      exact ⟨last, walk_cons_iff.2 ⟨next, step, walked⟩, isDirectory⟩
    · rintro ⟨last, walked, isDirectory⟩
      obtain ⟨next, step, walked⟩ := walk_cons_iff.1 walked
      refine ⟨?_, ?_, ?_⟩
      · rw [kind?_location valid, Option.some.injEq, ← exists_entries_iff]
        exact step.isDirectory
      · rcases Component.ofPiece?_cases piece with ⟨rfl | rfl, -⟩ | ⟨rfl, -⟩ | ⟨-, kind⟩
        · exact Or.inl rfl
        · exact Or.inl rfl
        · exact Or.inl rfl
        · rw [kind] at step
          cases step with
          | enter inside short found => exact Or.inr short
      · rw [← step.location]
        exact (ih (behind step)).2 ⟨last, walked, isDirectory⟩

/-- A directory is reached from the root by the routes that are passable. -/
theorem passable_root_iff :
    t.Passable [] route ↔
      ∃ last, t.walk [] route = .ok last ∧ (t.target last).kind = .directory := by
  have root : Way.Valid t [] := trivial
  exact passable_location_iff root

/-- Routes stay passable where directories stay. -/
theorem Passable.mono (unbounded : s.unbounded = t.unbounded)
    (keeps : ∀ l, t.kind? l = some .directory → s.kind? l = some .directory)
    (passable : t.Passable l route) : s.Passable l route := by
  induction route generalizing l with
  | nil => exact keeps l passable
  | cons piece route ih =>
    obtain ⟨here, short, behind⟩ := passable
    exact ⟨keeps l here, by rwa [isLongName_congr unbounded], ih behind⟩

/-- Two trees have their directories at the same places, and the same bounds. -/
structure SameDirectories (t s : FileTree) : Prop where
  working : s.working = t.working
  unbounded : s.unbounded = t.unbounded
  kind?_iff : ∀ l, s.kind? l = some .directory ↔ t.kind? l = some .directory

theorem sameDirectories_refl (t : FileTree) : t.SameDirectories t := ⟨rfl, rfl, fun _ => Iff.rfl⟩

theorem SameDirectories.trans {u : FileTree} (first : t.SameDirectories s)
    (second : s.SameDirectories u) : t.SameDirectories u where
  working := second.working.trans first.working
  unbounded := second.unbounded.trans first.unbounded
  kind?_iff l := (second.kind?_iff l).trans (first.kind?_iff l)

theorem SameDirectories.passable_iff (same : t.SameDirectories s) :
    s.Passable l route ↔ t.Passable l route :=
  ⟨Passable.mono same.unbounded.symm fun l => (same.kind?_iff l).1,
    Passable.mono same.unbounded fun l => (same.kind?_iff l).2⟩

theorem isDirectory_iff_follow :
    t.isDirectory path = true ↔
      ∃ way entries, t.follow path (pieces path) = .ok way ∧
        t.target way = .directory entries := by
  rw [isDirectory]
  constructor
  · intro isDirectory
    cases followed : t.follow path (pieces path) with
    | error fault =>
      rw [lookup, followed] at isDirectory
      exact absurd isDirectory Bool.false_ne_true
    | ok way =>
      rw [lookup_of_follow followed] at isDirectory
      split at isDirectory
      · rename_i entries found
        exact ⟨way, entries, rfl, Except.ok.inj found⟩
      · exact absurd isDirectory Bool.false_ne_true
  · rintro ⟨way, entries, followed, inside⟩
    rw [lookup_of_follow followed, inside]

/-- **A path that leads to a directory** has a passable route. -/
theorem isDirectory_iff :
    t.isDirectory path = true ↔ '\x00' ∉ path ∧ path ≠ [] ∧ t.isLongPath path = false ∧
      t.Passable [] (t.start path ++ pieces path) := by
  rw [isDirectory_iff_follow, passable_root_iff]
  constructor
  · rintro ⟨way, entries, followed, inside⟩
    obtain ⟨noZero, some, short, walked⟩ := follow_eq_ok_iff.1 followed
    exact ⟨noZero, some, short, way, walked, exists_entries_iff.1 ⟨entries, inside⟩⟩
  · rintro ⟨noZero, some, short, way, walked, isDirectory⟩
    obtain ⟨entries, inside⟩ := exists_entries_iff.2 isDirectory
    exact ⟨way, entries, follow_eq_ok_iff.2 ⟨noZero, some, short, walked⟩, inside⟩

/-! ## Files that can be written -/

/-- The last piece of a path. -/
def lastPiece (path : Text) : Text := (pieces path).getLast?.getD []

/-- The names that lead to what the last piece of a path is to be found in. -/
def routeAbove (t : FileTree) (path : Text) : List Text := t.start path ++ (pieces path).dropLast

/-- Pieces are those in front of the last one, and the last one. -/
theorem eq_dropLast_append {parts : List Text} (some : parts ≠ []) :
    parts = parts.dropLast ++ [parts.getLast?.getD []] := by
  rw [List.getLast?_eq_getLast_of_ne_nil some, Option.getD_some, List.dropLast_append_getLast some]

theorem pieces_eq (path : Text) : pieces path = (pieces path).dropLast ++ [lastPiece path] :=
  eq_dropLast_append (List.splitOn_ne_nil '/' path)

/-- A piece that is not special is a name. -/
theorem ofPiece?_of_named (named : isSpecialPiece piece = false) :
    Component.ofPiece? piece = some (.name piece) := by
  rcases Component.ofPiece?_cases piece with ⟨rfl | rfl, -⟩ | ⟨rfl, -⟩ | ⟨-, kind⟩
  · exact nomatch named
  · exact nomatch named
  · exact nomatch named
  · exact kind

/-- A name is found in the directory above it. -/
theorem placeOf_eq_append (named : isSpecialPiece (lastPiece path) = false) (t : FileTree) :
    t.placeOf path = placeFrom [] (steps (t.routeAbove path)) ++ [lastPiece path] := by
  have last : steps [lastPiece path] = [.name (lastPiece path)] := by
    rw [steps, List.filterMap_cons, ofPiece?_of_named named]
    rfl
  have whole : steps (t.start path ++ pieces path) =
      steps (t.routeAbove path) ++ steps [lastPiece path] := by
    rw [pieces_eq, ← List.append_assoc, routeAbove]
    exact List.filterMap_append
  rw [placeOf_eq, whole, placeFrom_append, last]
  rfl

/-- **A file can be written** under a path: it has a name, the directory above is there, nothing is
too long, and there is no directory of this name. -/
structure Writable (t : FileTree) (path : Text) : Prop where
  noZero : '\x00' ∉ path
  given : path ≠ []
  shortPath : t.isLongPath path = false
  above : t.Passable [] (t.routeAbove path)
  named : isSpecialPiece (lastPiece path) = false
  shortName : t.isLongName (lastPiece path) = false
  free : t.kind? (t.placeOf path) ≠ some .directory

/-- An empty piece asks for a directory. -/
theorem walk_concat_nil_iff {last : Way} :
    t.walk way (route ++ [[]]) = .ok last ↔
      t.walk way route = .ok last ∧ (t.target last).kind = .directory := by
  rw [walk_append_iff]
  constructor
  · rintro ⟨next, walked, asked⟩
    obtain ⟨last', step, stayed⟩ := walk_cons_iff.1 asked
    obtain rfl := Except.ok.inj stayed
    cases step with
    | stay inside => exact ⟨walked, exists_entries_iff.1 ⟨_, inside⟩⟩
  · rintro ⟨walked, isDirectory⟩
    obtain ⟨entries, inside⟩ := exists_entries_iff.2 isDirectory
    exact ⟨last, walked, walk_cons_iff.2 ⟨last, .stay inside, walk.eq_1 t last⟩⟩

/-- **Where the last of some pieces is to be found.** -/
theorem parentOf_eq_ok_iff {parts : List Text} {parent : Location} :
    t.parentOf path parts = .ok (parent, name) ↔
      '\x00' ∉ path ∧ path ≠ [] ∧ t.isLongPath path = false ∧
        t.Passable [] (t.start path ++ parts.dropLast) ∧
        parent = placeFrom [] (steps (t.start path ++ parts.dropLast)) ∧
        name = parts.getLast?.getD [] := by
  have found : t.parentOf path parts = .ok (parent, name) ↔
      ∃ way, t.follow path (parts.dropLast ++ [[]]) = .ok way ∧ way.location = parent ∧
        parts.getLast?.getD [] = name := by
    rw [parentOf]
    cases t.follow path (parts.dropLast ++ [[]]) with
    | error fault => exact iff_of_false (fun same => nomatch same) fun ⟨_, same, _⟩ => nomatch same
    | ok way =>
      constructor
      · intro same
        obtain ⟨isParent, isName⟩ := Prod.mk.inj (Except.ok.inj same)
        exact ⟨way, rfl, isParent, isName⟩
      · rintro ⟨way', same, rfl, rfl⟩
        obtain rfl := Except.ok.inj same
        rfl
  -- The empty piece behind the others asks for a directory.
  rw [found, passable_root_iff]
  simp only [follow_eq_ok_iff, ← List.append_assoc, walk_concat_nil_iff]
  constructor
  · rintro ⟨way, ⟨noZero, given, short, walked, isDirectory⟩, rfl, rfl⟩
    exact ⟨noZero, given, short, ⟨way, walked, isDirectory⟩, location_of_walk walked, rfl⟩
  · rintro ⟨noZero, given, short, ⟨way, walked, isDirectory⟩, rfl, rfl⟩
    exact ⟨way, ⟨noZero, given, short, walked, isDirectory⟩, location_of_walk walked, rfl⟩

/-- **A file is written where one can be written**, and placed in the directory above. -/
theorem withFile_eq_ok_iff :
    t.withFile path bytes = .ok s ↔
      t.Writable path ∧
        s = t.place (placeFrom [] (steps (t.routeAbove path))) (lastPiece path) (.file bytes) := by
  cases found : t.parentOf path (pieces path) with
  | error fault =>
    rw [withFile, found]
    refine iff_of_false (fun same => nomatch same) ?_
    rintro ⟨writable, -⟩
    have above := parentOf_eq_ok_iff.2 ⟨writable.noZero, writable.given, writable.shortPath,
      writable.above, rfl, rfl⟩
    exact nomatch found.symm.trans above
  | ok parts =>
    obtain ⟨parent, name⟩ := parts
    obtain ⟨noZero, given, shortPath, above, isParent, isName⟩ := parentOf_eq_ok_iff.1 found
    rw [← routeAbove] at above isParent
    rw [← lastPiece] at isName
    subst isParent isName
    rw [withFile, found]
    simp only [bind, Except.bind]
    by_cases special : isSpecialPiece (lastPiece path) = true
    · rw [if_pos special]
      exact iff_of_false (fun same => nomatch same)
        fun ⟨writable, _⟩ => nomatch writable.named.symm.trans special
    · rw [Bool.not_eq_true] at special
      have place := placeOf_eq_append special t
      by_cases long : t.isLongName (lastPiece path) = true
      · rw [special, long]
        exact iff_of_false (fun same => nomatch same)
          fun ⟨writable, _⟩ => nomatch writable.shortName.symm.trans long
      · rw [Bool.not_eq_true] at long
        rw [special, long, ← place]
        -- Only a directory that is in the way can hinder now.
        have writable (free : t.kind? (t.placeOf path) ≠ some .directory) : t.Writable path :=
          ⟨noZero, given, shortPath, above, special, long, free⟩
        cases kind : t.kind? (t.placeOf path) with
        | none =>
          have writable := writable (by rw [kind]; exact nofun)
          exact ⟨fun same => ⟨writable, (Except.ok.inj same).symm⟩, fun same => same.2 ▸ rfl⟩
        | some kind' =>
          cases kind' with
          | file bytes' =>
            have writable := writable (by rw [kind]; exact nofun)
            exact ⟨fun same => ⟨writable, (Except.ok.inj same).symm⟩, fun same => same.2 ▸ rfl⟩
          | directory =>
            exact iff_of_false (fun same => nomatch same) fun same => same.1.free kind

/-- **What is written is found at its place**, and nothing else changes. -/
theorem kind?_of_withFile (written : t.withFile path bytes = .ok s) (l : Location) :
    s.kind? l = if l = t.placeOf path then some (.file bytes) else t.kind? l := by
  obtain ⟨writable, rfl⟩ := withFile_eq_ok_iff.1 written
  have place := placeOf_eq_append writable.named t
  have free := writable.free
  rw [place] at free ⊢
  split
  · rename_i here
    rw [here]
    refine kind?_place_self _ ?_
    rw [accepts, isDirectoryAt, isDirectoryAt, Bool.and_eq_true, beq_iff_eq, Bool.not_eq_true',
      beq_eq_false_iff_ne]
    exact ⟨writable.above.kind?_end, free⟩
  · rename_i other
    exact kind?_place_of_ne _ other

theorem sameDirectories_of_withFile (written : t.withFile path bytes = .ok s) :
    t.SameDirectories s where
  working := by rw [(withFile_eq_ok_iff.1 written).2, place_working]
  unbounded := by rw [(withFile_eq_ok_iff.1 written).2, place_unbounded]
  kind?_iff l := by
    have free := (withFile_eq_ok_iff.1 written).1.free
    rw [kind?_of_withFile written]
    split
    · rename_i here
      rw [here]
      exact iff_of_false (fun same => nomatch same) free
    · rfl

/-- **Files do not hinder each other**: where a file can be written depends on directories alone. -/
theorem writable_iff_of_sameDirectories (same : t.SameDirectories s) :
    s.Writable path ↔ t.Writable path := by
  have place := placeOf_congr same.working path
  have route : s.routeAbove path = t.routeAbove path := by
    rw [routeAbove, routeAbove, start_congr same.working]
  have short := isLongPath_congr same.unbounded path
  have name := isLongName_congr same.unbounded (lastPiece path)
  constructor
  · intro writable
    exact ⟨writable.noZero, writable.given, short ▸ writable.shortPath,
      same.passable_iff.1 (route ▸ writable.above), writable.named, name ▸ writable.shortName,
      fun isDirectory => writable.free (place ▸ (same.kind?_iff _).2 isDirectory)⟩
  · intro writable
    exact ⟨writable.noZero, writable.given, short ▸ writable.shortPath,
      route ▸ same.passable_iff.2 writable.above, writable.named, name ▸ writable.shortName,
      fun isDirectory => writable.free ((same.kind?_iff _).1 (place ▸ isDirectory))⟩

/-- **A file that is at its place can be read.** -/
theorem contents_of_writable (writable : t.Writable path)
    (here : t.kind? (t.placeOf path) = some (.file bytes)) : t.contents path = .ok bytes := by
  have root : Way.Valid t [] := trivial
  obtain ⟨way, walked, isDirectory⟩ := passable_root_iff.1 writable.above
  obtain ⟨entries, inside⟩ := exists_entries_iff.2 isDirectory
  have valid := valid_of_walk root walked
  have place : t.placeOf path = way.location ++ [lastPiece path] := by
    rw [placeOf_eq_append writable.named, location_of_walk walked]
    rfl
  -- The name is among the entries of the directory that is reached.
  rw [place, kind?, node?_append, node?_location valid, Option.bind_some] at here
  obtain ⟨node, found, isFile⟩ := Option.map_eq_some_iff.1 here
  rw [inside] at found
  have step : Step t way (Component.ofPiece? (lastPiece path)) ((lastPiece path, node) :: way) := by
    rw [ofPiece?_of_named writable.named]
    exact .enter inside writable.shortName found
  have followed : t.follow path (pieces path) = .ok ((lastPiece path, node) :: way) := by
    refine follow_eq_ok_iff.2 ⟨writable.noZero, writable.given, writable.shortPath, ?_⟩
    rw [pieces_eq, ← List.append_assoc]
    exact walk_append_iff.2 ⟨way, walked, walk_cons_iff.2 ⟨_, step, walk.eq_1 t _⟩⟩
  rw [contents, lookup_of_follow followed]
  cases node with
  | file bytes' =>
    obtain rfl := FileKind.file.inj isFile
    rfl
  | directory entries' => cases isFile

end FileTree

end Docblock
