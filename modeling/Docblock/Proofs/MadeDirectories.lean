import Docblock.Proofs.Routes
import Mathlib.Data.List.TakeWhile

/-!
# Directories that are made

A directory is made together with all that it lies in, one directory after the other. No file
changes, also where this stops with a fault; and where it does not, the path leads to a directory.

## Main definitions

* `FileTree.MoreDirectories`: a tree with more directories than another one, and else the same
* `FileAction.left`: the tree that a change leaves

## Main results

* `moreDirectories_makeDirectories`: nothing but directories is made
* `isDirectory_of_makeDirectories`: what has been made can be reached
-/

namespace Docblock

/-- The tree that a change leaves, also where it stops with a fault. -/
def FileAction.left : EStateM.Result FileFault FileTree Unit → FileTree
  | .ok _ t => t
  | .error _ t => t

namespace FileTree

open Docblock.Path

variable {t s : FileTree} {name path : Text} {parts : List Text} {l : Location}

/-- **A tree with more directories.** What was there before is there as it was. -/
structure MoreDirectories (t s : FileTree) : Prop where
  working : s.working = t.working
  unbounded : s.unbounded = t.unbounded
  kind?_cases : ∀ l, s.kind? l = t.kind? l ∨ t.kind? l = none ∧ s.kind? l = some .directory

theorem moreDirectories_refl (t : FileTree) : t.MoreDirectories t := ⟨rfl, rfl, fun _ => Or.inl rfl⟩

theorem MoreDirectories.trans {u : FileTree} (first : t.MoreDirectories s)
    (second : s.MoreDirectories u) : t.MoreDirectories u where
  working := second.working.trans first.working
  unbounded := second.unbounded.trans first.unbounded
  kind?_cases l := by
    rcases second.kind?_cases l with same | ⟨nothing, made⟩
    · rw [same]
      exact first.kind?_cases l
    · rcases first.kind?_cases l with same | ⟨-, made'⟩
      · exact Or.inr ⟨same.symm.trans nothing, made⟩
      · exact nomatch nothing.symm.trans made'

/-! ## One directory -/

/-- **A directory can be made** of a name: nothing is there, the directory above is, and nothing is
too long. Slashes may stand behind the name. -/
structure Makeable (t : FileTree) (path : Text) (parts : List Text) (name : Text) : Prop where
  pieces_eq : ∃ k, pieces path = parts ++ name :: List.replicate k []
  noZero : '\x00' ∉ path
  given : path ≠ []
  shortPath : t.isLongPath path = false
  above : t.Passable [] (t.start path ++ parts)
  named : isSpecialPiece name = false
  shortName : t.isLongName name = false
  free : t.kind? (placeFrom [] (steps (t.start path ++ parts)) ++ [name]) = none

/-- Without the empty pieces at the end the others are left. -/
theorem exists_trimPieces (parts : List Text) :
    ∃ k, parts = trimPieces parts ++ List.replicate k [] := by
  have nothing : ∀ piece ∈ parts.reverse.takeWhile (· = []), piece = [] := fun piece inside =>
    of_decide_eq_true (List.mem_takeWhile_imp (p := (· = [])) inside)
  have split := List.takeWhile_append_dropWhile (p := (· = [])) (l := parts.reverse)
  rw [List.eq_replicate_of_mem nothing] at split
  refine ⟨(parts.reverse.takeWhile (· = [])).length, ?_⟩
  rw [trimPieces, ← List.reverse_inj, List.reverse_append, List.reverse_reverse,
    List.reverse_replicate]
  exact split.symm

/-- **A directory is made where one can be made**, and placed in the directory above. -/
theorem exists_makeable (made : t.withDirectory path = .ok s) :
    ∃ parts name, t.Makeable path parts name ∧
      s = t.place (placeFrom [] (steps (t.start path ++ parts))) name .directory := by
  obtain ⟨k, whole⟩ := exists_trimPieces (pieces path)
  rw [withDirectory] at made
  cases found : t.parentOf path (trimPieces (pieces path)) with
  | error fault =>
    rw [found] at made
    exact nomatch made
  | ok result =>
    obtain ⟨parent, name⟩ := result
    obtain ⟨noZero, given, shortPath, above, isParent, isName⟩ := parentOf_eq_ok_iff.1 found
    rw [found] at made
    simp only [bind, Except.bind] at made
    split at made
    · exact nomatch made
    · rename_i plain
      rw [Bool.not_eq_true] at plain
      split at made
      · exact nomatch made
      · rename_i short
        rw [Bool.not_eq_true] at short
        split at made
        · exact nomatch made
        · rename_i free
          refine ⟨_, name, ⟨⟨k, ?_⟩, noZero, given, shortPath, above, plain, short, ?_⟩, ?_⟩
          · have some : trimPieces (pieces path) ≠ [] := by
              intro none
              rw [isName, none] at plain
              exact nomatch plain
            have last := eq_dropLast_append some
            rw [← isName] at last
            rwa [last, List.append_assoc] at whole
          · rw [← isParent]
            exact free
          · rw [← isParent]
            exact (Except.ok.inj made).symm

theorem passable_replicate_nil (k : Nat) (here : t.kind? l = some .directory) :
    t.Passable l (List.replicate k []) := by
  induction k with
  | zero => exact here
  | succ k ih => exact ⟨here, Or.inl rfl, ih⟩

namespace Makeable

variable (makeable : t.Makeable path parts name)

include makeable

theorem kind?_place (l : Location) :
    (t.place (placeFrom [] (steps (t.start path ++ parts))) name .directory).kind? l =
      if l = placeFrom [] (steps (t.start path ++ parts)) ++ [name] then some .directory
      else t.kind? l := by
  split
  · rename_i here
    rw [here]
    refine kind?_place_self _ ?_
    rw [accepts, isDirectoryAt, isDirectoryAt, makeable.free, makeable.above.kind?_end]
    rfl
  · rename_i other
    exact kind?_place_of_ne _ other

theorem moreDirectories :
    t.MoreDirectories
      (t.place (placeFrom [] (steps (t.start path ++ parts))) name .directory) where
  working := t.place_working _ _ _
  unbounded := t.place_unbounded _ _ _
  kind?_cases l := by
    rw [makeable.kind?_place]
    split
    · rename_i here
      exact Or.inr ⟨here ▸ makeable.free, rfl⟩
    · exact Or.inl rfl

/-- **What has been made can be reached.** -/
theorem isDirectory :
    (t.place (placeFrom [] (steps (t.start path ++ parts))) name .directory).isDirectory path =
      true := by
  obtain ⟨k, whole⟩ := makeable.pieces_eq
  have more := makeable.moreDirectories
  have made := makeable.kind?_place
  generalize t.place (placeFrom [] (steps (t.start path ++ parts))) name .directory = s
    at more made ⊢
  have above : s.Passable [] (t.start path ++ parts) := by
    refine makeable.above.mono more.unbounded fun l isDirectory => ?_
    rcases more.kind?_cases l with same | ⟨nothing, -⟩
    · exact same.trans isDirectory
    · exact nomatch nothing.symm.trans isDirectory
  rw [isDirectory_iff, start_congr more.working, isLongPath_congr more.unbounded]
  refine ⟨makeable.noZero, makeable.given, makeable.shortPath, ?_⟩
  rw [whole, ← List.append_assoc]
  refine passable_append_iff.2 ⟨above, above.kind?_end, Or.inr ?_, ?_⟩
  · rw [isLongName_congr more.unbounded]
    exact makeable.shortName
  · rw [ofPiece?_of_named makeable.named]
    refine passable_replicate_nil k ?_
    exact (made _).trans (if_pos rfl)

end Makeable

/-! ## A directory and all that it lies in -/

open FileAction (left)

theorem moreDirectories_ensureDirectory (path : Text) (t : FileTree) :
    t.MoreDirectories (left (ensureDirectory path t)) := by
  rw [ensureDirectory, makeDirectory, change]
  cases made : t.withDirectory path with
  | error fault =>
    simp only
    split
    · exact t.moreDirectories_refl
    · exact t.moreDirectories_refl
  | ok s =>
    obtain ⟨parts, name, makeable, rfl⟩ := exists_makeable made
    exact makeable.moreDirectories

theorem moreDirectories_ensureWith {parents : FileAction Unit}
    (above : ∀ t : FileTree, t.MoreDirectories (left (parents t))) (path : Text) (t : FileTree) :
    t.MoreDirectories (left (ensureWith path parents t)) := by
  have first := moreDirectories_ensureDirectory path t
  rw [ensureWith]
  split
  · rename_i s missing
    rw [missing] at first
    refine first.trans ?_
    have between := above s
    simp only [Bind.bind, EStateM.bind]
    cases found : parents s with
    | ok _ u =>
      rw [found] at between
      exact between.trans (moreDirectories_ensureDirectory path u)
    | error fault u =>
      rw [found] at between
      exact between
  · exact first

/-- **Nothing but directories is made**, also where it stops with a fault. -/
theorem moreDirectories_makeDirectories (path : Text) (t : FileTree) :
    t.MoreDirectories (left (makeDirectories path t)) := by
  have all (above : List Component) (t : FileTree) :
      t.MoreDirectories (left (ensureAll above t)) := by
    induction above generalizing t with
    | nil => exact t.moreDirectories_refl
    | cons last above ih => exact moreDirectories_ensureWith ih _ t
  exact moreDirectories_ensureWith (all _) path t

theorem isDirectory_of_ensureDirectory (made : ensureDirectory path t = .ok () s) :
    s.isDirectory path = true := by
  rw [ensureDirectory, makeDirectory, change] at made
  cases withDirectory : t.withDirectory path with
  | error fault =>
    rw [withDirectory] at made
    simp only at made
    split at made
    · rename_i isDirectory
      obtain ⟨-, rfl⟩ := EStateM.Result.ok.inj made
      exact isDirectory
    · exact nomatch made
  | ok u =>
    rw [withDirectory] at made
    obtain ⟨-, rfl⟩ := EStateM.Result.ok.inj made
    obtain ⟨parts, name, makeable, rfl⟩ := exists_makeable withDirectory
    exact makeable.isDirectory

/-- **What has been made can be reached**, with all that it lies in. -/
theorem isDirectory_of_makeDirectories (made : makeDirectories path t = .ok () s) :
    s.isDirectory path = true := by
  rw [makeDirectories, ensureWith] at made
  split at made
  · rename_i u missing
    simp only [Bind.bind, EStateM.bind] at made
    split at made
    · exact isDirectory_of_ensureDirectory made
    · exact nomatch made
  · exact isDirectory_of_ensureDirectory made

end FileTree

end Docblock
