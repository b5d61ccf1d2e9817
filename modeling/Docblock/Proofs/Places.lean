import Docblock.FileTree.Access
import Mathlib.Data.List.Infix

/-!
# Where paths lead

A path is followed piece by piece through the directories of a tree. There are no links, so where it
leads can be told from its components alone: a name goes into a directory, two dots go back to the
one above, and everything else stays. The tree decides only whether the way is there. So two paths
with the same components that both lead to a file lead to the same one. A path with the components
of a file does not lead to it if it is too long, or if its last piece is empty or a single dot,
which asks for a directory.

## Main definitions

* `Path.placeFrom`: the location that components lead to from a directory
* `FileTree.Step`, `FileTree.Way.Valid`: what a piece makes of a way, and the ways that are there
* `FileTree.placeOf`: the location that a path leads to, as far as the tree has a way there
* `Path.AsksForDirectory`: the last piece of a path is empty or a single dot

## Main results

* `walk_cons_iff`: what is done piece by piece
* `contents_of_isFile`: a path that leads to a file leads to the one at its place
* `isFile_of_components_eq`: a path with the components of a file leads to it
-/

namespace Docblock

namespace Path

/-- The location that a component leads to from another one. -/
def Component.placeFrom (l : Location) : Component → Location
  | .root => []
  | .here => l
  | .up => l.dropLast
  | .name n => l ++ [n]

/-- The location that components lead to from another one. -/
def placeFrom (l : Location) (components : List Component) : Location :=
  components.foldl Component.placeFrom l

/-- The components of the pieces of a path. Those without a component are empty or single dots. -/
def steps (pieces : List Text) : List Component := pieces.filterMap Component.ofPiece?

/-- A piece stays where it is, leads back, or is a name. -/
theorem Component.ofPiece?_cases (piece : Text) :
    (piece = [] ∨ piece = ['.']) ∧ ofPiece? piece = none ∨
      piece = ['.', '.'] ∧ ofPiece? piece = some .up ∨
      FileTree.isSpecialPiece piece = false ∧ ofPiece? piece = some (.name piece) := by
  by_cases stays : piece = [] ∨ piece = ['.']
  · exact Or.inl ⟨stays, if_pos stays⟩
  · refine Or.inr ?_
    rw [ofPiece?, if_neg stays]
    by_cases up : piece = ['.', '.']
    · exact Or.inl ⟨up, if_pos up⟩
    · refine Or.inr ⟨?_, if_neg up⟩
      rw [not_or] at stays
      simp [FileTree.isSpecialPiece, stays, up]

end Path

namespace FileTree

open Docblock.Path

variable {t : FileTree} {way last : Way} {piece : Text} {route more : List Text}

/-! ## Ways -/

/-- What a piece makes of a way: from a directory it stays there, leads back, or enters what is
there under a name. -/
inductive Step (t : FileTree) (way : Way) : Option Component → Way → Prop
  | stay {entries : Entries} (inside : t.target way = .directory entries) : Step t way none way
  | up {entries : Entries} (inside : t.target way = .directory entries) :
      Step t way (some .up) way.tail
  | enter {entries : Entries} {name : Text} {node : FileNode}
      (inside : t.target way = .directory entries) (short : t.isLongName name = false)
      (found : Catalog.find name entries = some node) :
      Step t way (some (.name name)) ((name, node) :: way)

theorem Step.isDirectory {c : Option Component} {next : Way} (step : Step t way c next) :
    ∃ entries, t.target way = .directory entries := by
  cases step with
  | stay inside => exact ⟨_, inside⟩
  | up inside => exact ⟨_, inside⟩
  | enter inside => exact ⟨_, inside⟩

/-- **A path is followed piece by piece.** -/
theorem walk_cons_iff :
    t.walk way (piece :: route) = .ok last ↔
      ∃ next, Step t way (Component.ofPiece? piece) next ∧ t.walk next route = .ok last := by
  rw [walk]
  cases inside : t.target way with
  | file bytes =>
    refine iff_of_false (fun walked => nomatch walked) ?_
    rintro ⟨next, step, -⟩
    obtain ⟨entries, isDirectory⟩ := step.isDirectory
    exact nomatch inside.symm.trans isDirectory
  | directory entries =>
    simp only
    rcases Component.ofPiece?_cases piece with ⟨stays, kind⟩ | ⟨rfl, kind⟩ | ⟨plain, kind⟩
    · have special : isSpecialPiece piece = true := by
        rcases stays with rfl | rfl <;> rfl
      have notUp : piece ≠ ['.', '.'] := by
        rcases stays with rfl | rfl <;> decide
      rw [if_neg notUp, if_pos special, kind]
      constructor
      · exact fun walked => ⟨way, .stay inside, walked⟩
      · rintro ⟨next, ⟨-⟩, walked⟩
        exact walked
    · rw [if_pos rfl, kind]
      constructor
      · exact fun walked => ⟨way.tail, .up inside, walked⟩
      · rintro ⟨next, ⟨-⟩, walked⟩
        exact walked
    · have notUp : piece ≠ ['.', '.'] := by
        rintro rfl
        exact nomatch plain
      rw [if_neg notUp, if_neg (Bool.eq_false_iff.1 plain), kind]
      constructor
      · intro walked
        split at walked
        · exact nomatch walked
        · rename_i short
          split at walked
          · rename_i node found
            exact ⟨_, .enter inside (Bool.eq_false_iff.2 short) found, walked⟩
          · exact nomatch walked
      · rintro ⟨next, step, walked⟩
        cases step with
        | enter isDirectory short found =>
          obtain rfl := FileNode.directory.inj (inside.symm.trans isDirectory)
          rw [short, if_neg Bool.false_ne_true, found]
          exact walked

theorem walk_append_iff :
    t.walk way (route ++ more) = .ok last ↔
      ∃ next, t.walk way route = .ok next ∧ t.walk next more = .ok last := by
  induction route generalizing way with
  | nil => simp [walk]
  | cons piece route ih =>
    simp only [List.cons_append, walk_cons_iff, ih]
    constructor
    · rintro ⟨next, step, between, first, second⟩
      exact ⟨between, ⟨next, step, first⟩, second⟩
    · rintro ⟨between, ⟨next, step, first⟩, second⟩
      exact ⟨next, step, between, first, second⟩

/-- Where a step leads. -/
theorem Step.location {c : Option Component} {next : Way} (step : Step t way c next) :
    next.location = placeFrom way.location c.toList := by
  cases step with
  | stay => rfl
  | up =>
    cases way with
    | nil => rfl
    | cons first way => simp [Way.location, placeFrom, Component.placeFrom]
  | enter => simp [Way.location, placeFrom, Component.placeFrom]

/-- **Where a way leads** is told by the components. -/
theorem location_of_walk (walked : t.walk way route = .ok last) :
    last.location = placeFrom way.location (steps route) := by
  induction route generalizing way with
  | nil =>
    obtain rfl := Except.ok.inj walked
    rfl
  | cons piece route ih =>
    obtain ⟨next, step, walked⟩ := walk_cons_iff.1 walked
    rw [ih walked, step.location, steps, steps, List.filterMap_cons]
    cases Component.ofPiece? piece <;> rfl

/-- Each node of a way lies in the one before. -/
def Way.Valid (t : FileTree) : Way → Prop
  | [] => True
  | (name, node) :: way => Way.Valid t way ∧ Catalog.find name (t.target way).entries = some node

theorem valid_of_walk (valid : way.Valid t) (walked : t.walk way route = .ok last) :
    last.Valid t := by
  induction route generalizing way with
  | nil =>
    obtain rfl := Except.ok.inj walked
    exact valid
  | cons piece route ih =>
    obtain ⟨next, step, walked⟩ := walk_cons_iff.1 walked
    refine ih ?_ walked
    generalize Component.ofPiece? piece = c at step
    cases step with
    | stay => exact valid
    | up =>
      cases way with
      | nil => exact valid
      | cons first way => exact valid.1
    | enter inside short found => exact ⟨valid, by rw [inside]; exact found⟩

/-- What is at a name in a directory is found among its entries. -/
theorem node?_append (t : FileTree) (l : Location) (name : Text) :
    t.node? (l ++ [name]) = (t.node? l).bind fun inner => Catalog.find name inner.entries := by
  unfold node?
  generalize t.root = node
  induction l generalizing node with
  | nil =>
    rw [List.nil_append, FileNode.at?, FileNode.at?, Option.bind_some]
    cases Catalog.find name node.entries with
    | none => rfl
    | some inner => cases inner <;> rfl
  | cons first l ih =>
    rw [List.cons_append, FileNode.at?, FileNode.at?]
    cases Catalog.find first node.entries with
    | none => rfl
    | some inner => exact ih inner

/-- What a way leads to is what is at its location. -/
theorem node?_location (valid : way.Valid t) : t.node? way.location = some (t.target way) := by
  induction way with
  | nil => rw [node?, Way.location, List.map_nil, List.reverse_nil, FileNode.at?, target]
  | cons step way ih =>
    obtain ⟨name, node⟩ := step
    rw [Way.location, List.map_cons, List.reverse_cons, node?_append, ← Way.location, ih valid.1]
    exact valid.2

/-! ## Paths -/

variable {path other : Text} {bytes : List UInt8}

/-- The location of the working directory. -/
def workingPlace (t : FileTree) : Location := placeFrom [] (steps t.working)

/-- The location that a path leads to, as far as the tree has a way there. -/
def placeOf (t : FileTree) (path : Text) : Location := placeFrom t.workingPlace (components path)

theorem placeFrom_append (l : Location) (first second : List Component) :
    placeFrom l (first ++ second) = placeFrom (placeFrom l first) second := List.foldl_append

/-- What a path has to be for its pieces to be followed. -/
theorem follow_eq_ok_iff :
    t.follow path route = .ok way ↔ '\x00' ∉ path ∧ path ≠ [] ∧
      t.isLongPath path = false ∧ t.walk [] (t.start path ++ route) = .ok way := by
  unfold follow
  split
  · rename_i zero
    exact iff_of_false (fun followed => nomatch followed) fun plain => plain.1 zero
  · rename_i noZero
    split
    · rename_i empty
      exact iff_of_false (fun followed => nomatch followed) fun plain => plain.2.1 empty
    · rename_i some
      split
      · rename_i long
        exact iff_of_false (fun followed => nomatch followed)
          fun plain => Bool.eq_false_iff.1 plain.2.2.1 long
      · rename_i short
        exact ⟨fun walked => ⟨noZero, some, Bool.eq_false_iff.2 short, walked⟩,
          fun plain => plain.2.2.2⟩

theorem lookup_of_follow (followed : t.follow path (pieces path) = .ok way) :
    t.lookup path = .ok (t.target way) := by
  rw [lookup, followed]
  rfl

theorem isFile_iff :
    t.isFile path = true ↔
      ∃ way bytes, t.follow path (pieces path) = .ok way ∧ t.target way = .file bytes := by
  constructor
  · intro isFile
    cases followed : t.follow path (pieces path) with
    | error fault =>
      rw [FileTree.isFile, lookup, followed] at isFile
      exact nomatch isFile
    | ok way =>
      rw [FileTree.isFile, lookup_of_follow followed] at isFile
      split at isFile
      · rename_i bytes found
        exact ⟨way, bytes, rfl, Except.ok.inj found⟩
      · exact nomatch isFile
  · rintro ⟨way, bytes, followed, ended⟩
    rw [FileTree.isFile, lookup_of_follow followed, ended]

/-- Where a path leads is told by the names that it is followed through. -/
theorem placeOf_eq (t : FileTree) (path : Text) :
    t.placeOf path = placeFrom [] (steps (t.start path ++ pieces path)) := by
  have split : steps (t.start path ++ pieces path) = steps (t.start path) ++ steps (pieces path) :=
    List.filterMap_append
  rw [split, placeFrom_append, placeOf, components, placeFrom_append, start]
  -- A path that starts in the root forgets the working directory.
  by_cases absolute : isAbsolute path = true
  · rw [if_pos absolute, if_pos absolute]
    rfl
  · rw [if_neg absolute, if_neg absolute]
    split <;> rfl

/-- **A path leads to what is at its place**, if it leads anywhere. -/
theorem node?_placeOf (followed : t.follow path (pieces path) = .ok way) :
    t.node? (t.placeOf path) = some (t.target way) := by
  have walked := (follow_eq_ok_iff.1 followed).2.2.2
  have valid : Way.Valid t [] := trivial
  rw [placeOf_eq, ← node?_location (valid_of_walk valid walked), location_of_walk walked]
  rfl

/-- **A file is read at its place.** -/
theorem contents_of_isFile (isFile : t.isFile path = true) :
    ∃ bytes, t.contents path = .ok bytes ∧ t.node? (t.placeOf path) = some (.file bytes) := by
  obtain ⟨way, bytes, followed, ended⟩ := isFile_iff.1 isFile
  refine ⟨bytes, ?_, ?_⟩
  · rw [contents, lookup_of_follow followed, ended]
    rfl
  · rw [node?_placeOf followed, ended]

/-- Nothing is read where there is no file. -/
theorem isFile_of_contents (read : t.contents path = .ok bytes) : t.isFile path = true := by
  rw [contents] at read
  rw [FileTree.isFile]
  cases found : t.lookup path with
  | error fault =>
    rw [found] at read
    exact nomatch read
  | ok node =>
    rw [found] at read
    cases node with
    | file bytes => rfl
    | directory entries => exact nomatch read

/-- **Files at the same place have the same contents.** -/
theorem contents_eq_of_placeOf_eq (same : t.placeOf path = t.placeOf other)
    (isFile : t.isFile path = true) (isOther : t.isFile other = true) :
    t.contents path = t.contents other := by
  obtain ⟨bytes, read, here⟩ := contents_of_isFile isFile
  obtain ⟨bytes', read', here'⟩ := contents_of_isFile isOther
  rw [same, here'] at here
  obtain rfl := FileNode.file.inj (Option.some.inj here)
  rw [read, read']

/-! ## Paths with the same components -/

/-- The pieces that lead somewhere. -/
def leading (route : List Text) : List Text :=
  route.filter fun piece => (Component.ofPiece? piece).isSome

/-- The pieces that lead somewhere are told by their components. -/
theorem leading_eq_map_text (route : List Text) :
    leading route = (steps route).map Component.text := by
  induction route with
  | nil => rfl
  | cons piece route ih =>
    rw [leading, steps, List.filter_cons, List.filterMap_cons, ← leading, ← steps, ih]
    rcases Component.ofPiece?_cases piece with ⟨-, kind⟩ | ⟨rfl, -⟩ | ⟨-, kind⟩
    · simp [kind]
    · rfl
    · simp [kind, Component.text]

/-- A way goes on from a directory alone. -/
theorem isDirectory_of_walk_leading {first : Text}
    (walked : t.walk way (leading (first :: route)) = .ok last)
    (ends : ∀ piece ∈ (first :: route).getLast?, (Component.ofPiece? piece).isSome = true) :
    ∃ entries, t.target way = .directory entries := by
  have isLast : (first :: route).getLast (List.cons_ne_nil _ _) ∈ leading (first :: route) :=
    List.mem_filter.2 ⟨List.getLast_mem _, ends _ (List.getLast?_eq_getLast_of_ne_nil _)⟩
  obtain ⟨piece, others, split⟩ := List.exists_cons_of_ne_nil (List.ne_nil_of_mem isLast)
  rw [split, walk_cons_iff] at walked
  obtain ⟨next, step, -⟩ := walked
  exact step.isDirectory

/-- **The pieces that lead nowhere only ask for a directory**, and a file is none. So they may stand
anywhere but at the end of a path that leads to a file. -/
theorem walk_leading_iff (isFile : t.target last = .file bytes) :
    t.walk way route = .ok last ↔
      t.walk way (leading route) = .ok last ∧
        ∀ piece ∈ route.getLast?, (Component.ofPiece? piece).isSome = true := by
  induction route generalizing way with
  | nil => simp [leading, walk]
  | cons piece route ih =>
    rw [walk_cons_iff, leading, List.filter_cons, ← leading]
    cases kind : Component.ofPiece? piece with
    | none =>
      rw [Option.isSome_none, if_neg Bool.false_ne_true]
      cases route with
      | nil =>
        -- The file would have to be a directory.
        refine iff_of_false ?_ fun ends => ?_
        · rintro ⟨next, step, walked⟩
          cases step with
          | stay inside =>
            obtain rfl := Except.ok.inj walked
            exact nomatch inside.symm.trans isFile
        · have some := ends.2 piece rfl
          rw [kind] at some
          exact nomatch some
      | cons second route =>
        rw [List.getLast?_cons_cons]
        constructor
        · rintro ⟨next, step, walked⟩
          cases step with
          | stay inside => exact ih.1 walked
        · rintro ⟨walked, ends⟩
          -- A piece that leads somewhere follows, so this is a directory.
          obtain ⟨entries, inside⟩ := isDirectory_of_walk_leading walked ends
          exact ⟨way, .stay inside, ih.2 ⟨walked, ends⟩⟩
    | some c =>
      have ends : (∀ piece' ∈ (piece :: route).getLast?,
          (Component.ofPiece? piece').isSome = true) ↔
          ∀ piece' ∈ route.getLast?, (Component.ofPiece? piece').isSome = true := by
        cases route with
        | nil => simp [kind]
        | cons second route => rw [List.getLast?_cons_cons]
      rw [Option.isSome_some, if_pos rfl, walk_cons_iff, kind, ends]
      simp only [ih]
      constructor
      · rintro ⟨next, step, walked, ends⟩
        exact ⟨⟨next, step, walked⟩, ends⟩
      · rintro ⟨⟨next, step, walked⟩, ends⟩
        exact ⟨next, step, walked, ends⟩

end FileTree

namespace Path

variable {path other : Text}

/-- Whether a component is a step: the root and a single dot at the start are none. -/
def Component.isStep : Component → Bool
  | .root => false
  | .here => false
  | .up => true
  | .name _ => true

theorem isStep_of_mem_steps {route : List Text} {c : Component} (inside : c ∈ steps route) :
    c.isStep = true := by
  obtain ⟨piece, -, kind⟩ := List.mem_filterMap.1 inside
  rcases Component.ofPiece?_cases piece with ⟨-, kind'⟩ | ⟨-, kind'⟩ | ⟨-, kind'⟩
  · exact nomatch kind'.symm.trans kind
  · obtain rfl := Option.some.inj (kind'.symm.trans kind)
    rfl
  · obtain rfl := Option.some.inj (kind'.symm.trans kind)
    rfl

/-- The steps of a path are told by its components. -/
theorem filter_isStep_components (path : Text) :
    (components path).filter Component.isStep = steps (pieces path) := by
  have all : (steps (pieces path)).filter Component.isStep = steps (pieces path) :=
    List.filter_eq_self.2 fun c inside => isStep_of_mem_steps inside
  unfold components
  rw [List.filter_append, ← steps, all]
  split
  · rfl
  · split <;> rfl

/-- Where a path starts is told by its components. -/
theorem isAbsolute_iff : isAbsolute path = true ↔ .root ∈ components path := by
  have noStep : .root ∉ steps (pieces path) := fun inside => nomatch isStep_of_mem_steps inside
  unfold components
  rw [List.mem_append, ← steps, or_iff_left noStep]
  split
  · rename_i absolute
    simp [absolute]
  · rename_i relative
    refine iff_of_false relative ?_
    split <;> simp

/-- The last piece of a path is empty or a single dot. -/
def AsksForDirectory (path : Text) : Prop :=
  ∃ piece, (pieces path).getLast? = some piece ∧ (piece = [] ∨ piece = ['.'])

/-- A character other than a slash stands in a piece. -/
theorem mem_iff_mem_pieces {c : Char} (notSlash : c ≠ '/') :
    c ∈ path ↔ ∃ piece ∈ pieces path, c ∈ piece := by
  unfold pieces
  induction path with
  | nil => simp
  | cons d path ih =>
    rw [List.mem_cons, ih, List.splitOn_cons_eq_if_modifyHead]
    by_cases slash : d = '/'
    · subst slash
      simp [notSlash]
    · obtain ⟨first, others, split⟩ := List.exists_cons_of_ne_nil (List.splitOn_ne_nil '/' path)
      rw [if_neg (by simpa using slash), split]
      simp [or_assoc]

end Path

namespace FileTree

open Docblock.Path

variable {t : FileTree} {path other : Text}

/-- **A path with the components of a file leads to it**, unless it asks for a directory or is too
long. -/
theorem isFile_of_components_eq (same : components path = components other)
    (isFile : t.isFile path = true) (plain : ¬ AsksForDirectory other)
    (short : t.isLongPath other = false) : t.isFile other = true := by
  obtain ⟨way, bytes, followed, ended⟩ := isFile_iff.1 isFile
  obtain ⟨noZero, -, -, walked⟩ := follow_eq_ok_iff.1 followed
  have steps : leading (pieces path) = leading (pieces other) := by
    rw [leading_eq_map_text, leading_eq_map_text, ← filter_isStep_components, same,
      filter_isStep_components]
  have start : t.start path = t.start other := by
    have absolute : isAbsolute path = isAbsolute other := by
      rw [Bool.eq_iff_iff, isAbsolute_iff, isAbsolute_iff, same]
    rw [FileTree.start, FileTree.start, absolute]
  refine isFile_iff.2 ⟨way, bytes, follow_eq_ok_iff.2 ⟨?_, ?_, short, ?_⟩, ended⟩
  · intro zero
    -- The piece with the zero byte leads somewhere, so it is one of the other path as well.
    obtain ⟨piece, inside, zero⟩ := (mem_iff_mem_pieces (by decide)).1 zero
    have leads : piece ∈ leading (pieces other) := by
      refine List.mem_filter.2 ⟨inside, ?_⟩
      rcases Component.ofPiece?_cases piece with ⟨rfl | rfl, -⟩ | ⟨-, kind⟩ | ⟨-, kind⟩
      · exact nomatch zero
      · exact absurd zero (by decide)
      · rw [kind]; rfl
      · rw [kind]; rfl
    rw [← steps] at leads
    exact noZero ((mem_iff_mem_pieces (by decide)).2 ⟨piece, (List.mem_filter.1 leads).1, zero⟩)
  · rintro rfl
    exact plain ⟨[], rfl, Or.inl rfl⟩
  · obtain ⟨between, first, second⟩ := walk_append_iff.1 walked
    refine walk_append_iff.2 ⟨between, start ▸ first, (walk_leading_iff ended).2 ⟨?_, ?_⟩⟩
    · rw [← steps]
      exact ((walk_leading_iff ended).1 second).1
    · intro piece isLast
      rcases Component.ofPiece?_cases piece with ⟨asks, -⟩ | ⟨-, kind⟩ | ⟨-, kind⟩
      · exact absurd ⟨piece, isLast, asks⟩ plain
      · rw [kind]; rfl
      · rw [kind]; rfl

end FileTree

end Docblock
