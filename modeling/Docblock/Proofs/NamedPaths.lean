import Docblock.Proofs.Selection

/-!
# The paths that plain arguments name

An argument is plain if no part of it starts with a dot. A plain argument leads down: from the root
or from the working directory through names, never up and never round. So do all paths that it
names. The sources in a directory lie one name below it, and a search goes from the root or the
working directory through the names that the pieces of its pattern stand for; only a piece that
starts with a dot stands for a directory itself or for the one above.

## Main definitions

* `Path.LeadsDown`, `FileNode.ProperlyNamed`: names that lead down, and nodes that hold no others
* `Path.Plain`: no piece of a path starts with a dot
* `Path.Downward`: a path through names alone, from the root or from the working directory

## Main results

* `components_join`: a path to a name in a directory has one component more
* `descends_of_enter`: where the pieces of a pattern lead
* `downward_of_mem_named`: a plain argument names paths that lead down
-/

namespace Docblock

namespace Path

variable {path directory piece name : Text} {absolute : Bool}

/-! ## Names in directories -/

/-- A piece of a path that leads down, or nowhere if it is empty. -/
structure LeadsDown (piece : Text) : Prop where
  noSlash : '/' ∉ piece
  notHere : piece ≠ ['.']
  notUp : piece ≠ ['.', '.']

theorem notMem_of_mem_pieces (inside : piece ∈ pieces path) : '/' ∉ piece := by
  unfold pieces at inside
  induction path generalizing piece with
  | nil =>
    rw [List.mem_singleton.1 inside]
    exact List.not_mem_nil
  | cons c path ih =>
    obtain ⟨first, others, split⟩ := List.exists_cons_of_ne_nil (List.splitOn_ne_nil '/' path)
    rw [List.splitOn_cons_eq_if_modifyHead, split] at inside
    rw [split] at ih
    by_cases slash : (c == '/') = true
    · rw [if_pos slash] at inside
      rcases List.mem_cons.1 inside with rfl | inside
      · exact List.not_mem_nil
      · exact ih inside
    · rw [if_neg slash, List.modifyHead_cons] at inside
      rcases List.mem_cons.1 inside with rfl | inside
      · rw [List.mem_cons, not_or]
        exact ⟨fun same => slash (by rw [same, beq_self_eq_true]), ih List.mem_cons_self⟩
      · exact ih (List.mem_cons_of_mem _ inside)

theorem leadsDown_of_head?_ne (noSlash : '/' ∉ piece) (noDot : piece.head? ≠ some '.') :
    LeadsDown piece where
  noSlash := noSlash
  notHere same := noDot (by rw [same]; rfl)
  notUp same := noDot (by rw [same]; rfl)

/-- A piece that leads down has at most one component, and it is a name. -/
theorem LeadsDown.exists_names (down : LeadsDown piece) :
    ∃ names : List Text, (Component.ofPiece? piece).toList = names.map .name := by
  rcases Component.ofPiece?_cases piece with ⟨-, kind⟩ | ⟨up, -⟩ | ⟨-, kind⟩
  · exact ⟨[], by rw [kind]; rfl⟩
  · exact absurd up down.notUp
  · exact ⟨[piece], by rw [kind]; rfl⟩

theorem steps_singleton (piece : Text) :
    [piece].filterMap Component.ofPiece? = (Component.ofPiece? piece).toList := by
  rw [List.filterMap_cons]
  cases Component.ofPiece? piece <;> rfl

theorem head?_pieces_append (path : Text) (more : List Text) :
    (pieces path ++ more).head? = (pieces path).head? :=
  List.head?_append_of_ne_nil _ (List.splitOn_ne_nil '/' path)

/-- A slash at the end of a path has no component, and a piece behind it has its own. -/
theorem components_append_slash (noSlash : '/' ∉ piece) (path : Text) :
    components (path ++ '/' :: piece) =
      components (path ++ ['/']) ++ (Component.ofPiece? piece).toList := by
  have split (last : Text) (noSlash : '/' ∉ last) :
      pieces (path ++ '/' :: last) = pieces path ++ [last] := by
    rw [pieces, List.splitOn_append_cons_self, List.splitOn_eq_singleton noSlash]
    rfl
  have absolute (last : Text) : isAbsolute (path ++ '/' :: last) = isAbsolute (path ++ ['/']) := by
    cases path <;> rfl
  unfold components
  rw [split piece noSlash, split [] List.not_mem_nil, absolute, head?_pieces_append,
    head?_pieces_append, List.filterMap_append, List.filterMap_append, List.append_assoc,
    List.append_assoc, steps_singleton, steps_singleton]
  rfl

/-- A slash at the end of a path makes no difference for its components. -/
theorem components_concat_slash (some : path ≠ []) :
    components (path ++ ['/']) = components path := by
  obtain ⟨c, rest, rfl⟩ := List.exists_cons_of_ne_nil some
  have split : pieces (c :: rest ++ ['/']) = pieces (c :: rest) ++ [[]] :=
    List.splitOn_append_cons_self _ _
  have absolute : isAbsolute (c :: rest ++ ['/']) = isAbsolute (c :: rest) := rfl
  unfold components
  rw [split, head?_pieces_append, absolute, List.filterMap_append]
  exact congrArg _ (List.append_nil _)

/-- The components of a single piece. -/
theorem components_of_leadsDown (down : LeadsDown piece) :
    components piece = (Component.ofPiece? piece).toList := by
  have single : pieces piece = [piece] := List.splitOn_eq_singleton down.noSlash
  have relative : isAbsolute piece ≠ true := by
    intro absolute
    refine down.noSlash (List.mem_of_mem_head? ?_)
    exact eq_of_beq absolute
  have notHere : [piece].head? ≠ some ['.'] := fun same => down.notHere (Option.some.inj same)
  rw [components, single, if_neg relative, if_neg notHere, steps_singleton]
  rfl

/-- **A path to a name in a directory** has the components of the directory, and the name. -/
theorem components_join (down : LeadsDown piece) (directory : Text) :
    components (join directory piece) =
      components directory ++ (Component.ofPiece? piece).toList := by
  unfold join
  by_cases none : directory = []
  · rw [if_pos (Or.inl none), none]
    exact components_of_leadsDown down
  · -- A slash is put behind the directory unless it ends with one.
    by_cases slash : directory.getLast? = some '/'
    · obtain ⟨path, rfl⟩ := List.getLast?_eq_some_iff.1 slash
      rw [if_pos (Or.inr slash), List.append_assoc, List.singleton_append,
        components_append_slash down.noSlash]
    · rw [if_neg (not_or.2 ⟨none, slash⟩), components_append_slash down.noSlash,
        components_concat_slash none]

/-! ## Paths that lead down -/

/-- What an absolute path starts with in front of all names, and a relative one that leads down. -/
def base (absolute : Bool) : List Component := if absolute then [.root] else []

/-- A path through names alone, from the root or from the working directory. -/
def Downward (absolute : Bool) (path : Text) : Prop :=
  ∃ names : List Text, components path = base absolute ++ names.map .name

/-- A path from which a search goes on: it leads down, or it is still the working directory. -/
def Descends (absolute : Bool) (path : Text) : Prop :=
  components path = [.here] ∧ absolute = false ∨ Downward absolute path

/-- No piece of a path starts with a dot. -/
def Plain (path : Text) : Prop := ∀ piece ∈ pieces path, piece.head? ≠ some '.'

theorem Downward.join (downward : Downward absolute directory) (down : LeadsDown piece) :
    Downward absolute (join directory piece) := by
  obtain ⟨names, same⟩ := downward
  obtain ⟨last, isLast⟩ := down.exists_names
  refine ⟨names ++ last, ?_⟩
  rw [components_join down, same, isLast, List.map_append, List.append_assoc]

theorem Downward.components_ne (downward : Downward absolute path) : components path ≠ [.here] := by
  obtain ⟨names, same⟩ := downward
  intro here
  have inside : .here ∈ base absolute ++ names.map Component.name := by
    rw [← same, here]
    exact List.mem_singleton_self _
  cases absolute <;> simp [base] at inside

/-- **A name leads down** from where a search goes on. -/
theorem Descends.downward_joinHere (descends : Descends absolute directory)
    (down : LeadsDown piece) : Downward absolute (joinHere directory piece) := by
  rcases descends with ⟨here, rfl⟩ | downward
  · have isHere : isHere directory = true := by rw [isHere, here]; rfl
    rw [joinHere, if_pos isHere]
    obtain ⟨names, same⟩ := down.exists_names
    exact ⟨names, (components_of_leadsDown down).trans same⟩
  · have notHere : isHere directory ≠ true := fun here => downward.components_ne (eq_of_beq here)
    rw [joinHere, if_neg notHere]
    exact downward.join down

/-- A plain path leads down. -/
theorem Plain.downward (plain : Plain path) : Downward (isAbsolute path) path := by
  have names {route : List Text} (noSlash : ∀ piece ∈ route, '/' ∉ piece)
      (noDot : ∀ piece ∈ route, piece.head? ≠ some '.') :
      ∃ names : List Text, steps route = names.map .name := by
    induction route with
    | nil => exact ⟨[], rfl⟩
    | cons piece route ih =>
      obtain ⟨here, others⟩ := List.forall_mem_cons.1 noSlash
      obtain ⟨here', others'⟩ := List.forall_mem_cons.1 noDot
      obtain ⟨first, isFirst⟩ := (leadsDown_of_head?_ne here here').exists_names
      obtain ⟨names, isRest⟩ := ih others others'
      refine ⟨first ++ names, ?_⟩
      rw [List.map_append, ← isFirst, ← isRest, steps, steps, List.filterMap_cons]
      cases Component.ofPiece? piece <;> rfl
  obtain ⟨names, same⟩ := names (fun _ => notMem_of_mem_pieces) plain
  refine ⟨names, ?_⟩
  have notHere : (pieces path).head? ≠ some ['.'] := fun here =>
    plain _ (List.mem_of_mem_head? here) rfl
  rw [components, if_neg notHere, ← steps, same]
  rfl

end Path

open Docblock.Path (LeadsDown Downward Descends Plain)

/-! ## Names in trees -/

/-- **What passes on from a node to its entries** holds of all that lies in the node. -/
theorem FileNode.of_at? {P : FileNode → Prop}
    (passes : ∀ node, P node → ∀ x ∈ node.entries, P x.2) {node inner : FileNode} {l : Location}
    (here : P node) (found : node.at? l = some inner) : P inner := by
  have mem_of_find {name : Text} {entries : Entries} {inner : FileNode}
      (found : Catalog.find name entries = some inner) : ∃ x ∈ entries, x.2 = inner := by
    induction entries with
    | nil => cases found
    | cons x entries ih =>
      rw [Catalog.find] at found
      split at found
      · obtain ⟨x', inside, same⟩ := ih found
        exact ⟨x', List.mem_cons_of_mem _ inside, same⟩
      · split at found
        · cases found
        · exact ⟨x, List.mem_cons_self, Option.some.inj found⟩
  induction l generalizing node with
  | nil =>
    rw [at?] at found
    exact Option.some.inj found ▸ here
  | cons name l ih =>
    rw [at?] at found
    split at found
    · rename_i next isNext
      obtain ⟨x, inside, rfl⟩ := mem_of_find isNext
      exact ih (passes node here x inside) found
    · cases found

/-- All names of what a node holds lead down. -/
inductive FileNode.ProperlyNamed : FileNode → Prop
  | file (bytes : List UInt8) : ProperlyNamed (.file bytes)
  | directory (entries : Entries) (names : ∀ x ∈ entries, LeadsDown x.1)
      (inner : ∀ x ∈ entries, ProperlyNamed x.2) : ProperlyNamed (.directory entries)

namespace FileNode.ProperlyNamed

variable {node inner : FileNode} {α : Type} {step : α → Text → α} {P : α → Prop}

theorem of_mem_entries (proper : node.ProperlyNamed) :
    ∀ x ∈ node.entries, LeadsDown x.1 ∧ x.2.ProperlyNamed := by
  cases proper with
  | file bytes => exact fun x inside => nomatch inside
  | directory entries names inner => exact fun x inside => ⟨names x inside, inner x inside⟩

theorem of_at? {l : Location} (proper : node.ProperlyNamed) (found : node.at? l = some inner) :
    inner.ProperlyNamed :=
  FileNode.of_at? (fun _ proper x inside => (proper.of_mem_entries x inside).2) proper found

mutual

/-- **What goes on from a directory to the names in it** is so of all that lies in a node, if it is so
of the node. -/
theorem of_mem_held (goesOn : ∀ a name, P a → LeadsDown name → P (step a name)) {a : α}
    (here : P a) : ∀ {node : FileNode}, node.ProperlyNamed → ∀ x ∈ node.held step a, P x.1
  | .file _, _, _, inside => nomatch inside
  | .directory _, proper, x, inside =>
    of_mem_heldIn goesOn here proper.of_mem_entries x inside

theorem of_mem_heldIn (goesOn : ∀ a name, P a → LeadsDown name → P (step a name)) {a : α}
    (here : P a) : ∀ {entries : List (Text × FileNode)},
      (∀ x ∈ entries, LeadsDown x.1 ∧ x.2.ProperlyNamed) → ∀ x ∈ heldIn step a entries, P x.1
  | [], _, _, inside => nomatch inside
  | (name, node) :: others, proper, x, inside => by
    obtain ⟨⟨down, inner⟩, behind⟩ := List.forall_mem_cons.1 proper
    have next := goesOn a name here down
    rw [heldIn] at inside
    rcases List.mem_cons.1 inside with rfl | inside
    · exact next
    · rcases List.mem_append.1 inside with inside | inside
      · exact of_mem_held goesOn next inner x inside
      · exact of_mem_heldIn goesOn here behind x inside

end

end FileNode.ProperlyNamed

/-- All names of a tree lead down. -/
def FileTree.ProperlyNamed (t : FileTree) : Prop := t.root.ProperlyNamed

theorem FileTree.ProperlyNamed.of_mem_entriesOf {t : FileTree} (proper : t.ProperlyNamed)
    (path : Text) : ∀ x ∈ t.entriesOf path, LeadsDown x.1 ∧ x.2.ProperlyNamed := by
  unfold entriesOf
  cases found : t.lookup path with
  | error fault => exact fun x inside => nomatch inside
  | ok node =>
    cases followed : t.follow path (Path.pieces path) with
    | error fault =>
      rw [lookup, followed] at found
      cases found
    | ok way =>
      -- A path leads to what is at its place, and that lies in the root.
      have here := node?_placeOf followed
      obtain rfl := Except.ok.inj ((lookup_of_follow followed).symm.trans found)
      exact (FileNode.ProperlyNamed.of_at? proper here).of_mem_entries

theorem FileTree.ProperlyNamed.of_mem_childrenOf {t : FileTree} (proper : t.ProperlyNamed)
    {path name : Text} (inside : name ∈ t.childrenOf path) : LeadsDown name := by
  obtain ⟨x, listed, rfl⟩ := List.mem_map.1 inside
  exact (proper.of_mem_entriesOf path x listed).1

/-- The working directory is no file. -/
theorem FileTree.components_ne_of_isFile {t : FileTree} {path : Text}
    (isFile : t.isFile path = true) : Path.components path ≠ [.here] := by
  intro here
  obtain ⟨way, bytes, followed, ended⟩ := isFile_iff.1 isFile
  obtain ⟨between, -, walked⟩ := walk_append_iff.1 (follow_eq_ok_iff.1 followed).2.2.2
  obtain ⟨piece, isLast⟩ := Option.isSome_iff_exists.1
    (List.getLast?_isSome.2 (List.splitOn_ne_nil '/' path))
  -- The last piece of a path to a file leads somewhere, so it has a component of its own.
  obtain ⟨c, kind⟩ := Option.isSome_iff_exists.1
    (((walk_leading_iff ended).1 walked).2 piece isLast)
  have inside : c ∈ Path.steps (Path.pieces path) :=
    List.mem_filterMap.2 ⟨piece, List.mem_of_getLast? isLast, kind⟩
  rw [← Path.filter_isStep_components, here] at inside
  exact nomatch inside

/-! ## Patterns -/

namespace Glob

variable {t : FileTree} {pattern piece path name : Text} {parts : List Token} {absolute : Bool}

theorem bracketToken_eq_some {token : Token} {rest : Text}
    (read : bracketToken piece = some (token, rest)) :
    rest <:+ piece ∧ ∀ c, token ≠ .char c := by
  have behind {t chars rest : Text} (taken : takeClass t = some (chars, rest)) : rest <:+ t := by
    cases t with
    | nil => cases taken
    | cons c t =>
      rw [takeClass] at taken
      split at taken
      · cases taken
      · rename_i d u found
        obtain ⟨-, rfl⟩ := Prod.mk.inj (Option.some.inj taken)
        have suffix : d :: u <:+ t := found ▸ List.dropWhile_suffix _
        exact ((List.suffix_cons d u).trans suffix).trans (List.suffix_cons c t)
  unfold bracketToken at read
  split at read
  · rename_i u
    obtain ⟨⟨chars, rest'⟩, taken, same⟩ := Option.map_eq_some_iff.1 read
    obtain ⟨rfl, rfl⟩ := Prod.mk.inj same
    exact ⟨(behind taken).trans (List.suffix_cons '!' u), fun c => Token.noConfusion⟩
  · obtain ⟨⟨chars, rest'⟩, taken, same⟩ := Option.map_eq_some_iff.1 read
    obtain ⟨rfl, rfl⟩ := Prod.mk.inj same
    exact ⟨behind taken, fun c => Token.noConfusion⟩

/-- The parts of a pattern that are characters are characters of a text, in which the first of all
parts stands first if it is one. -/
structure Spells (parts : List Token) (t : Text) : Prop where
  mem : ∀ c, .char c ∈ parts → c ∈ t
  head : ∀ c, parts.head? = some (.char c) → t.head? = some c

theorem Spells.cons_char {t : Text} (spells : Spells parts t) (c : Char) :
    Spells (.char c :: parts) (c :: t) where
  mem d inside := by
    rcases List.mem_cons.1 inside with same | inside
    · exact Token.char.inj same ▸ List.mem_cons_self
    · exact List.mem_cons_of_mem _ (spells.mem d inside)
  head d first := by
    obtain rfl := Token.char.inj (Option.some.inj first)
    rfl

/-- A part that is no character may stand for any of them. -/
theorem Spells.cons {t rest : Text} {token : Token} (spells : Spells parts rest)
    (special : ∀ c, token ≠ .char c) (behind : rest <:+ t) : Spells (token :: parts) t where
  mem c inside := by
    rcases List.mem_cons.1 inside with same | inside
    · exact absurd same.symm (special c)
    · exact behind.subset (spells.mem c inside)
  head c first := absurd (Option.some.inj first) (special c)

theorem exists_of_bind {ε α β : Type} {x : Except ε α} {f : α → Except ε β} {b : β}
    (found : x >>= f = .ok b) : ∃ a, x = .ok a ∧ f a = .ok b := by
  cases x with
  | error fault => exact nomatch found
  | ok a => exact ⟨a, rfl, found⟩

/-- Where a part is put in front of the parts behind it, these have been read. -/
theorem exists_of_map_cons {token : Token} {read : Except Fault (List Token)}
    (found : read.map (token :: ·) = .ok parts) :
    ∃ others, read = .ok others ∧ token :: others = parts := by
  cases read with
  | error fault => exact nomatch found
  | ok others => exact ⟨others, rfl, Except.ok.inj found⟩

/-- **The parts of a pattern that are characters** are characters of the pattern. -/
theorem spells_of_tokensFrom {before : Option Char} {position : Nat} {t : Text}
    (read : tokensFrom before position t = .ok parts) : Spells parts t := by
  have nothing (t : Text) : Spells [] t := ⟨nofun, nofun⟩
  fun_induction tokensFrom before position t generalizing parts
  case case1 =>
    obtain rfl := Except.ok.inj read
    exact nothing []
  case case2 ih =>
    obtain ⟨others, found, rfl⟩ := exists_of_map_cons read
    exact (ih found).cons nofun (List.suffix_cons _ _)
  case case4 =>
    obtain rfl := Except.ok.inj read
    exact (nothing []).cons nofun List.nil_suffix
  case case5 t _ ih =>
    obtain ⟨others, found, rfl⟩ := exists_of_map_cons read
    exact (ih found).cons nofun (List.suffix_append ['*', '*', '/'] t)
  case case8 ih =>
    obtain ⟨others, found, rfl⟩ := exists_of_map_cons read
    exact (ih found).cons nofun (List.suffix_cons _ _)
  case case9 bracket ih =>
    obtain ⟨others, found, rfl⟩ := exists_of_map_cons read
    obtain ⟨behind, special⟩ := bracketToken_eq_some bracket
    exact (ih found).cons special (behind.trans (List.suffix_cons _ _))
  case case11 c t _ _ _ _ ih =>
    obtain ⟨others, found, rfl⟩ := exists_of_map_cons read
    exact (ih found).cons_char c
  -- What is left is no pattern.
  all_goals exact nomatch read

/-- Parts that spell out a name are its characters. -/
theorem eq_map_of_literal? (literal : literal? parts = some name) : parts = name.map .char := by
  induction parts generalizing name with
  | nil =>
    obtain rfl := Option.some.inj literal
    rfl
  | cons token parts ih =>
    cases token with
    | char c =>
      obtain ⟨rest, isRest, rfl⟩ := Option.map_eq_some_iff.1 literal
      rw [ih isRest, List.map_cons]
    | _ => exact nomatch literal

/-! ## Searches -/

/-- A piece of a pattern that leads down: it does not start with a dot, and holds no slash. -/
def Step.LeadsDown : Step → Prop
  | .depth => True
  | .name parts => parts.head? ≠ some (.char '.') ∧ .char '/' ∉ parts

theorem leadsDown_of_literal? (down : (Step.name parts).LeadsDown)
    (literal : literal? parts = some name) : Path.LeadsDown name := by
  obtain ⟨noDot, noSlash⟩ := down
  rw [eq_map_of_literal? literal] at noDot noSlash
  refine Path.leadsDown_of_head?_ne (fun inside => noSlash (List.mem_map_of_mem inside)) ?_
  intro first
  rw [List.head?_map, first] at noDot
  exact noDot rfl

theorem leadsDown_of_stepOf {step : Step} (noSlash : '/' ∉ piece) (noDot : piece.head? ≠ some '.')
    (read : stepOf piece = .ok step) : step.LeadsDown := by
  unfold stepOf at read
  obtain ⟨parts, found, read⟩ := exists_of_bind read
  have spells := spells_of_tokensFrom found
  split at read
  · obtain rfl := Except.ok.inj read
    trivial
  · obtain rfl := Except.ok.inj read
    exact ⟨fun first => noDot (spells.head _ first), fun inside => noSlash (spells.mem _ inside)⟩

/-- The pieces of a plain pattern lead down. -/
theorem leadsDown_of_steps (plain : Plain pattern) {steps : List Step}
    (read : Glob.steps pattern = .ok steps) : ∀ step ∈ steps, step.LeadsDown := by
  have leadsDown_of_mapM {pieces : List Text} {steps : List Step}
      (plain : ∀ piece ∈ pieces, '/' ∉ piece ∧ piece.head? ≠ some '.')
      (read : pieces.mapM stepOf = .ok steps) : ∀ step ∈ steps, step.LeadsDown := by
    induction pieces generalizing steps with
    | nil =>
      obtain rfl : [] = steps := Except.ok.inj read
      exact fun step inside => nomatch inside
    | cons piece pieces ih =>
      obtain ⟨⟨noSlash, noDot⟩, others⟩ := List.forall_mem_cons.1 plain
      rw [List.mapM_cons] at read
      obtain ⟨step, first, read⟩ := exists_of_bind read
      obtain ⟨behind, rest, read⟩ := exists_of_bind read
      obtain rfl : step :: behind = steps := Except.ok.inj read
      exact List.forall_mem_cons.2 ⟨leadsDown_of_stepOf noSlash noDot first, ih others rest⟩
  let rest := if Path.isAbsolute pattern then pattern.drop 1 else pattern
  have plainRest : ∀ piece ∈ piecesOf rest, '/' ∉ piece ∧ piece.head? ≠ some '.' := by
    intro piece inside
    have inside : piece ∈ Path.pieces rest := by
      simp only [piecesOf] at inside
      split at inside
      · exact List.dropLast_subset _ inside
      · exact inside
    refine ⟨Path.notMem_of_mem_pieces inside, plain piece ?_⟩
    by_cases absolute : Path.isAbsolute pattern = true
    · -- The piece in front of the first slash is empty.
      obtain ⟨behind, rfl⟩ := List.head?_eq_some_iff.1 (eq_of_beq absolute)
      exact List.mem_cons_of_mem _ inside
    · rwa [show rest = pattern from if_neg absolute] at inside
  unfold Glob.steps at read
  obtain ⟨-, -, read⟩ := exists_of_bind read
  change (if rest = [] then Except.ok [.name []] else (piecesOf rest).mapM stepOf) = .ok steps
    at read
  split at read
  · obtain rfl := Except.ok.inj read
    exact fun step inside => List.mem_singleton.1 inside ▸ ⟨nofun, List.not_mem_nil⟩
  · exact leadsDown_of_mapM plainRest read

variable {steps : List Step}

/-- What lies below a directory from which a search goes on leads down. -/
theorem downward_of_mem_pathsBelow (proper : t.ProperlyNamed) (descends : Descends absolute path)
    {x : Text × Text} (inside : x ∈ pathsBelow t path) : Downward absolute x.2 := by
  obtain ⟨⟨name, node⟩, listed, inside⟩ := List.mem_flatMap.1 inside
  obtain ⟨down, inner⟩ := proper.of_mem_entriesOf path _ listed
  have here := descends.downward_joinHere down
  rcases List.mem_cons.1 inside with rfl | inside
  · exact here
  · obtain ⟨y, below, rfl⟩ := List.mem_map.1 inside
    exact FileNode.ProperlyNamed.of_mem_held
      (P := fun x : Text × Text => Downward absolute x.2)
      (fun above name downward down => downward.join down) here inner y below

/-- **Where the pieces of a pattern lead**: down, if all of them lead down. -/
theorem descends_of_enter (proper : t.ProperlyNamed) (down : ∀ step ∈ steps, step.LeadsDown) :
    (∀ path, Descends absolute path → ∀ found ∈ enter t steps path, Descends absolute found) ∧
      ∀ name path, Downward absolute path → ∀ found ∈ arrive t steps name path,
        Descends absolute found := by
  -- Each of the two goes on with the other one, so both are told at once of the steps that are left.
  induction steps with
  | nil =>
    constructor
    · intro path descends found inside
      rw [enter] at inside
      exact List.mem_singleton.1 inside ▸ descends
    · intro name path downward found inside
      rw [arrive] at inside
      split at inside
      · exact List.mem_singleton.1 inside ▸ Or.inr downward
      · exact nomatch inside
  | cons step steps ih =>
    obtain ⟨here, others⟩ := List.forall_mem_cons.1 down
    obtain ⟨enters, arrives⟩ := ih others
    cases step with
    | depth =>
      constructor
      · intro path descends found inside
        rw [enter] at inside
        obtain ⟨x, below, inside⟩ := List.mem_flatMap.1 inside
        exact arrives x.1 x.2 (downward_of_mem_pathsBelow proper descends below) found inside
      · intro name path downward found inside
        rw [arrive] at inside
        exact arrives name path downward found inside
    | name parts =>
      constructor
      · intro path descends found inside
        rw [enter] at inside
        split at inside
        · rename_i name literal
          split at inside
          · have down := leadsDown_of_literal? here literal
            exact enters _ (Or.inr (descends.downward_joinHere down)) found inside
          · exact nomatch inside
        · obtain ⟨next, isMatch, inside⟩ := List.mem_flatMap.1 inside
          -- The names with dots are left out, as the piece does not start with a dot.
          rw [matchesIn, if_neg fun dots => here.1 dots.1, List.map_nil, List.nil_append]
            at isMatch
          obtain ⟨name, listed, rfl⟩ := List.mem_map.1 isMatch
          have down := proper.of_mem_childrenOf (List.mem_filter.1 listed).1
          exact enters _ (Or.inr (descends.downward_joinHere down)) found inside
      · intro name path downward found inside
        rw [arrive] at inside
        split at inside
        · exact enters path (Or.inr downward) found inside
        · exact nomatch inside

/-- **A plain pattern leads down.** -/
theorem descends_of_mem_search (proper : t.ProperlyNamed) (plain : Plain pattern)
    {found : List Text} (searched : search t pattern = .ok found) :
    ∀ path ∈ found, Descends (Path.isAbsolute pattern) path := by
  unfold search at searched
  obtain ⟨steps, read, searched⟩ := exists_of_bind searched
  have starts : Descends (Path.isAbsolute pattern)
      (if Path.isAbsolute pattern then ['/'] else ['.']) := by
    cases Path.isAbsolute pattern with
    | true => exact Or.inr ⟨[], rfl⟩
    | false => exact Or.inl ⟨rfl, rfl⟩
  have all := (descends_of_enter proper (leadsDown_of_steps plain read)).1 _ starts
  simp only at searched
  split at searched
  · obtain rfl := Except.ok.inj searched
    exact fun path inside => all path (List.mem_filter.1 inside).1
  · obtain rfl := Except.ok.inj searched
    exact all

end Glob

namespace Inputs

variable {t : FileTree} {argument path : Text}

/-- **A plain argument names paths that lead down.** -/
theorem downward_of_mem_named (proper : t.ProperlyNamed) (plain : Plain argument)
    (inside : path ∈ named t argument) : Downward (Path.isAbsolute argument) path := by
  rw [named] at inside
  split at inside
  · exact List.mem_singleton.1 inside ▸ plain.downward
  · split at inside
    · obtain ⟨name, listed, rfl⟩ := List.mem_map.1 (List.mem_filter.1 inside).1
      exact plain.downward.join (proper.of_mem_childrenOf (List.mem_filter.1 listed).1)
    · rw [matched] at inside
      split at inside
      · exact List.mem_singleton.1 inside ▸ plain.downward
      · rename_i found searched
        simp only at inside
        split at inside
        · exact List.mem_singleton.1 inside ▸ plain.downward
        · obtain ⟨inside, isFile⟩ := List.mem_filter.1 inside
          -- A search may end in the working directory, but that is no file.
          rcases Glob.descends_of_mem_search proper plain searched path inside with
            ⟨here, -⟩ | downward
          · exact absurd here (FileTree.components_ne_of_isFile isFile)
          · exact downward

end Inputs

end Docblock
