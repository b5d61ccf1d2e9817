import Docblock.Catalog

/-!
# Paths

A path is a text whose names are separated by slashes. Two paths are listed and compared by their
components: repeated slashes, and single dots other than at the start, make no difference.

## Main definitions

* `Path.Component`, `Path.components`: the components of a path
* `Path.join`: the path of a name in a directory
* `Path.extension?`: the extension of a name
-/

namespace Docblock.Path

/-- A component of a path. -/
inductive Component where
  /-- The directory in which all paths start that begin with a slash. -/
  | root
  /-- A single dot at the start. -/
  | here
  /-- Two dots. -/
  | up
  | name (n : Text)
  deriving DecidableEq

namespace Component

/-- Components of different sorts are listed in the order of their sorts. -/
def rank : Component → Nat
  | root => 0
  | here => 1
  | up => 2
  | name _ => 3

/-- The name in a component that is a name. -/
def nameText : Component → Text
  | name n => n
  | _ => []

/-- A component as it is written in a path. -/
def text : Component → Text
  | root => []
  | here => ['.']
  | up => ['.', '.']
  | name n => n

theorem eq_of_rank_eq {a b : Component} (ranks : a.rank = b.rank)
    (names : a.nameText = b.nameText) : a = b := by
  cases a <;> cases b <;> simp_all [rank, nameText]

/-- Components are listed by their sorts, and names as texts. -/
instance : Key Component where
  before a b := decide (a.rank < b.rank) || (a.rank == b.rank && Key.before a.nameText b.nameText)
  before_irrefl a := by simp [Key.before_irrefl]
  before_trans {a b c} := by
    simp only [Bool.or_eq_true, Bool.and_eq_true, decide_eq_true_eq, beq_iff_eq]
    rintro (h | ⟨h, names⟩) (g | ⟨g, names'⟩)
    · exact Or.inl (Nat.lt_trans h g)
    · exact Or.inl (g ▸ h)
    · exact Or.inl (h ▸ g)
    · exact Or.inr ⟨h.trans g, Key.before_trans names names'⟩
  eq_of_not_before {a b} := by
    simp only [Bool.or_eq_false_iff, Bool.and_eq_false_iff, decide_eq_false_iff_not, Nat.not_lt,
      beq_eq_false_iff_ne]
    rintro ⟨h, h'⟩ ⟨g, g'⟩
    have ranks : a.rank = b.rank := Nat.le_antisymm g h
    refine eq_of_rank_eq ranks (Key.eq_of_not_before ?_ ?_)
    · exact h'.resolve_left (fun different => different ranks)
    · exact g'.resolve_left (fun different => different ranks.symm)

/-- The component that a piece between slashes stands for, if it stands for one. -/
def ofPiece? (piece : Text) : Option Component :=
  if piece = [] ∨ piece = ['.'] then none
  else if piece = ['.', '.'] then some up
  else some (name piece)

end Component

/-- The pieces of a path between its slashes. -/
def pieces (path : Text) : List Text := path.splitOn '/'

/-- Whether a path starts in the root. -/
def isAbsolute (path : Text) : Bool := path.head? == some '/'

/-- The components of a path. -/
def components (path : Text) : List Component :=
  let start :=
    if isAbsolute path then [.root]
    else if (pieces path).head? = some ['.'] then [.here]
    else []
  start ++ (pieces path).filterMap Component.ofPiece?

/-- The path of some components. -/
def ofComponents : List Component → Text
  | .root :: rest => '/' :: List.intercalate ['/'] (rest.map Component.text)
  | components => List.intercalate ['/'] (components.map Component.text)

/-- Whether a path has the single component that stands for the working directory. -/
def isHere (path : Text) : Bool := components path == [.here]

/-- The path of a name in a directory. -/
def join (directory name : Text) : Text :=
  if directory = [] ∨ directory.getLast? = some '/' then directory ++ name
  else directory ++ '/' :: name

/-- The path of a name in a directory, which is left out when it is the working directory. -/
def joinHere (directory name : Text) : Text :=
  if isHere directory then name else join directory name

/-- The extension of a name: what stands behind its last dot, unless the name starts with that
dot. -/
def extension? (name : Text) : Option Text :=
  let behind := name.reverse.takeWhile (· ≠ '.')
  match name.reverse.dropWhile (· ≠ '.') with
  | [] => none
  | _ :: before => if before = [] then none else some behind.reverse

end Docblock.Path
