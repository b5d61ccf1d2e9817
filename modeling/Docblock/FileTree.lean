import Docblock.Catalog

/-!
# Trees of files

A tree holds files and directories. A directory holds its entries under their names, in the order
of the names. The location of a node is the list of names that lead to it from the root, so every
node but the root lies in a directory, and the root is a directory.

## Main definitions

* `FileNode`: a file with its bytes, or a directory with its entries
* `FileTree`: what lies in the root, and a working directory
* `FileTree.node?`: what is at a location
* `FileKind`, `FileTree.kind?`: a node without the entries of a directory
* `FileTree.place`: puts a file or an empty directory into a directory

## Main results

* `kind?_place_self`, `kind?_place_of_ne`: placing a node changes its location alone
-/

namespace Docblock

/-- A file, or a directory with its entries. -/
inductive FileNode where
  | file (bytes : List UInt8)
  | directory (entries : List (Text × FileNode))

/-- What is in a directory, by name. -/
abbrev Entries := List (Text × FileNode)

/-- The names that lead to a node from the root. -/
abbrev Location := List Text

/-- A file, or a directory whatever its entries are. -/
inductive FileKind where
  | file (bytes : List UInt8)
  | directory
  deriving DecidableEq

/-- A file, or an empty directory. -/
def FileKind.node : FileKind → FileNode
  | file bytes => .file bytes
  | directory => .directory []

namespace FileNode

/-- A node without the entries of a directory. -/
def kind : FileNode → FileKind
  | file bytes => .file bytes
  | directory _ => .directory

/-- What is in a directory; nothing is in a file. -/
def entries : FileNode → Entries
  | file _ => []
  | directory entries => entries

/-- What is at a location that starts in a node. -/
def at? : FileNode → Location → Option FileNode
  | node, [] => some node
  | node, name :: l =>
    match Catalog.find name node.entries with
    | some inner => inner.at? l
    | none => none

/-- All directories in a node have their entries in the order of the names. -/
inductive Ordered : FileNode → Prop
  | file (bytes : List UInt8) : Ordered (file bytes)
  | directory (entries : Entries)
      (names : entries.Pairwise fun x y => Key.before x.1 y.1 = true)
      (inner : ∀ x ∈ entries, Ordered x.2) : Ordered (directory entries)

mutual

/-- What lies in a node, each directory in front of what it holds. What is told of a node is made
of what is told of the directory that holds it and of its name. -/
def held {α : Type} (step : α → Text → α) (a : α) : FileNode → List (α × FileNode)
  | file _ => []
  | directory entries => heldIn step a entries

/-- What lies in a directory with these entries. -/
def heldIn {α : Type} (step : α → Text → α) (a : α) :
    List (Text × FileNode) → List (α × FileNode)
  | [] => []
  | (name, node) :: others =>
    (step a name, node) :: (held step (step a name) node ++ heldIn step a others)

end

end FileNode

/-- The entries of a directory with a node put at a location. The directories that lead there are
made if need be. -/
def Entries.putAt (name : Text) (node : FileNode) : Location → Entries → Entries
  | [], entries => Catalog.put name (fun _ => node) entries
  | directory :: l, entries =>
    Catalog.put directory (fun inner =>
      .directory (putAt name node l ((inner.map FileNode.entries).getD []))) entries

/-- Files and directories, and the directory in which relative paths start. -/
structure FileTree where
  entries : Entries := []
  working : Location := []
  /-- Whether names and paths may have any length. -/
  unbounded : Bool := false
  /-- All directories have their entries in the order of the names. -/
  ordered : (FileNode.directory entries).Ordered := by
    exact .directory [] List.Pairwise.nil (by simp)

namespace FileTree

/-- The directory from which all locations start. -/
def root (t : FileTree) : FileNode := .directory t.entries

/-- What is at a location. -/
def node? (t : FileTree) (l : Location) : Option FileNode := t.root.at? l

/-- Whether there is a file or a directory at a location, and what the file holds. -/
def kind? (t : FileTree) (l : Location) : Option FileKind := (t.node? l).map FileNode.kind

/-- Whether there is a directory at a location. -/
def isDirectoryAt (t : FileTree) (l : Location) : Bool := t.kind? l == some .directory

/-- Whether a node may be put at a name in a directory: no directory is replaced. -/
def accepts (t : FileTree) (parent : Location) (name : Text) : Bool :=
  t.isDirectoryAt parent && !t.isDirectoryAt (parent ++ [name])

end FileTree

/-! ## Putting nodes into directories -/

theorem FileKind.ordered_node (kind : FileKind) : kind.node.Ordered := by
  cases kind with
  | file bytes => exact .file bytes
  | directory => exact .directory [] List.Pairwise.nil (by simp)

/-- A file and an empty directory hold nothing. -/
theorem FileKind.at?_node {kind : FileKind} {l : Location} (h : l ≠ []) :
    kind.node.at? l = none := by
  cases l with
  | nil => exact absurd rfl h
  | cons name l => cases kind <;> rfl

theorem FileNode.Ordered.entries {node : FileNode} (h : node.Ordered) :
    (FileNode.directory node.entries).Ordered := by
  cases h with
  | file bytes => exact .directory [] List.Pairwise.nil (by simp)
  | directory entries names inner => exact .directory entries names inner

namespace Entries

theorem ordered_put {name : Text} {f : Option FileNode → FileNode} {entries : Entries}
    (h : (FileNode.directory entries).Ordered) (made : ∀ inner,
      (∀ node, inner = some node → node.Ordered) → (f inner).Ordered) :
    (FileNode.directory (Catalog.put name f entries)).Ordered := by
  cases h with
  | directory _ names inner =>
    refine .directory _ (Catalog.ordered_put name f names) fun x hx => ?_
    rcases Catalog.mem_put hx with old | new
    · exact inner x old
    · rw [new]
      refine made _ fun node found => ?_
      exact inner (name, node) ((Catalog.find_eq_some_iff names).1 found)

theorem ordered_putAt (name : Text) {node : FileNode} (leaf : node.Ordered) (l : Location)
    {entries : Entries} (h : (FileNode.directory entries).Ordered) :
    (FileNode.directory (putAt name node l entries)).Ordered := by
  induction l generalizing entries with
  | nil => exact ordered_put h fun _ _ => leaf
  | cons directory l ih =>
    refine ordered_put h fun inner known => ih ?_
    cases inner with
    | none => exact .directory [] List.Pairwise.nil (by simp)
    | some node => exact (known node rfl).entries

/-- A node that is put at a location is found there. -/
theorem at?_putAt_self (name : Text) (node : FileNode) (l : Location) (entries : Entries) :
    (FileNode.directory (putAt name node l entries)).at? (l ++ [name]) = some node := by
  induction l generalizing entries with
  | nil => simp [putAt, FileNode.at?, FileNode.entries, Catalog.find_put_self]
  | cons directory l ih =>
    simpa [putAt, FileNode.at?, FileNode.entries, Catalog.find_put_self] using ih _

/-- A node that is put into a directory, where it replaces no directory, changes its location
alone. -/
theorem kind_at?_putAt_of_ne {name : Text} {kind : FileKind} {parent l : Location}
    {entries : Entries}
    (inside : ((FileNode.directory entries).at? parent).map FileNode.kind = some .directory)
    (fresh : ((FileNode.directory entries).at? (parent ++ [name])).map FileNode.kind ≠
      some .directory) (h : l ≠ parent ++ [name]) :
    ((FileNode.directory (putAt name kind.node parent entries)).at? l).map FileNode.kind =
      ((FileNode.directory entries).at? l).map FileNode.kind := by
  induction parent generalizing entries l with
  | nil =>
    cases l with
    | nil => rfl
    | cons n rest =>
      by_cases same : n = name
      · subst same
        have more : rest ≠ [] := fun none => h (by simp [none])
        simp only [putAt, FileNode.at?, FileNode.entries, Catalog.find_put_self,
          FileKind.at?_node more, Option.map_none]
        cases found : Catalog.find n entries with
        | none => rfl
        | some node =>
          cases node with
          | file bytes =>
            cases rest with
            | nil => exact absurd rfl more
            | cons m rest => rfl
          | directory inner =>
            exact absurd (by simp [FileNode.at?, FileNode.entries, found, FileNode.kind]) fresh
      · simp [putAt, FileNode.at?, FileNode.entries, Catalog.find_put_of_ne same]
  | cons directory parent ih =>
    cases l with
    | nil => rfl
    | cons n rest =>
      by_cases same : n = directory
      · subst same
        cases found : Catalog.find n entries with
        | none => simp [FileNode.at?, FileNode.entries, found] at inside
        | some node =>
          cases node with
          | file bytes =>
            cases parent with
            | nil => simp [FileNode.at?, FileNode.entries, found, FileNode.kind] at inside
            | cons m parent =>
              simp [FileNode.at?, FileNode.entries, found, Catalog.find] at inside
          | directory inner =>
            have others :
                ((FileNode.directory (putAt name kind.node parent inner)).at? rest).map
                    FileNode.kind =
                  ((FileNode.directory inner).at? rest).map FileNode.kind := by
              refine ih ?_ ?_ fun same => h (by simp [same])
              · simpa [FileNode.at?, FileNode.entries, found] using inside
              · simpa [FileNode.at?, FileNode.entries, found] using fresh
            simpa [putAt, FileNode.at?, FileNode.entries, Catalog.find_put_self, found] using others
      · simp [putAt, FileNode.at?, FileNode.entries, Catalog.find_put_of_ne same]

end Entries

namespace FileTree

/-- Puts a file or an empty directory at a name in a directory. Nothing changes where there is no
such directory, or where a directory would be replaced. -/
def place (t : FileTree) (parent : Location) (name : Text) (kind : FileKind) : FileTree :=
  if t.accepts parent name then
    { entries := Entries.putAt name kind.node parent t.entries
      working := t.working
      unbounded := t.unbounded
      ordered := Entries.ordered_putAt name kind.ordered_node parent t.ordered }
  else t

/-- **A node that is placed is found** where the tree accepts it. -/
theorem kind?_place_self {t : FileTree} {parent : Location} {name : Text} (kind : FileKind)
    (h : t.accepts parent name = true) :
    (t.place parent name kind).kind? (parent ++ [name]) = some kind := by
  simp only [place, h, if_true, kind?, node?, root, Entries.at?_putAt_self]
  cases kind <;> rfl

/-- **Placing a node changes its location alone.** -/
theorem kind?_place_of_ne {t : FileTree} {parent l : Location} {name : Text} (kind : FileKind)
    (h : l ≠ parent ++ [name]) : (t.place parent name kind).kind? l = t.kind? l := by
  unfold place
  split
  · rename_i accepted
    simp only [accepts, isDirectoryAt, Bool.and_eq_true, Bool.not_eq_true', beq_iff_eq,
      beq_eq_false_iff_ne] at accepted
    exact Entries.kind_at?_putAt_of_ne accepted.1 accepted.2 h
  · rfl

@[simp] theorem place_working (t : FileTree) (parent : Location) (name : Text)
    (kind : FileKind) : (t.place parent name kind).working = t.working := by
  unfold place
  split <;> rfl

@[simp] theorem place_unbounded (t : FileTree) (parent : Location) (name : Text)
    (kind : FileKind) : (t.place parent name kind).unbounded = t.unbounded := by
  unfold place
  split <;> rfl

/-! ## What a tree holds -/

/-- The files and directories by location, each directory in front of what it holds. -/
def nodes (t : FileTree) : List (Location × FileKind) :=
  (t.root.held (fun l name => l ++ [name]) []).map fun (l, node) => (l, node.kind)

/-- The files and directories that are not in another tree as they are in this one. -/
def nodesNotIn (t other : FileTree) : List (Location × FileKind) :=
  t.nodes.filter fun (l, kind) => other.kind? l ≠ some kind

/-- The files that are not in another tree as they are in this one. -/
def filesNotIn (t other : FileTree) : List (Location × List UInt8) :=
  (t.nodesNotIn other).filterMap fun
    | (l, .file bytes) => some (l, bytes)
    | (_, .directory) => none

end FileTree

end Docblock
