import Docblock.Proofs.Listings
import Docblock.Proofs.Operations
import Docblock.Store

/-!
# Stored nodes and their keys

A node holds its kind and its name, and is kept under a key. These agree in every store that
operations lead to: a class has the name under which it is kept, a member too, and the owner of a
member is the class that it is kept with. A new member takes its owner from the node of its class,
so that the agreement of the class is needed for that of its members; a change to what is known of a
node leaves its kind and its name alone.

Where nodes agree with their keys nothing is lost when kinds, names and owners are forgotten. Every
operation does to the document that a store holds what it does to the store, and the items that are
found and listed in the document are those that are stored.

## Main definitions

* `Node.IsFor`: a node has a kind and a name
* `Store.Agrees`: the nodes of a store agree with their keys
* `Store.Keeps`: a store agrees with its keys, and holds a document
* `Operation.Grows`: what an operation may do to the nodes of a store

## Main results

* `Agrees.edit`, `Agrees.nameProject`: what is done to single nodes keeps the agreement
* `Agrees.apply`: and so does every operation
* `Keeps.apply`, `keeps_run`: an operation on a store is the operation on its document
* `agrees_run_and_grows`: the nodes of a store after a run, and what one operation more does
-/

namespace Docblock

/-- The kind of item that a subject means. -/
def Subject.kind : Subject → ItemKind
  | project => .project
  | classNamed _ => .ofClass
  | member kind owner _ => .ofMember kind owner

/-- A node has a kind and a name. -/
structure Node.IsFor (n : Node) (kind : ItemKind) (name : Text) : Prop where
  kind_eq : n.kind = kind
  name_eq : n.name = name

/-- The node of a class and those of its members agree with the key of the class and with theirs. -/
structure ClassNode.AgreesWith (c : ClassNode) (key : Text) : Prop where
  node : c.node.IsFor .ofClass key
  members : ∀ kind name n, (c.members kind).get? name = some n → n.IsFor (.ofMember kind key) name

/-- The nodes of a store agree with their keys. -/
structure Store.Agrees (st : Store) : Prop where
  project : st.project.kind = .project
  classes : ∀ key c, st.classes.get? key = some c → c.AgreesWith key

/-! ## Single nodes -/

namespace Node

variable {n : Node} {kind : ItemKind} {name : Text}

theorem isFor_fresh (kind : ItemKind) (name : Text) : (fresh kind name).IsFor kind name :=
  ⟨rfl, rfl⟩

/-- A change to what is known of a node leaves its kind and its name alone. -/
theorem IsFor.change (is : n.IsFor kind name) (c : Change) : (n.change c).IsFor kind name := by
  cases c <;> exact ⟨is.kind_eq, is.name_eq⟩

/-- The kind and the name of a node tell of which subject it is. -/
theorem IsFor.subject_eq {s : Subject} {d : Document} (is : n.IsFor s.kind (d.name s)) :
    n.subject = s := by
  cases s <;> simp [subject, is.kind_eq, is.name_eq, Subject.kind, Document.name]

theorem awaitsDeclaration_item (n : Node) : n.item.awaitsDeclaration = n.awaitsDeclaration := by
  rw [Item.awaitsDeclaration, awaitsDeclaration, item, subject]
  cases n.kind <;> rfl

end Node

/-! ## Classes with their members -/

namespace ClassNode

variable {c : ClassNode} {key : Text} {f : Node → Node}

theorem agreesWith_named (key : Text) : (named key).AgreesWith key where
  node := Node.isFor_fresh .ofClass key
  members := by
    intro kind name n found
    cases kind <;> cases found

/-- **An edit of a member keeps the agreement**, also where the member is new: its owner is the name
of the class, which is the key. -/
theorem AgreesWith.editMember (agrees : c.AgreesWith key) (kind : MemberKind) (name : Text)
    (kept : ∀ n, n.IsFor (.ofMember kind key) name → (f n).IsFor (.ofMember kind key) name) :
    (c.editMember kind name f).AgreesWith key where
  node := by
    rw [ClassNode.editMember, setMembers_node]
    exact agrees.node
  members := by
    intro other m n found
    by_cases kinds : other = kind
    · subst kinds
      rw [ClassNode.editMember, members_setMembers_self] at found
      by_cases names : m = name
      · subst names
        rw [Catalog.get?_update_self] at found
        obtain rfl := Option.some.inj found
        apply kept
        cases known : (c.members other).get? m with
        | none =>
          -- The owner of a new member is the name stored in the class, not the key over it.
          rw [agrees.node.name_eq]
          exact Node.isFor_fresh _ m
        | some old => exact agrees.members other m old known
      · rw [Catalog.get?_update_of_ne names] at found
        exact agrees.members other m n found
    · rw [ClassNode.editMember, members_setMembers_of_ne kinds] at found
      exact agrees.members other m n found

/-- What is known of a class after an edit of a member. -/
theorem AgreesWith.forget_editMember (agrees : c.AgreesWith key) (kind : MemberKind) (name : Text)
    {g : Notes → Notes}
    (alike : ∀ n, n.IsFor (.ofMember kind key) name → (f n).notes = g n.notes) :
    (c.editMember kind name f).forget = c.forget.editMember kind name g := by
  have members : ((c.members kind).update name fun n =>
      f (n.getD (.fresh (.ofMember kind c.node.name) name))).map (·.notes) =
      ((c.members kind).map (·.notes)).update name fun n => g (n.getD (.named name)) := by
    apply Catalog.map_update
    rw [agrees.node.name_eq]
    cases known : (c.members kind).get? name with
    | none => exact alike _ (Node.isFor_fresh _ name)
    | some n => exact alike n (agrees.members kind name n known)
  cases kind with
  | function => exact congrArg (ClassNotes.setMembers c.forget · .function) members
  | data => exact congrArg (ClassNotes.setMembers c.forget · .data) members

end ClassNode

/-- Members are listed as they are stored. -/
theorem Document.memberItems_map {owner : Text} {kind : MemberKind} {members : Catalog Text Node}
    (agree : ∀ name n, members.get? name = some n → n.IsFor (.ofMember kind owner) name) :
    memberItems owner kind (members.map (·.notes)) = members.values.map Node.item := by
  rw [memberItems, Catalog.map, Catalog.values, List.map_map, List.map_map]
  refine List.map_congr_left fun x listed => ?_
  have is := agree x.1 x.2 (Catalog.get?_eq_some_iff.2 listed)
  show Item.mk (.member kind owner x.1) x.1 x.2.notes = ⟨x.2.subject, x.2.name, x.2.notes⟩
  rw [Node.subject, is.kind_eq, is.name_eq]

/-- A class is listed as it is stored. -/
theorem ClassNode.AgreesWith.listing_eq {c : ClassNode} {key : Text} (agrees : c.AgreesWith key) :
    c.listing = Document.listingOf key c.forget := by
  have functions := Document.memberItems_map (agrees.members .function)
  have data := Document.memberItems_map (agrees.members .data)
  have item : c.node.item = ⟨.classNamed key, key, c.node.notes⟩ := by
    rw [Node.item, Node.subject, agrees.node.kind_eq, agrees.node.name_eq]
  rw [listing, Document.listingOf, item]
  exact congrArg₂ (Listing.mk _) functions.symm data.symm

/-- Where each value tells its key, the values tell the keys in order. -/
theorem Catalog.map_values_eq_keys {α : Type} {c : Catalog Text α} {name : α → Text}
    (tells : ∀ k a, c.get? k = some a → name a = k) : c.values.map name = c.keys := by
  rw [values, keys, List.map_map]
  exact List.map_congr_left fun x listed => tells x.1 x.2 (get?_eq_some_iff.2 listed)

/-! ## Operations keep the agreement -/

namespace Store

variable {st : Store} {d : Document} {s : Subject} {f : Node → Node} {g : Notes → Notes}

theorem agrees_empty : empty.Agrees where
  project := rfl
  classes := nofun

/-- The class of a name agrees with it, whether it has been mentioned or not. -/
theorem Agrees.getD_named (agrees : st.Agrees) (name : Text) :
    ((st.classes.get? name).getD (.named name)).AgreesWith name := by
  cases known : st.classes.get? name with
  | none => exact ClassNode.agreesWith_named name
  | some c => exact agrees.classes name c known

/-- What agrees with a key may be put under it. -/
theorem Agrees.update {key : Text} {h : Option ClassNode → ClassNode} (agrees : st.Agrees)
    (put : (h (st.classes.get? key)).AgreesWith key) :
    ({ st with classes := st.classes.update key h } : Store).Agrees where
  project := agrees.project
  classes := by
    intro other c found
    by_cases same : other = key
    · subst same
      rw [Catalog.get?_update_self] at found
      exact Option.some.inj found ▸ put
    · rw [Catalog.get?_update_of_ne same] at found
      exact agrees.classes other c found

/-- **An edit keeps the agreement** if it leaves the kind and the name of its node alone. -/
theorem Agrees.edit (agrees : st.Agrees) (s : Subject)
    (kept : ∀ n, n.IsFor s.kind (st.document.name s) → (f n).IsFor s.kind (st.document.name s)) :
    (st.edit s f).Agrees := by
  cases s with
  | project => exact ⟨(kept st.project ⟨agrees.project, rfl⟩).kind_eq, agrees.classes⟩
  | classNamed name =>
    have old := agrees.getD_named name
    exact agrees.update ⟨kept _ old.node, old.members⟩
  | member kind owner name =>
    exact agrees.update ((agrees.getD_named owner).editMember kind name kept)

theorem Agrees.nameProject (agrees : st.Agrees) (name : Text) : (st.nameProject name).Agrees :=
  ⟨agrees.project, agrees.classes⟩

/-! ## What is found and listed -/

theorem notes?_document (st : Store) (s : Subject) :
    st.document.notes? s = (st.node? s).map (·.notes) := by
  cases s with
  | project => rfl
  | classNamed name =>
    simp only [document, Document.notes?, node?, Catalog.get?_map]
    cases st.classes.get? name <;> rfl
  | member kind owner name =>
    simp only [document, Document.notes?, node?, Catalog.get?_map]
    cases st.classes.get? owner with
    | none => rfl
    | some c => cases kind <;> exact Catalog.get?_map _ _ name

/-- **The node of a subject has its kind and its name.** -/
theorem Agrees.isFor {n : Node} (agrees : st.Agrees) (found : st.node? s = some n) :
    n.IsFor s.kind (st.document.name s) := by
  cases s with
  | project =>
    obtain rfl := Option.some.inj found
    exact ⟨agrees.project, rfl⟩
  | classNamed name =>
    obtain ⟨c, known, rfl⟩ := Option.map_eq_some_iff.1 found
    exact (agrees.classes name c known).node
  | member kind owner name =>
    obtain ⟨c, known, inside⟩ := Option.bind_eq_some_iff.1 found
    exact (agrees.classes owner c known).members kind name n inside

/-- **The items of the document are those that are stored.** -/
theorem Agrees.item?_document (agrees : st.Agrees) (s : Subject) :
    st.document.item? s = (st.node? s).map Node.item := by
  rw [Document.item?, notes?_document]
  cases found : st.node? s with
  | none => rfl
  | some n =>
    have is := agrees.isFor found
    rw [Option.map_some, Option.map_some, Option.map_some, Node.item, is.subject_eq, is.name_eq]

/-- **The listings of the document are those of the store.** -/
theorem Agrees.listings_document (agrees : st.Agrees) : st.document.listings = st.listings := by
  rw [Document.listings, listings, document, Catalog.map, Catalog.values, List.map_map,
    List.map_map]
  refine List.map_congr_left fun x listed => ?_
  exact (agrees.classes x.1 x.2 (Catalog.get?_eq_some_iff.2 listed)).listing_eq.symm

/-- **Classes are stored in increasing order of their own names.** -/
theorem Agrees.increasing_classes (agrees : st.Agrees) :
    Text.Increasing (st.classes.values.map (·.node.name)) := by
  rw [Catalog.map_values_eq_keys fun key c known => (agrees.classes key c known).node.name_eq]
  exact st.classes.increasing_keys

/-- **And so are the members of a class.** -/
theorem Agrees.increasing_members {key : Text} {c : ClassNode} (agrees : st.Agrees)
    (known : st.classes.get? key = some c) (kind : MemberKind) :
    Text.Increasing ((c.members kind).values.map (·.name)) := by
  have members := (agrees.classes key c known).members kind
  rw [Catalog.map_values_eq_keys fun name n inside => (members name n inside).name_eq]
  exact (c.members kind).increasing_keys

/-! ## Operations on a store and on its document -/

/-- A store agrees with its keys, and holds a document. -/
structure Keeps (st : Store) (d : Document) : Prop where
  agrees : st.Agrees
  document_eq : st.document = d

theorem keeps_empty : empty.Keeps .empty := ⟨agrees_empty, rfl⟩

/-- **An edit of a node is an edit of what is known of it**, if it leaves its kind and its name
alone. -/
theorem Keeps.edit (keeps : st.Keeps d) (s : Subject)
    (kept : ∀ n, n.IsFor s.kind (d.name s) → (f n).IsFor s.kind (d.name s))
    (alike : ∀ n, n.IsFor s.kind (d.name s) → (f n).notes = g n.notes) :
    (st.edit s f).Keeps (d.edit s g) := by
  obtain ⟨agrees, rfl⟩ := keeps
  refine ⟨agrees.edit s kept, ?_⟩
  cases s with
  | project =>
    have is : st.project.IsFor .project st.project.name := ⟨agrees.project, rfl⟩
    simp only [Store.edit, document, Document.edit]
    rw [(kept _ is).name_eq, alike _ is]
    rfl
  | classNamed name =>
    refine congrArg (Document.mk _ _) (Catalog.map_update ?_)
    have same := alike _ (agrees.getD_named name).node
    cases known : st.classes.get? name with
    | none =>
      rw [known] at same
      exact congrArg (ClassNotes.mk · {} {}) same
    | some c =>
      rw [known] at same
      exact congrArg (ClassNotes.mk · c.forget.functions c.forget.data) same
  | member kind owner name =>
    refine congrArg (Document.mk _ _) (Catalog.map_update ?_)
    rw [(agrees.getD_named owner).forget_editMember kind name alike]
    cases st.classes.get? owner <;> rfl

theorem Keeps.nameProject (keeps : st.Keeps d) (name : Text) :
    (st.nameProject name).Keeps (d.nameProject name) := by
  obtain ⟨agrees, rfl⟩ := keeps
  exact ⟨agrees.nameProject name, rfl⟩

theorem Keeps.mention (keeps : st.Keeps d) (s : Subject) : (st.mention s).Keeps (d.mention s) :=
  keeps.edit s (fun _ is => is) fun _ _ => rfl

/-- **A change of a node is the change of what is known of it.** The name that becomes its link is
the one that is stored. -/
theorem Keeps.change (keeps : st.Keeps d) (s : Subject) (c : Change) :
    (st.change s c).Keeps (d.change s c) := by
  have kept (n : Node) (is : n.IsFor s.kind (d.name s)) := is.change c
  cases c with
  | add a => exact keeps.edit (g := (·.add a)) s kept fun _ _ => rfl
  | setLink link => exact keeps.edit (g := ({ · with link := link })) s kept fun _ _ => rfl
  | resetLink =>
    -- The node resets its link to the name in it, the document to the name in the key.
    refine keeps.edit (g := ({ · with link := d.name s })) s kept fun n is => ?_
    rw [Node.change, is.name_eq]

theorem Keeps.meet (keeps : st.Keeps d) (header : Header) :
    (st.meet header).Keeps (d.meet header) := by
  cases header with
  | project name => exact keeps.nameProject name
  | classNamed name => exact keeps.mention (.classNamed name)
  | member kind owner name => exact keeps.mention (.member kind owner name)

theorem Keeps.recordLink (keeps : st.Keeps d) (s : Subject) (link : LinkMark) :
    (st.recordLink s link).Keeps (d.recordLink s link) := by
  cases link with
  | given text => exact keeps.change s (.setLink text)
  | absent => exact keeps.change s .resetLink
  | faulty fault => exact keeps.change s .resetLink

theorem Keeps.addAttributes (keeps : st.Keeps d) (s : Subject) (attributes : List Attribute) :
    (st.addAttributes s attributes).Keeps (d.addAttributes s attributes) := by
  induction attributes generalizing st d with
  | nil => exact keeps
  | cons a attributes ih => exact ih (keeps.change s (.add a))

theorem Keeps.awaitsDeclaration (keeps : st.Keeps d) (s : Subject) :
    (st.node? s).any (·.awaitsDeclaration) = d.awaitsDeclaration s := by
  obtain ⟨agrees, rfl⟩ := keeps
  rw [Document.awaitsDeclaration, agrees.item?_document, Option.any_map]
  exact congrArg (Option.any · _) (funext fun n => n.awaitsDeclaration_item.symm)

theorem Keeps.recordDeclaration (keeps : st.Keeps d) (s : Subject) (text : Option Text) :
    (st.recordDeclaration s text).Keeps (d.recordDeclaration s text) := by
  cases text with
  | none => exact keeps
  | some text =>
    rw [Store.recordDeclaration, Document.recordDeclaration, keeps.awaitsDeclaration]
    split
    · exact keeps.change s (.add ⟨Attribute.declarationKeyword, text⟩)
    · exact keeps

theorem Keeps.record (keeps : st.Keeps d) (b : Block) : (st.record b).Keeps (d.record b) := by
  cases b with
  | broken fault => exact keeps
  | entry e =>
    have named := (keeps.meet e.header).recordLink e.header.subject e.link
    exact (named.addAttributes _ e.attributes).recordDeclaration _ e.declaration

theorem Keeps.foldl_record (keeps : st.Keeps d) (blocks : List Block) :
    (blocks.foldl Store.record st).Keeps (blocks.foldl Document.record d) := by
  induction blocks generalizing st d with
  | nil => exact keeps
  | cons b blocks ih => exact ih (keeps.record b)

/-- **An operation on a store is the operation on its document.** -/
theorem Keeps.apply (keeps : st.Keeps d) (op : Operation) : (st.apply op).Keeps (d.apply op) := by
  cases op with
  | nameProject name => exact keeps.nameProject name
  | mention s => exact keeps.mention s
  | change s c => exact keeps.change s c
  | recordSource source => exact keeps.foldl_record (Block.ofSource source)

/-- **Every operation keeps the agreement** of nodes with their keys. -/
theorem Agrees.apply (agrees : st.Agrees) (op : Operation) : (st.apply op).Agrees :=
  (Keeps.apply ⟨agrees, rfl⟩ op).agrees

/-- **After every run a store agrees with its keys**, and holds the document of that run. -/
theorem keeps_run (operations : List Operation) : (run operations).Keeps (.run operations) := by
  have along (st : Store) (d : Document) (keeps : st.Keeps d) :
      (operations.foldl apply st).Keeps (operations.foldl Document.apply d) := by
    induction operations generalizing st d with
    | nil => exact keeps
    | cons op operations ih => exact ih _ _ (keeps.apply op)
  exact along empty .empty keeps_empty

end Store

/-! ## Growth -/

/-- What an operation may do to the nodes of a store: each of them is still there, of the same kind
and owner, under the same name unless it is the project, and with the same attributes and perhaps
more behind them. The project has the last name that the operation gives it, or else its old one. -/
structure Operation.Grows (op : Operation) (st st' : Store) : Prop where
  nodes : ∀ s n, st.node? s = some n → ∃ n', st'.node? s = some n' ∧ n'.kind = n.kind ∧
    (s ≠ .project → n'.name = n.name) ∧ n.notes.attributes <+: n'.notes.attributes
  projectName : st'.project.name = op.projectNames.getLast?.getD st.project.name

/-- Only the project has a name that is not part of the subject. -/
theorem Document.name_eq_of_ne_project {s : Subject} (notProject : s ≠ .project)
    (d d' : Document) : d'.name s = d.name s := by
  cases s with
  | project => exact absurd rfl notProject
  | classNamed name => rfl
  | member kind owner name => rfl

namespace Store

variable {st : Store}

/-- **An operation only adds to the nodes of a store** that agree with their keys. -/
theorem Agrees.grows_apply (agrees : st.Agrees) (op : Operation) : op.Grows st (st.apply op) := by
  have same := (Keeps.apply ⟨agrees, rfl⟩ op).document_eq
  constructor
  case projectName =>
    have named := Document.projectName_apply st.document op
    rw [← same] at named
    exact named
  case nodes =>
    intro s n found
    have known : st.document.notes? s = some n.notes := by
      rw [notes?_document, found, Option.map_some]
    -- What is known of the node is still there in the document, and so is a node that it is of.
    obtain ⟨notes, known', more⟩ := Document.extends_apply st.document op s n.notes known
    rw [← same, notes?_document] at known'
    obtain ⟨n', found', rfl⟩ := Option.map_eq_some_iff.1 known'
    -- Both nodes agree with the same key, so they have one kind and one name.
    have was := agrees.isFor found
    have is := (agrees.apply op).isFor found'
    refine ⟨n', found', is.kind_eq.trans was.kind_eq.symm, fun notProject => ?_, more⟩
    rw [is.name_eq, was.name_eq]
    exact Document.name_eq_of_ne_project notProject _ _

/-- **The nodes of a store after any run of operations.** Each node has the kind, the name and the
owner that its key tells, and the nodes are listed in increasing order of their own names. Every
subject that the run has handed out has a node, which is of that subject by what is stored in it.
One operation more keeps all nodes with their kinds and names, but for the name of the project, and
adds attributes at the end alone. The document of the run is the store without kinds, names and
owners; its items and its listings are those that are stored. -/
theorem agrees_run_and_grows (operations : List Operation) :
    (run operations).Agrees ∧
      Text.Increasing ((run operations).classes.values.map (·.node.name)) ∧
      (∀ key c, (run operations).classes.get? key = some c → ∀ kind,
        Text.Increasing ((c.members kind).values.map (·.name))) ∧
      (∀ op ∈ operations, ∀ s ∈ op.subjects, ∃ n, (run operations).node? s = some n ∧
        n.kind = s.kind ∧ n.subject = s) ∧
      (∀ op : Operation, op.Grows (run operations) (run (operations ++ [op]))) ∧
      (run operations).document = .run operations ∧
      (∀ s, (Document.run operations).item? s = ((run operations).node? s).map Node.item) ∧
      (Document.run operations).listings = (run operations).listings := by
  obtain ⟨agrees, same⟩ := keeps_run operations
  refine ⟨agrees, agrees.increasing_classes, fun _ _ known => agrees.increasing_members known,
    ?_, ?_, same, ?_, ?_⟩
  · intro op inside s handed
    obtain ⟨notes, known⟩ := Document.exists_notes?_foldl_apply .empty inside handed
    rw [← Document.run, ← same, notes?_document] at known
    obtain ⟨n, found, -⟩ := Option.map_eq_some_iff.1 known
    have is := agrees.isFor found
    exact ⟨n, found, is.kind_eq, is.subject_eq⟩
  · intro op
    have longer : run (operations ++ [op]) = (run operations).apply op :=
      List.foldl_concat apply empty op operations
    rw [longer]
    exact agrees.grows_apply op
  · exact fun s => same ▸ agrees.item?_document s
  · exact same ▸ agrees.listings_document

/-- Agreement is more than the types say: a class may be put under a name that is not its own. -/
example : ¬ Agrees ⟨.fresh .project [], ({} : Catalog Text ClassNode).update "A".toList fun _ =>
    .named "B".toList⟩ := by
  intro agrees
  have is := (agrees.classes "A".toList _ (Catalog.get?_update_self _ _ _)).node
  exact absurd is.name_eq (by decide)

end Store

end Docblock
