import Docblock.Json.Page
import Docblock.Proofs.JsonReader

/-!
# Reading the page of a document

The page of a document in JSON can be read back. Names, links and attributes are found in the fields
that have their names, and the lists of members and of classes have the order of the catalogs that
they were made of. So a document is known by its page, whatever characters stand in its names and
values.

## Main definitions

* `field?`, `textOf?`, `listOf?`: the fields of an object
* `notes?`, `class?`, `document?`: what values tell of items, classes and documents
* `readPage`: the document that a page tells of

## Main results

* `document?_ofDocument`: the value of a document tells all of it
* `page_injective_and_readPage_page`: a page is read as its document, and no other document has it
-/

namespace Docblock.Json

/-! ## Fields -/

/-- The value of a field of an object. -/
def field? (key : Text) : Json → Option Json
  | .object fields => fields.lookup key
  | .text _ => none
  | .truth _ => none
  | .list _ => none

/-- The text in a field. -/
def textOf? (key : Text) (v : Json) : Option Text :=
  (field? key v).bind fun
    | .text t => some t
    | .truth _ => none
    | .list _ => none
    | .object _ => none

/-- What is read of the items of the list in a field. -/
def listOf? {α : Type} (item? : Json → Option α) (key : Text) (v : Json) : Option (List α) :=
  (field? key v).bind fun
    | .list items => items.mapM item?
    | .text _ => none
    | .truth _ => none
    | .object _ => none

/-! ## Documents -/

/-- The attribute that a value tells of. -/
def attribute? (v : Json) : Option Attribute := do
  let keyword ← textOf? "keyword".toList v
  let value ← textOf? "value".toList v
  some ⟨keyword, value⟩

/-- The name of an item and what is known of it. -/
def notes? (v : Json) : Option (Text × Notes) := do
  let name ← textOf? "name".toList v
  let link ← textOf? "link_name".toList v
  let attributes ← listOf? attribute? "attributes".toList v
  some (name, ⟨link, attributes⟩)

/-- The catalog that lists some entries, if they are in order. -/
def catalog? {α : Type} (entries : List (Text × α)) : Option (Catalog Text α) :=
  if ordered : entries.Pairwise (fun x y => Key.before x.1 y.1 = true) then
    some ⟨entries, ordered⟩
  else none

/-- The name of a class and what is known of it and of its members. -/
def class? (v : Json) : Option (Text × ClassNotes) := do
  let (name, notes) ← notes? v
  let functions ← (listOf? notes? "functions".toList v).bind catalog?
  let data ← (listOf? notes? "variables".toList v).bind catalog?
  some (name, ⟨notes, functions, data⟩)

/-- The document that a value tells of. -/
def document? (v : Json) : Option Document := do
  let (name, project) ← (field? "project".toList v).bind notes?
  let classes ← (listOf? class? "classes".toList v).bind catalog?
  some ⟨name, project, classes⟩

/-- The document that a page tells of. -/
def readPage (page : Page) : Option Document := (read page.contents).bind document?

/-! ## What is read of what was written -/

variable {α β : Type}

theorem mapM_map {write : β → Json} {read : Json → Option α} {value : β → α} {l : List β}
    (undone : ∀ b ∈ l, read (write b) = some (value b)) :
    (l.map write).mapM read = some (l.map value) := by
  induction l with
  | nil => rfl
  | cons b l ih =>
    obtain ⟨here, others⟩ := List.forall_mem_cons.1 undone
    rw [List.map_cons, List.mapM_cons, here, ih others]
    rfl

theorem catalog?_entries (c : Catalog Text α) : catalog? c.entries = some c :=
  dif_pos c.ordered

theorem attribute?_ofAttribute (a : Attribute) : attribute? (ofAttribute a) = some a := rfl

/-- What is known of an item stands in its fields, whatever other fields are behind them. -/
theorem notes?_itemFields (i : Item) (others : List (Text × Json)) :
    notes? (object (itemFields i ++ others)) = some (i.name, i.notes) := by
  have name : textOf? "name".toList (object (itemFields i ++ others)) = some i.name := rfl
  have link : textOf? "link_name".toList (object (itemFields i ++ others)) =
      some i.notes.link := rfl
  have attributes : listOf? attribute? "attributes".toList (object (itemFields i ++ others)) =
      some i.notes.attributes := by
    show (i.notes.attributes.map ofAttribute).mapM attribute? = some i.notes.attributes
    rw [mapM_map fun a _ => attribute?_ofAttribute a, List.map_id']
  rw [notes?, name, link, attributes]
  rfl

theorem notes?_ofItem (i : Item) : notes? (ofItem i) = some (i.name, i.notes) := by
  have all := notes?_itemFields i []
  rwa [List.append_nil] at all

/-- The members of a class are read as the catalog that lists them. -/
theorem members_ofItem (owner : Text) (kind : MemberKind) (members : Catalog Text Notes) :
    (((Document.memberItems owner kind members).map ofItem).mapM notes?).bind catalog? =
      some members := by
  have entries : (Document.memberItems owner kind members).map (fun i => (i.name, i.notes)) =
      members.entries := by
    rw [Document.memberItems, List.map_map]
    exact List.map_id _
  rw [mapM_map fun i _ => notes?_ofItem i, entries]
  exact catalog?_entries members

theorem class?_ofListing (name : Text) (c : ClassNotes) :
    class? (ofListing (Document.listingOf name c)) = some (name, c) := by
  have notes : notes? (ofListing (Document.listingOf name c)) = some (name, c.notes) :=
    notes?_itemFields (Document.listingOf name c).item _
  have functions : (listOf? notes? "functions".toList (ofListing (Document.listingOf name c))).bind
      catalog? = some c.functions := members_ofItem name .function c.functions
  have data : (listOf? notes? "variables".toList (ofListing (Document.listingOf name c))).bind
      catalog? = some c.data := members_ofItem name .data c.data
  rw [class?, notes, functions, data]
  rfl

/-- **The value of a document tells all of it.** -/
theorem document?_ofDocument (d : Document) : document? (ofDocument d) = some d := by
  have project : (field? "project".toList (ofDocument d)).bind notes? =
      some (d.projectName, d.project) := notes?_ofItem d.projectItem
  have classes : (listOf? class? "classes".toList (ofDocument d)).bind catalog? =
      some d.classes := by
    show ((d.listings.map ofListing).mapM class?).bind catalog? = some d.classes
    rw [Document.listings, List.map_map, mapM_map fun x _ => class?_ofListing x.1 x.2]
    exact (congrArg catalog? (List.map_id _)).trans (catalog?_entries d.classes)
  rw [document?, project, classes]
  rfl

theorem readPage_page (d : Document) : readPage (page d) = some d := by
  have value : read (page d).contents = some (ofDocument d) := read_render (ofDocument d)
  rw [readPage, value]
  exact document?_ofDocument d

/-- **The page of a document tells all of it.** What is read of the page is the document, so that no
other document has the same page. -/
theorem page_injective_and_readPage_page :
    Function.Injective page ∧ ∀ d, readPage (page d) = some d := by
  refine ⟨?_, readPage_page⟩
  intro d d' same
  have read := readPage_page d
  rw [same, readPage_page] at read
  exact (Option.some.inj read).symm

end Docblock.Json
