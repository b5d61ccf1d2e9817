import Docblock.Document
import Mathlib.Data.List.Basic

/-!
# What is listed and what is found

A document is looked at in two ways: its classes and members are listed, and what is known of a
subject is found. Both show the same items. A class is listed under its own name, its members are
listed under theirs and belong to it, and the names of a list increase, so that nothing is listed
twice.

## Main definitions

* `Text.Increasing`: texts in strictly increasing order of their code points
* `Listing.members`: the members of one kind of a class
* `Listing.items`: a class and all of its members

## Main results

* `Key.before_iff_codePoints`: the order of names is that of their code points
* `item?_classNamed_eq_some_iff`, `item?_member_eq_some_iff`: what is found is what is listed
* `increasing_listings`, `increasing_members`: names are listed in increasing order
-/

namespace Docblock

/-! ## The order of names -/

/-- The code points of the characters of a text. -/
def Text.codePoints (t : Text) : List Nat := t.map Char.toNat

/-- Texts in strictly increasing order of their code points. -/
def Text.Increasing (texts : List Text) : Prop := (texts.map codePoints).Pairwise (· < ·)

/-- **Names are ordered by their code points.** -/
theorem Key.before_iff_codePoints {s t : Text} :
    Key.before s t = true ↔ s.codePoints < t.codePoints := by
  show lexBefore s t = true ↔ s.map Char.toNat < t.map Char.toNat
  induction s generalizing t with
  | nil => cases t <;> simp [lexBefore]
  | cons c s ih =>
    cases t with
    | nil => simp [lexBefore]
    | cons c' t =>
      rw [List.map_cons, List.map_cons, List.cons_lt_cons_iff, ← ih]
      have first : Key.before c c' = decide (c.toNat < c'.toNat) := rfl
      have second : Key.before c' c = decide (c'.toNat < c.toNat) := rfl
      simp only [lexBefore, first, second, Bool.or_eq_true, Bool.and_eq_true, Bool.not_eq_true',
        decide_eq_true_eq, decide_eq_false_iff_not]
      constructor
      · rintro (less | ⟨notMore, others⟩)
        · exact Or.inl less
        · rcases Nat.lt_or_ge c.toNat c'.toNat with less | more
          · exact Or.inl less
          · exact Or.inr ⟨Nat.le_antisymm (Nat.not_lt.1 notMore) more, others⟩
      · rintro (less | ⟨same, others⟩)
        · exact Or.inl less
        · exact Or.inr ⟨by omega, others⟩

namespace Text

/-- Names that increase are pairwise different. -/
theorem Increasing.nodup {texts : List Text} (increasing : Increasing texts) : texts.Nodup := by
  refine List.Pairwise.imp ?_ (List.pairwise_map.1 increasing)
  rintro s t less rfl
  exact List.lt_irrefl _ less

end Text

namespace Catalog

variable {α : Type}

/-- **The names in a catalog increase.** -/
theorem increasing_keys (c : Catalog Text α) : Text.Increasing c.keys := by
  refine List.pairwise_map.2 (List.pairwise_map.2 ?_)
  exact c.ordered.imp fun less => Key.before_iff_codePoints.1 less

end Catalog

/-! ## Listings -/

namespace Listing

/-- The members of one kind of a class. -/
def members (l : Listing) : MemberKind → List Item
  | .function => l.functions
  | .data => l.data

/-- A class and all of its members. -/
def items (l : Listing) : List Item := l.item :: (l.functions ++ l.data)

variable {l : Listing} {i : Item}

theorem mem_functions_append_data_iff :
    i ∈ l.functions ++ l.data ↔ ∃ kind, i ∈ l.members kind := by
  rw [List.mem_append]
  constructor
  · rintro (inside | inside)
    · exact ⟨.function, inside⟩
    · exact ⟨.data, inside⟩
  · rintro ⟨kind, inside⟩
    cases kind with
    | function => exact Or.inl inside
    | data => exact Or.inr inside

theorem mem_items_iff : i ∈ l.items ↔ i = l.item ∨ ∃ kind, i ∈ l.members kind := by
  rw [items, List.mem_cons, mem_functions_append_data_iff]

end Listing

namespace Document

variable {d : Document} {l : Listing} {i : Item} {kind : MemberKind} {owner name : Text}

theorem members_listingOf (name : Text) (c : ClassNotes) (kind : MemberKind) :
    (listingOf name c).members kind = memberItems name kind (c.members kind) := by
  cases kind <;> rfl

theorem mem_memberItems_iff {members : Catalog Text Notes} :
    i ∈ memberItems owner kind members ↔
      ∃ name notes, members.get? name = some notes ∧ i = ⟨.member kind owner name, name, notes⟩ := by
  rw [memberItems, List.mem_map]
  constructor
  · rintro ⟨⟨name, notes⟩, listed, rfl⟩
    exact ⟨name, notes, Catalog.get?_eq_some_iff.2 listed, rfl⟩
  · rintro ⟨name, notes, found, rfl⟩
    exact ⟨(name, notes), Catalog.get?_eq_some_iff.1 found, rfl⟩

theorem mem_listings_iff : l ∈ d.listings ↔ ∃ name, d.listing? name = some l := by
  simp only [listings, listing?, List.mem_map, Option.map_eq_some_iff, Catalog.get?_eq_some_iff,
    Prod.exists]

/-- What is listed under a name is the class of that name. -/
theorem item_of_listing? (listed : d.listing? name = some l) :
    l.item.subject = .classNamed name ∧ l.item.name = name := by
  obtain ⟨c, -, rfl⟩ := Option.map_eq_some_iff.1 listed
  exact ⟨rfl, rfl⟩

/-- **The class of a name is found as it is listed.** -/
theorem item?_classNamed_eq_some_iff :
    d.item? (.classNamed name) = some i ↔ ∃ l, d.listing? name = some l ∧ l.item = i := by
  simp only [item?, notes?, listing?, Option.map_map, Option.map_eq_some_iff,
    exists_exists_and_eq_and]
  rfl

/-- **A member is found as it is listed** with its class. -/
theorem item?_member_eq_some_iff :
    d.item? (.member kind owner name) = some i ↔
      ∃ l, d.listing? owner = some l ∧ i ∈ l.members kind ∧ i.name = name := by
  simp only [item?, notes?, listing?, Option.map_eq_some_iff, Option.bind_eq_some_iff,
    exists_exists_and_eq_and, members_listingOf, mem_memberItems_iff]
  constructor
  · rintro ⟨notes, ⟨c, known, found⟩, rfl⟩
    exact ⟨c, known, ⟨name, notes, found, rfl⟩, rfl⟩
  · rintro ⟨c, known, ⟨name, notes, found, rfl⟩, rfl⟩
    exact ⟨notes, ⟨c, known, found⟩, rfl⟩

/-- A member belongs to the class that it is listed with. -/
theorem subject_of_mem_members (listed : d.listing? owner = some l) (inside : i ∈ l.members kind) :
    i.subject = .member kind owner i.name := by
  obtain ⟨c, -, rfl⟩ := Option.map_eq_some_iff.1 listed
  rw [members_listingOf] at inside
  obtain ⟨name, notes, -, rfl⟩ := mem_memberItems_iff.1 inside
  rfl

/-- **Classes are listed in increasing order of their names.** -/
theorem increasing_listings (d : Document) : Text.Increasing (d.listings.map (·.item.name)) := by
  have names : d.listings.map (·.item.name) = d.classes.keys := by
    rw [listings, List.map_map]
    rfl
  rw [names]
  exact d.classes.increasing_keys

/-- **Members are listed in increasing order of their names.** -/
theorem increasing_members (listed : d.listing? owner = some l) (kind : MemberKind) :
    Text.Increasing ((l.members kind).map (·.name)) := by
  obtain ⟨c, -, rfl⟩ := Option.map_eq_some_iff.1 listed
  have names : ((listingOf owner c).members kind).map (·.name) = (c.members kind).keys := by
    rw [members_listingOf, memberItems, List.map_map]
    rfl
  rw [names]
  exact (c.members kind).increasing_keys

end Document

end Docblock
