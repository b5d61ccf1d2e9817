import Docblock.Html.Layout
import Docblock.Proofs.Listings
import Mathlib.Data.List.Nodup
import Mathlib.Data.List.Perm.Subperm
import Mathlib.Order.Bounds.Basic

/-!
# The names of pages

The file names of the pages of a document are pairwise different, also where the case of letters is
ignored. A class keeps its own name if no page before it has that name; otherwise numbers are tried
from two on. A number with its name could itself be the name of another class, so it takes counting
to see that the search ends: the names that are tried are all different, and one more of them is
tried than there are names before.

## Main definitions

* `Differ`: two names are different, whatever the case of their letters
* `Assigned`: the name that a class gets beside the names before it
* `TakenNames.Holds`: the taken names are some names in lower case

## Main results

* `exists_free_number`: one of the numbers up to the number of names before is free
* `assigned_freeName`: the name that is chosen is the one that the class gets
* `pairwise_assignFrom`: the names of classes are pairwise different
* `pages_named`: the pages of a document, their names, and the rows that refer to them
-/

namespace Docblock

/-! ## The characters of file names -/

/-- The digits of base sixteen stand for themselves in an anchor. -/
theorem isAnchorChar_of_mem_hexadecimal {c : Char} {n : Nat} (inside : c ∈ Text.hexadecimal n) :
    isAnchorChar c = true := by
  have digit : ∀ d < 16, isAnchorChar (Nat.digitChar d) = true := by decide
  unfold Text.hexadecimal at inside
  induction n using Nat.strong_induction_on with
  | _ n ih =>
    rw [Nat.toDigits_eq_if (by decide)] at inside
    split at inside
    · rename_i small
      rw [List.mem_singleton.1 inside]
      exact digit n small
    · rename_i large
      rcases List.mem_append.1 inside with front | last
      · exact ih (n / 16) (by omega) front
      · rw [List.mem_singleton.1 last]
        exact digit (n % 16) (Nat.mod_lt n (by decide))

/-- **An anchor is made of characters that stand for themselves.** -/
theorem isAnchorChar_of_mem_anchor {link : Text} {c : Char} (inside : c ∈ anchor link) :
    isAnchorChar c = true := by
  obtain ⟨c', -, written⟩ := List.mem_flatMap.1 inside
  rw [anchorChar] at written
  split at written
  · rename_i plain
    rw [List.mem_singleton.1 written]
    exact plain
  · obtain ⟨b, -, written⟩ := List.mem_flatMap.1 written
    rcases List.mem_cons.1 written with rfl | digits
    · rfl
    · exact isAnchorChar_of_mem_hexadecimal digits

/-- What stands for itself in an anchor stands for itself in a page. -/
theorem Markup.entity_of_isAnchorChar {c : Char} (plain : isAnchorChar c = true) :
    entity c = [c] := by
  unfold entity
  split
  · cases plain
  · cases plain
  · cases plain
  · cases plain
  · rfl

theorem Markup.escape_of_isAnchorChar {t : Text} (plain : ∀ c ∈ t, isAnchorChar c = true) :
    escape t = t := by
  induction t with
  | nil => rfl
  | cons c t ih =>
    obtain ⟨first, others⟩ := List.forall_mem_cons.1 plain
    rw [escape, List.flatMap_cons, Markup.entity_of_isAnchorChar first]
    exact congrArg (c :: ·) (ih others)

/-- The lower case of a digit is the digit. -/
theorem toLower_of_isDigit {c : Char} (digit : c.isDigit = true) : c.toLower = c := by
  unfold Char.toLower
  refine dif_neg ?_
  rintro ⟨above, -⟩
  have below : c.val ≤ '9'.val := (Bool.and_eq_true_iff.1 digit).2 |> of_decide_eq_true
  exact absurd (UInt32.le_trans above below) (by decide)

namespace Html

variable {className name : Text} {names : List Text} {taken : TakenNames}

/-! ## Names with numbers -/

theorem decimal_injective : Function.Injective Text.decimal := by
  intro n m same
  have numbers := congrArg (Nat.ofDigitChars 10 · 0) same
  simpa only [Text.decimal, Nat.ofDigitChars_ten_toDigits] using numbers

theorem lowerAscii_decimal (n : Nat) : (Text.decimal n).lowerAscii = Text.decimal n := by
  refine (List.map_congr_left ?_).trans (List.map_id _)
  intro c inside
  exact toLower_of_isDigit (Nat.isDigit_of_mem_toDigits (by decide) (by decide) inside)

theorem lowerAscii_pageName (className : Text) :
    (pageName className).lowerAscii = (anchor className).lowerAscii ++ ".html".toList := by
  rw [pageName, Text.lowerAscii_append]
  rfl

theorem lowerAscii_numberedName (className : Text) (n : Nat) :
    (numberedName className n).lowerAscii =
      (anchor className).lowerAscii ++ ('_' :: Text.decimal n ++ ".html".toList) := by
  have number : Text.lowerAscii ('_' :: Text.decimal n) = '_' :: Text.decimal n :=
    congrArg ('_' :: ·) (lowerAscii_decimal n)
  rw [numberedName, Text.lowerAscii_append, Text.lowerAscii_append, number, List.append_assoc]
  rfl

/-- Names with different numbers are different in lower case as well. -/
theorem lowerAscii_numberedName_injective (className : Text) :
    Function.Injective fun n => (numberedName className n).lowerAscii := by
  intro n m same
  simp only [lowerAscii_numberedName] at same
  have tails := List.append_cancel_right (List.append_cancel_left same)
  exact decimal_injective (List.cons.inj tails).2

/-- A name with a number is longer than the name without one. -/
theorem lowerAscii_numberedName_ne (className : Text) (n : Nat) :
    (numberedName className n).lowerAscii ≠ (pageName className).lowerAscii := by
  rw [lowerAscii_numberedName, lowerAscii_pageName]
  intro same
  have lengths := congrArg List.length (List.append_cancel_left same)
  simp only [List.cons_append, List.length_cons, List.length_append] at lengths
  omega

/-! ## Free names -/

/-- Two names are different, whatever the case of their letters. -/
def Differ (a b : Text) : Prop := a.sameIgnoringCase b = false

/-- A name is different from all of some names, whatever the case of its letters. -/
def Free (names : List Text) (name : Text) : Prop := ∀ other ∈ names, Differ other name

theorem differ_iff {a b : Text} : Differ a b ↔ a.lowerAscii ≠ b.lowerAscii := by
  rw [Differ, ← Bool.not_eq_true, Text.sameIgnoringCase_iff]

theorem free_iff : Free names name ↔ name.lowerAscii ∉ names.map Text.lowerAscii := by
  rw [List.mem_map, not_exists]
  exact forall_congr' fun other => by rw [differ_iff, not_and]

/-- The name that a class gets beside the names before it: its own if that is free, otherwise the
one with the least number from two on with which it is free. The number is at most one more than
there are names before. -/
inductive Assigned (names : List Text) (className : Text) : Text → Prop
  | own (free : Free names (pageName className)) : Assigned names className (pageName className)
  | numbered {n : Nat} (clash : ¬ Free names (pageName className))
      (least : IsLeast {k | 2 ≤ k ∧ Free names (numberedName className k)} n)
      (bound : n ≤ names.length + 1) : Assigned names className (numberedName className n)

theorem Assigned.free (assigned : Assigned names className name) : Free names name := by
  cases assigned with
  | own free => exact free
  | numbered clash least bound => exact least.1.2

/-- **One of the numbers up to the number of names before is free.** If none were, the own name and
the names with these numbers were all among the names before, and there are too many of them. -/
theorem exists_free_number (clash : ¬ Free names (pageName className)) :
    ∃ k < names.length, Free names (numberedName className (k + 2)) := by
  by_contra noneFree
  push Not at noneFree
  let tried := (List.range names.length).map fun k => (numberedName className (k + 2)).lowerAscii
  have nodup : ((pageName className).lowerAscii :: tried).Nodup := by
    refine List.nodup_cons.2 ⟨?_, ?_⟩
    · intro inside
      obtain ⟨k, -, same⟩ := List.mem_map.1 inside
      exact lowerAscii_numberedName_ne className (k + 2) same
    · refine List.Nodup.map ?_ List.nodup_range
      intro k j same
      exact Nat.add_right_cancel (lowerAscii_numberedName_injective className same)
  have inside : (pageName className).lowerAscii :: tried ⊆ names.map Text.lowerAscii := by
    intro t member
    rcases List.mem_cons.1 member with rfl | member
    · exact not_not.1 fun absent => clash (free_iff.2 absent)
    · obtain ⟨k, small, rfl⟩ := List.mem_map.1 member
      exact not_not.1 fun absent => noneFree k (List.mem_range.1 small) (free_iff.2 absent)
  have lengths := (List.subperm_of_subset nodup inside).length_le
  simp only [tried, List.length_cons, List.length_map, List.length_range] at lengths
  omega

/-! ## The taken names -/

/-- The taken names are some names in lower case. -/
structure TakenNames.Holds (taken : TakenNames) (names : List Text) : Prop where
  contains : ∀ name, taken.isFree name = true ↔ Free names name
  size : taken.size = names.length

theorem isFree_insert_iff {t : Text} :
    TakenNames.isFree (taken.insert t) name = true ↔
      taken.isFree name = true ∧ t ≠ name.lowerAscii := by
  simp [TakenNames.isFree, Std.TreeSet.contains_insert, and_comm]

theorem free_append_iff {other : Text} :
    Free (names ++ [other]) name ↔ Free names name ∧ other.lowerAscii ≠ name.lowerAscii := by
  simp only [Free, List.forall_mem_append, List.forall_mem_singleton, differ_iff]

theorem holds_empty : TakenNames.Holds Std.TreeSet.empty [] where
  contains _ := iff_of_true rfl fun _ inside => nomatch inside
  size := rfl

/-- A free name that is taken is one name more. -/
theorem TakenNames.Holds.insert (holds : taken.Holds names) (free : Free names name) :
    TakenNames.Holds (taken.insert name.lowerAscii) (names ++ [name]) where
  contains other := by rw [isFree_insert_iff, free_append_iff, holds.contains]
  size := by
    have absent := (holds.contains name).2 free
    rw [TakenNames.isFree, Bool.not_eq_true'] at absent
    rw [Std.TreeSet.size_insert, absent, holds.size, List.length_append]
    rfl

/-- The name of the index is taken before any class gets its name. -/
theorem holds_indexName : TakenNames.Holds (Std.TreeSet.empty.insert indexName) [indexName] := by
  have free : Free [] indexName := fun _ inside => nomatch inside
  exact holds_empty.insert free

/-- The number that is found is the least one with which the name of a class is free. -/
theorem freeNumber_spec (holds : taken.Holds names) {className : Text}
    (clash : ¬ Free names (pageName className)) :
    IsLeast {k | 2 ≤ k ∧ Free names (numberedName className k)} (freeNumber taken className) ∧
      freeNumber taken className ≤ names.length + 1 := by
  obtain ⟨j, small, free⟩ := exists_free_number clash
  have isFree (k : Nat) := holds.contains (numberedName className (k + 2))
  unfold freeNumber
  cases found : (List.range (taken.size + 1)).find? fun k =>
      taken.isFree (numberedName className (k + 2)) with
  | none =>
    have none := List.find?_range_eq_none.1 found j (by rw [holds.size]; omega)
    simp [(isFree j).2 free] at none
  | some k =>
    obtain ⟨here, -, before⟩ := List.find?_range_eq_some.1 found
    -- No number below the one that is found is free, so it is at most any number that is.
    have le_of_free {i : Nat} (free : Free names (numberedName className (i + 2))) : k ≤ i := by
      by_contra less
      have taken := before i (Nat.lt_of_not_le less)
      rw [(isFree i).2 free] at taken
      cases taken
    refine ⟨⟨⟨Nat.le_add_left 2 k, (isFree k).1 here⟩, ?_⟩, ?_⟩
    · rintro n ⟨two, free⟩
      obtain ⟨i, rfl⟩ := Nat.exists_eq_add_of_le' two
      exact Nat.add_le_add_right (le_of_free free) 2
    · have le := le_of_free free
      show k + 2 ≤ names.length + 1
      omega

/-- **The name that is chosen is the one that the class gets.** -/
theorem assigned_freeName (holds : taken.Holds names) (className : Text) :
    Assigned names className (freeName taken className) := by
  unfold freeName
  split
  · rename_i free
    exact .own ((holds.contains _).1 free)
  · rename_i clash
    have clash : ¬ Free names (pageName className) := fun free => clash ((holds.contains _).2 free)
    obtain ⟨least, bound⟩ := freeNumber_spec holds clash
    exact .numbered clash least bound

/-! ## The names of classes -/

/-- The names of classes are assigned one after the other: each class gets its name beside the names
before it. -/
inductive AssignedAll : List Text → List Text → List Text → Prop
  | nil {names : List Text} : AssignedAll names [] []
  | cons {names : List Text} {className name : Text} {classNames others : List Text}
      (first : Assigned names className name)
      (later : AssignedAll (names ++ [name]) classNames others) :
      AssignedAll names (className :: classNames) (name :: others)

theorem assignedAll_assignFrom (holds : taken.Holds names) (classNames : List Text) :
    AssignedAll names classNames (assignFrom taken classNames) := by
  induction classNames generalizing taken names with
  | nil => exact .nil
  | cons className classNames ih =>
    have first := assigned_freeName holds className
    exact .cons first (ih (holds.insert first.free))

namespace AssignedAll

variable {classNames assigned : List Text}

theorem length_eq (all : AssignedAll names classNames assigned) :
    assigned.length = classNames.length := by
  induction all with
  | nil => rfl
  | cons first later ih => rw [List.length_cons, List.length_cons, ih]

/-- **Names that are assigned are pairwise different**, also from the names before. -/
theorem pairwise (all : AssignedAll names classNames assigned) (differ : names.Pairwise Differ) :
    (names ++ assigned).Pairwise Differ := by
  induction all with
  | nil => rwa [List.append_nil]
  | @cons names className name classNames others first later ih =>
    rw [List.append_cons]
    refine ih (List.pairwise_append.2 ⟨differ, List.pairwise_singleton _ _, ?_⟩)
    intro other inside name' isName
    rw [List.mem_singleton.1 isName]
    exact first.free other inside

/-- Each class gets its name beside those before it. -/
theorem assigned_getElem? (all : AssignedAll names classNames assigned) {i : Nat}
    {className : Text} (listed : classNames[i]? = some className) :
    ∃ name, assigned[i]? = some name ∧ Assigned (names ++ assigned.take i) className name := by
  induction all generalizing i with
  | nil => cases listed
  | @cons names className' name classNames others first later ih =>
    cases i with
    | zero =>
      obtain rfl := Option.some.inj listed
      exact ⟨name, rfl, by simpa using first⟩
    | succ i =>
      obtain ⟨name', here, assignedHere⟩ := ih listed
      refine ⟨name', here, ?_⟩
      rwa [List.append_assoc] at assignedHere

end AssignedAll

/-- A name that is assigned is made of the characters of anchors, and ends like a file name. -/
theorem Assigned.isFileName (assigned : Assigned names className name) :
    (∀ c ∈ name, isAnchorChar c = true) ∧ ".html".toList <:+ name := by
  have isSuffix : ".html".toList.all isAnchorChar = true := rfl
  have suffix := List.all_eq_true.1 isSuffix
  cases assigned with
  | own free =>
    refine ⟨?_, List.suffix_append _ _⟩
    exact List.forall_mem_append.2 ⟨fun c => isAnchorChar_of_mem_anchor, suffix⟩
  | @numbered n clash least bound =>
    refine ⟨?_, List.suffix_append _ _⟩
    refine List.forall_mem_append.2 ⟨List.forall_mem_append.2 ⟨?_, ?_⟩, suffix⟩
    · exact fun c => isAnchorChar_of_mem_anchor
    · refine List.forall_mem_cons.2 ⟨rfl, fun c inside => ?_⟩
      have digit : c.isDigit = true := Nat.isDigit_of_mem_toDigits (by decide) (by decide) inside
      simp [isAnchorChar, Char.isAlphanum, digit]

theorem AssignedAll.isFileName {classNames assigned : List Text}
    (all : AssignedAll names classNames assigned) (inside : name ∈ assigned) :
    (∀ c ∈ name, isAnchorChar c = true) ∧ ".html".toList <:+ name := by
  induction all with
  | nil => cases inside
  | cons first later ih =>
    rcases List.mem_cons.1 inside with rfl | inside
    · exact first.isFileName
    · exact ih inside

/-! ## The pages of a document -/

section Pages

variable {d : Document} {l : Listing} {i : Nat}

theorem assignedAll_assignNames (classNames : List Text) :
    AssignedAll [indexName] classNames (assignNames classNames) :=
  assignedAll_assignFrom holds_indexName classNames

/-- The names that are assigned are as many as the classes. -/
theorem length_assignNames (d : Document) :
    (assignNames ((namedClasses d).map (·.item.name))).length = (namedClasses d).length := by
  rw [(assignedAll_assignNames _).length_eq, List.length_map]

/-- The pages of classes are those of all classes with a name, in order. -/
theorem map_fst_classPages (d : Document) : (classPages d).map (·.1) = namedClasses d :=
  List.map_fst_zip (length_assignNames d).ge

theorem length_classPages (d : Document) : (classPages d).length = (namedClasses d).length := by
  rw [← map_fst_classPages d, List.length_map]

/-- The file names of the pages: that of the index, and those that the classes get. -/
theorem map_fileName_pages (d : Document) :
    (pages d).map (·.fileName) =
      indexName :: assignNames ((namedClasses d).map (·.item.name)) := by
  have behind : (classPages d).map (·.2) = assignNames ((namedClasses d).map (·.item.name)) :=
    List.map_snd_zip (length_assignNames d).le
  rw [pages, List.map_cons, List.map_map, ← behind]
  rfl

/-- Each class has its page, under the name that it gets beside those before it. -/
theorem exists_getElem?_classPages (listed : (namedClasses d)[i]? = some l) :
    ∃ name, (classPages d)[i]? = some (l, name) ∧
      Assigned (((pages d).map (·.fileName)).take (i + 1)) l.item.name name := by
  have named : ((namedClasses d).map (·.item.name))[i]? = some l.item.name := by
    rw [List.getElem?_map, listed, Option.map_some]
  obtain ⟨name, here, assigned⟩ := (assignedAll_assignNames _).assigned_getElem? named
  refine ⟨name, List.getElem?_zip_eq_some.2 ⟨listed, here⟩, ?_⟩
  rw [map_fileName_pages, List.take_succ_cons]
  exact assigned

theorem increasing_namedClasses (d : Document) :
    Text.Increasing ((namedClasses d).map (·.item.name)) := by
  have increasing := d.increasing_listings
  rw [Text.Increasing, List.map_map, List.pairwise_map] at increasing ⊢
  exact increasing.filter _

/-- A file name in a row stands there as it is: nothing in it is escaped. -/
theorem prefix_render_row {row : Row} (plain : ∀ c ∈ row.target, isAnchorChar c = true) :
    "  <tr><td><a href=\"".toList ++ row.target ++ "\">".toList <+: row.render := by
  refine ⟨Markup.escape row.label ++ "</a></td><td>".toList ++ row.title ++
    "</td></tr>\n".toList, ?_⟩
  -- The text of a row is too long for `rw` to find its equation.
  unfold Row.render
  rw [Markup.escape_of_isAnchorChar plain]
  simp only [List.append_assoc]

/-- Where there are classes, the index refers to them behind the section of the project. -/
theorem exists_indexParts_eq (some : namedClasses d ≠ []) :
    ∃ behind, indexParts d = .details (.ofItem d.projectItem) ::
      .index (d.projectItem.fullName ++ " classes".toList) ((classPages d).map classRow) ::
        behind := by
  have notEmpty : (classPages d).isEmpty = false := by
    rw [List.isEmpty_eq_false_iff, ← List.length_pos_iff, length_classPages]
    exact List.length_pos_iff.2 some
  refine ⟨[.rule, .heading (d.projectItem.fullName ++ " globals".toList)] ++ globalParts d, ?_⟩
  rw [indexParts, classIndex, notEmpty]
  rfl

/-- What stands on the index in front of the rows of the classes: its head, the section of the
project, and the heading of the table. -/
def frontOfRows (d : Document) : Text :=
  renderHead d.projectItem.fullName ++ (Section.ofItem d.projectItem).render ++
    renderHeading (d.projectItem.fullName ++ " classes".toList) ++ "<table>\n".toList

/-- A page with a section and a table behind it. -/
theorem renderPage_table (title above : Text) (s : Section) (rows : List Row)
    (behind : List Part) :
    renderPage title (.details s :: .index above rows :: behind) =
      renderHead title ++ s.render ++ renderHeading above ++ "<table>\n".toList ++
        rows.flatMap Row.render ++ "</table>\n".toList ++
          (behind.flatMap Part.render ++ renderFoot) := by
  have table : (Part.index above rows).render = renderHeading above ++ "<table>\n".toList ++
      rows.flatMap Row.render ++ "</table>\n".toList := rfl
  simp only [renderPage, List.flatMap_cons, Part.render_details, table, List.append_assoc]

/-- Behind its head the page of a class starts with the section of the class. -/
theorem prefix_contents_classPage (l : Listing) (name : Text) :
    renderHead l.item.fullName ++ (Section.ofItem l.item).render <+:
      (classPage (l, name)).contents := by
  refine ⟨(memberParts l).flatMap Part.render ++ renderFoot, ?_⟩
  simp only [classPage, classParts, renderPage, List.flatMap_cons, Part.render_details,
    List.append_assoc]

/-- A piece of a list stands in the list with all that is made of the pieces before it. -/
theorem prefix_flatMap {α : Type} {xs : List α} {x : α} {i : Nat} (f : α → Text)
    (found : xs[i]? = some x) : (xs.take i).flatMap f ++ f x <+: xs.flatMap f := by
  have through : xs.take (i + 1) = xs.take i ++ [x] := by
    rw [List.take_add_one, found, Option.toList_some]
  have taken : (xs.take (i + 1)).flatMap f <+: xs.flatMap f := by
    refine ⟨(xs.drop (i + 1)).flatMap f, ?_⟩
    rw [← List.flatMap_append, List.take_append_drop]
  rw [through, List.flatMap_append, List.flatMap_singleton] at taken
  exact taken

/-- **The pages of a document and their names.** The first page is the index, and behind it there is
one for each class with a name, in the order of the classes. The file names are pairwise different,
also where case is ignored, and they are made of the characters of anchors with `.html` behind them.
Each class gets its name beside the names before it. The index tells of the project and then, if
there are classes, refers to them: its rows are those of the classes, one after the other in one
table, and each one leads to the file name of the page of its class, which starts with the section
of the class. -/
theorem pages_named (d : Document) :
    let files := (pages d).map (·.fileName)
    let rows := (classPages d).map classRow
    (pages d).head? = some ⟨indexName, renderPage d.projectItem.fullName (indexParts d)⟩ ∧
      files.length = (namedClasses d).length + 1 ∧
      Text.Increasing ((namedClasses d).map (·.item.name)) ∧
      files.Pairwise Differ ∧
      (∀ file ∈ files, (∀ c ∈ file, isAnchorChar c = true) ∧ ".html".toList <:+ file) ∧
      rows.length = (namedClasses d).length ∧
      (namedClasses d ≠ [] → ∃ behind, indexParts d =
        .details (.ofItem d.projectItem) ::
          .index (d.projectItem.fullName ++ " classes".toList) rows :: behind ∧
        ∃ index, (pages d).head? = some index ∧
          index.contents = frontOfRows d ++ rows.flatMap Row.render ++ "</table>\n".toList ++
            (behind.flatMap Part.render ++ renderFoot)) ∧
      ∀ i l, (namedClasses d)[i]? = some l → ∃ page row,
        (pages d)[i + 1]? = some page ∧
        Assigned (files.take (i + 1)) l.item.name page.fileName ∧
        page.contents = renderPage l.item.fullName (classParts l) ∧
        rows[i]? = some row ∧ row.target = page.fileName ∧ row.label = l.item.shortName ∧
        "  <tr><td><a href=\"".toList ++ page.fileName ++ "\">".toList <+: row.render ∧
        renderHead l.item.fullName ++ (Section.ofItem l.item).render <+: page.contents ∧
        ∃ index, (pages d).head? = some index ∧
          frontOfRows d ++ ((rows.take i).flatMap Row.render ++ row.render) <+:
            index.contents := by
  intro files rows
  have all := assignedAll_assignNames ((namedClasses d).map (·.item.name))
  have isFileName : ∀ file ∈ files,
      (∀ c ∈ file, isAnchorChar c = true) ∧ ".html".toList <:+ file := by
    intro file inside
    rw [show files = _ from map_fileName_pages d] at inside
    rcases List.mem_cons.1 inside with rfl | inside
    · have plain : indexName.all isAnchorChar = true := rfl
      exact ⟨List.all_eq_true.1 plain, List.suffix_append "index".toList ".html".toList⟩
    · exact all.isFileName inside
  have table (some : namedClasses d ≠ []) : ∃ behind, indexParts d =
      .details (.ofItem d.projectItem) ::
        .index (d.projectItem.fullName ++ " classes".toList) rows :: behind ∧
      (indexPage d).contents = frontOfRows d ++ rows.flatMap Row.render ++ "</table>\n".toList ++
        (behind.flatMap Part.render ++ renderFoot) := by
    obtain ⟨behind, parts⟩ := exists_indexParts_eq some
    refine ⟨behind, parts, ?_⟩
    rw [indexPage, parts, frontOfRows]
    exact renderPage_table _ _ _ rows behind
  refine ⟨rfl, ?_, increasing_namedClasses d, ?_, isFileName, ?_, ?_, ?_⟩
  · rw [List.length_map, pages, List.length_cons, List.length_map, length_classPages]
  · rw [show files = _ from map_fileName_pages d]
    exact all.pairwise (List.pairwise_singleton _ _)
  · rw [List.length_map, length_classPages]
  · intro some
    obtain ⟨behind, parts, contents⟩ := table some
    exact ⟨behind, parts, indexPage d, rfl, contents⟩
  · intro i l listed
    obtain ⟨name, here, assigned⟩ := exists_getElem?_classPages listed
    have isRow : rows[i]? = some (classRow (l, name)) := by
      rw [List.getElem?_map, here, Option.map_some]
    refine ⟨classPage (l, name), classRow (l, name), ?_, assigned, rfl, isRow, rfl, rfl, ?_,
      prefix_contents_classPage l name, indexPage d, rfl, ?_⟩
    · rw [pages, List.getElem?_cons_succ, List.getElem?_map, here, Option.map_some]
    · have plain : ∀ c ∈ (classRow (l, name)).target, isAnchorChar c = true :=
        assigned.isFileName.1
      exact prefix_render_row plain
    · obtain ⟨behind, -, contents⟩ := table (List.ne_nil_of_mem (List.mem_of_getElem? listed))
      rw [contents, List.append_assoc, List.append_assoc]
      exact (List.prefix_append_right_inj _).2
        ((prefix_flatMap Row.render isRow).trans (List.prefix_append _ _))

end Pages

end Html

end Docblock
