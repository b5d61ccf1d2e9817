import Docblock.Key

/-!
# Catalogs

A catalog keeps values under keys, and lists them in the order of the keys. The order is part of
its type, so a catalog is determined by what is found in it.

## Main definitions

* `Catalog`: values under keys, listed in increasing order
* `Catalog.get?`: what is found under a key
* `Catalog.update`: a catalog with one value put in or changed
* `Catalog.map`: a catalog with other values under the same keys

## Main results

* `get?_update_self`, `get?_update_of_ne`: an update is found under its key, and nowhere else
* `ext_get?`: two catalogs in which the same is found are equal
* `map_update`: an update may be made before the values are replaced or afterwards
-/

namespace Docblock

/-- Values under keys, listed in increasing order of the keys. -/
@[ext] structure Catalog (κ : Type) [Key κ] (α : Type) where
  entries : List (κ × α) := []
  ordered : entries.Pairwise (fun x y => Key.before x.1 y.1 = true) := by exact List.Pairwise.nil

namespace Catalog

variable {κ α β : Type} [Key κ]

/-- What is listed under a key. -/
def find (k : κ) : List (κ × α) → Option α
  | [] => none
  | (j, a) :: rest =>
    if Key.before j k then find k rest else if Key.before k j then none else some a

/-- A list of entries with the value under a key replaced, or put in at its place. -/
def put (k : κ) (f : Option α → α) : List (κ × α) → List (κ × α)
  | [] => [(k, f none)]
  | (j, a) :: rest =>
    if Key.before j k then (j, a) :: put k f rest
    else if Key.before k j then (k, f none) :: (j, a) :: rest
    else (j, f (some a)) :: rest

theorem mem_put {k : κ} {f : Option α → α} {entries : List (κ × α)} {x : κ × α}
    (h : x ∈ put k f entries) : x ∈ entries ∨ x = (k, f (find k entries)) := by
  induction entries with
  | nil => exact Or.inr (by simpa [put, find] using h)
  | cons y rest ih =>
    obtain ⟨j, a⟩ := y
    by_cases less : Key.before j k = true
    · simp only [put, find, less, if_true] at h ⊢
      rcases List.mem_cons.1 h with rfl | h
      · exact Or.inl List.mem_cons_self
      · exact (ih h).imp_left (List.mem_cons_of_mem _)
    · by_cases more : Key.before k j = true
      · simp only [put, find, less, more, if_true, if_false, Bool.false_eq_true] at h ⊢
        exact (List.mem_cons.1 h).symm
      · obtain rfl := Key.eq_of_not_before (by simpa using less) (by simpa using more)
        simp only [put, find, less, if_false, Bool.false_eq_true] at h ⊢
        exact (List.mem_cons.1 h).symm.imp_left (List.mem_cons_of_mem _)

theorem ordered_put (k : κ) (f : Option α → α) {entries : List (κ × α)}
    (h : entries.Pairwise (fun x y => Key.before x.1 y.1 = true)) :
    (put k f entries).Pairwise (fun x y => Key.before x.1 y.1 = true) := by
  induction entries with
  | nil => simp [put]
  | cons y rest ih =>
    obtain ⟨j, a⟩ := y
    obtain ⟨first, others⟩ := List.pairwise_cons.1 h
    simp only [put]
    split
    · rename_i less
      refine List.pairwise_cons.2 ⟨?_, ih others⟩
      intro x hx
      rcases mem_put hx with old | rfl
      · exact first x old
      · exact less
    · split
      · rename_i less
        refine List.pairwise_cons.2 ⟨?_, h⟩
        intro x hx
        rcases List.mem_cons.1 hx with rfl | hx
        · exact less
        · exact Key.before_trans less (first x hx)
      · exact List.pairwise_cons.2 ⟨first, others⟩

/-- What is found under a key. -/
def get? (c : Catalog κ α) (k : κ) : Option α := find k c.entries

/-- The catalog in which the value under a key is what a function makes of the value that is found
there, if there is one. -/
def update (c : Catalog κ α) (k : κ) (f : Option α → α) : Catalog κ α :=
  ⟨put k f c.entries, ordered_put k f c.ordered⟩

/-- The keys, in increasing order. -/
def keys (c : Catalog κ α) : List κ := c.entries.map (·.1)

/-- The values, in the order of their keys. -/
def values (c : Catalog κ α) : List α := c.entries.map (·.2)

/-- A catalog with other values under the same keys. -/
def map (f : α → β) (c : Catalog κ α) : Catalog κ β where
  entries := c.entries.map (Prod.map id f)
  ordered := List.pairwise_map.2 c.ordered

/-- Whether nothing is kept. -/
def isEmpty (c : Catalog κ α) : Bool := c.entries.isEmpty

/-! ## What is found -/

@[simp] theorem get?_empty (k : κ) : ({} : Catalog κ α).get? k = none := rfl

theorem find_put_self (k : κ) (f : Option α → α) (entries : List (κ × α)) :
    find k (put k f entries) = some (f (find k entries)) := by
  induction entries with
  | nil => simp [put, find, Key.before_irrefl]
  | cons y rest ih =>
    obtain ⟨j, a⟩ := y
    by_cases less : Key.before j k = true
    · simp [put, find, less, ih]
    · by_cases more : Key.before k j = true
      · simp [put, find, less, more, Key.before_irrefl]
      · simp [put, find, less, more]

theorem find_put_of_ne {k j : κ} (h : j ≠ k) (f : Option α → α) (entries : List (κ × α)) :
    find j (put k f entries) = find j entries := by
  induction entries with
  | nil =>
    simp only [put, find]
    split
    · rfl
    · split
      · rfl
      · rename_i notLess notMore
        exact absurd (Key.eq_of_not_before (by simpa using notMore) (by simpa using notLess)) h
  | cons y rest ih =>
    obtain ⟨i, a⟩ := y
    by_cases less : Key.before i k = true
    · simp only [put, less, if_true, find, ih]
    · by_cases more : Key.before k i = true
      · simp only [put, less, more, if_true, if_false, find, Bool.false_eq_true]
        by_cases before : Key.before k j = true
        · simp [before]
        · by_cases behind : Key.before j k = true
          · have away : Key.before j i = true := Key.before_trans behind more
            simp [before, behind, away, Key.before_asymm away]
          · exact absurd (Key.eq_of_not_before (by simpa using behind) (by simpa using before)) h
      · obtain rfl := Key.eq_of_not_before (by simpa using less) (by simpa using more)
        simp only [put, less, if_false, find, Bool.false_eq_true]
        split
        · rfl
        · split
          · rfl
          · rename_i notLess notMore
            exact absurd
              (Key.eq_of_not_before (by simpa using notMore) (by simpa using notLess)) h

/-- **An update is found under its key.** -/
@[simp] theorem get?_update_self (c : Catalog κ α) (k : κ) (f : Option α → α) :
    (c.update k f).get? k = some (f (c.get? k)) := find_put_self k f c.entries

/-- **An update is found under its key only.** -/
theorem get?_update_of_ne {k j : κ} (h : j ≠ k) (c : Catalog κ α) (f : Option α → α) :
    (c.update k f).get? j = c.get? j := find_put_of_ne h f c.entries

/-- What is found under a key is replaced. -/
theorem get?_map (f : α → β) (c : Catalog κ α) (k : κ) :
    (c.map f).get? k = (c.get? k).map f := by
  have found (entries : List (κ × α)) :
      find k (entries.map (Prod.map id f)) = (find k entries).map f := by
    induction entries with
    | nil => rfl
    | cons entry entries ih =>
      rw [List.map_cons, Prod.map, find, find, ih]
      simp only [id]
      split
      · rfl
      · split <;> rfl
  exact found c.entries

theorem find_eq_none_of_before {k : κ} {entries : List (κ × α)}
    (h : ∀ x ∈ entries, Key.before k x.1 = true) : find k entries = none := by
  cases entries with
  | nil => rfl
  | cons y rest =>
    have less := h y List.mem_cons_self
    simp [find, less, Key.before_asymm less]

/-- What is found is what is listed. -/
theorem find_eq_some_iff {k : κ} {a : α} {entries : List (κ × α)}
    (h : entries.Pairwise (fun x y => Key.before x.1 y.1 = true)) :
    find k entries = some a ↔ (k, a) ∈ entries := by
  induction entries with
  | nil => simp [find]
  | cons y rest ih =>
    obtain ⟨j, b⟩ := y
    obtain ⟨first, others⟩ := List.pairwise_cons.1 h
    by_cases less : Key.before j k = true
    · have other : (k, a) ≠ (j, b) := fun same =>
        Key.ne_of_before less (congrArg Prod.fst same).symm
      simp [find, less, ih others, other]
    · by_cases more : Key.before k j = true
      · simp only [find, less, more, if_true, if_false, Bool.false_eq_true, reduceCtorEq,
          false_iff, List.mem_cons, not_or]
        refine ⟨fun same => Key.ne_of_before more (congrArg Prod.fst same), fun inside => ?_⟩
        exact absurd (first _ inside) (by simpa using less)
      · obtain rfl := Key.eq_of_not_before (by simpa using less) (by simpa using more)
        have absent : (j, a) ∉ rest := fun inside => Key.ne_of_before (first _ inside) rfl
        simp [find, Key.before_irrefl, absent, eq_comm]

theorem get?_eq_some_iff {c : Catalog κ α} {k : κ} {a : α} :
    c.get? k = some a ↔ (k, a) ∈ c.entries := find_eq_some_iff c.ordered

/-- **A catalog is determined by what is found in it.** -/
theorem ext_get? {c d : Catalog κ α} (h : ∀ k, c.get? k = d.get? k) : c = d := by
  obtain ⟨xs, hx⟩ := c
  obtain ⟨ys, hy⟩ := d
  have same : ∀ k, find k xs = find k ys := h
  suffices xs = ys by subst this; rfl
  clear h
  induction xs generalizing ys with
  | nil =>
    cases ys with
    | nil => rfl
    | cons y ys =>
      have found := (find_eq_some_iff hy).2 (List.mem_cons_self (a := y) (l := ys))
      rw [← same y.1] at found
      exact absurd found (by simp [find])
  | cons x xs ih =>
    cases ys with
    | nil =>
      have found := (find_eq_some_iff hx).2 (List.mem_cons_self (a := x) (l := xs))
      rw [same x.1] at found
      exact absurd found (by simp [find])
    | cons y ys =>
      obtain ⟨firstX, othersX⟩ := List.pairwise_cons.1 hx
      obtain ⟨firstY, othersY⟩ := List.pairwise_cons.1 hy
      have inY := (find_eq_some_iff hy).1
        ((same x.1).symm.trans ((find_eq_some_iff hx).2 List.mem_cons_self))
      have inX := (find_eq_some_iff hx).1
        ((same y.1).trans ((find_eq_some_iff hy).2 List.mem_cons_self))
      have heads : x = y := by
        rcases List.mem_cons.1 inY with heads | behindY
        · exact heads
        · rcases List.mem_cons.1 inX with heads | behindX
          · exact heads.symm
          · have less := firstX y behindX
            exact absurd (firstY x behindY) (by simp [Key.before_asymm less])
      subst heads
      refine congrArg (x :: ·) (ih othersX ys othersY fun k => ?_)
      by_cases less : Key.before x.1 k = true
      · have here := same k
        simpa [find, less] using here
      · by_cases more : Key.before k x.1 = true
        · rw [find_eq_none_of_before fun z hz => Key.before_trans more (firstX z hz),
            find_eq_none_of_before fun z hz => Key.before_trans more (firstY z hz)]
        · have here : x.1 = k :=
            Key.eq_of_not_before (by simpa using less) (by simpa using more)
          subst here
          rw [find_eq_none_of_before firstX, find_eq_none_of_before firstY]

/-- **An update may be made before the values are replaced or afterwards**, where it comes to the
same under its key. -/
theorem map_update {g : α → β} {f : Option α → α} {f' : Option β → β} {c : Catalog κ α} {k : κ}
    (alike : g (f (c.get? k)) = f' ((c.get? k).map g)) :
    (c.update k f).map g = (c.map g).update k f' := by
  refine ext_get? fun j => ?_
  rw [get?_map]
  by_cases same : j = k
  · subst same
    rw [get?_update_self, get?_update_self, get?_map, Option.map_some, alike]
  · rw [get?_update_of_ne same, get?_update_of_ne same, get?_map]

end Catalog

end Docblock
