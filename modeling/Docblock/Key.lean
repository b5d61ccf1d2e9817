import Std.Data.TreeSet
import Docblock.Text

/-!
# Keys

Names are listed in an order: that of their characters, as in a dictionary. A type of keys is one
with such an order. The order is strict and total, so what is listed by keys is listed in one way
only.

## Main definitions

* `Key`: a type of keys; characters, and lists of keys, are keys
* `Key.order`: the order as a comparison
* `Key.lexBefore`: the order of a dictionary

## Main results

* `order_eq_iff`: keys are listed at the same place only if they are equal
-/

namespace Docblock

/-- Keys that are listed in a strict total order. -/
class Key (κ : Type) where
  /-- Whether a key is listed before another one. -/
  before : κ → κ → Bool
  before_irrefl : ∀ a, before a a = false
  before_trans : ∀ {a b c}, before a b = true → before b c = true → before a c = true
  eq_of_not_before : ∀ {a b}, before a b = false → before b a = false → a = b

namespace Key

theorem before_asymm {κ : Type} [Key κ] {a b : κ} (h : before a b = true) :
    before b a = false := by
  cases back : before b a with
  | false => rfl
  | true => exact absurd (before_trans h back) (by simp [before_irrefl])

theorem ne_of_before {κ : Type} [Key κ] {a b : κ} (h : before a b = true) : a ≠ b := by
  rintro rfl
  exact absurd h (by simp [before_irrefl])

/-- How two keys are listed. -/
def order {κ : Type} [Key κ] (a b : κ) : Ordering :=
  if before a b then .lt else if before b a then .gt else .eq

theorem order_eq_lt_iff {κ : Type} [Key κ] {a b : κ} : order a b = .lt ↔ before a b = true := by
  unfold order
  split
  · simp_all
  · split <;> simp_all

theorem order_swap {κ : Type} [Key κ] (a b : κ) : order a b = (order b a).swap := by
  unfold order
  by_cases less : before a b = true
  · simp [less, before_asymm less]
  · by_cases more : before b a = true <;> simp [less, more]

theorem order_eq_iff {κ : Type} [Key κ] {a b : κ} : order a b = .eq ↔ a = b := by
  constructor
  · intro h
    unfold order at h
    split at h
    · simp at h
    · split at h
      · simp at h
      · rename_i notLess notMore
        exact eq_of_not_before (by simpa using notLess) (by simpa using notMore)
  · rintro rfl
    simp [order, before_irrefl]

instance {κ : Type} [Key κ] : Std.TransCmp (order : κ → κ → Ordering) where
  eq_swap {a b} := order_swap a b
  isLE_trans {a b c} h g := by
    cases ab : order a b with
    | lt =>
      cases bc : order b c with
      | lt =>
        rw [order_eq_lt_iff.2 (before_trans (order_eq_lt_iff.1 ab) (order_eq_lt_iff.1 bc))]
        rfl
      | eq =>
        obtain rfl := order_eq_iff.1 bc
        rw [ab]
        rfl
      | gt => simp [bc] at g
    | eq =>
      obtain rfl := order_eq_iff.1 ab
      exact g
    | gt => simp [ab] at h

instance {κ : Type} [Key κ] : Std.LawfulEqCmp (order : κ → κ → Ordering) where
  compare_self := order_eq_iff.2 rfl
  eq_of_compare h := order_eq_iff.1 h

/-- Characters are listed by their code points. -/
instance : Key Char where
  before a b := decide (a.toNat < b.toNat)
  before_irrefl a := by simp
  before_trans {a b c} := by simpa using Nat.lt_trans
  eq_of_not_before {a b} := by
    simp only [decide_eq_false_iff_not, Nat.not_lt]
    intro h g
    exact Char.toNat_inj.1 (Nat.le_antisymm g h)

/-- The order of a dictionary: the first difference decides, and a beginning comes first. -/
def lexBefore {κ : Type} [Key κ] : List κ → List κ → Bool
  | _, [] => false
  | [], _ :: _ => true
  | a :: s, b :: t => before a b || (!before b a && lexBefore s t)

theorem lexBefore_irrefl {κ : Type} [Key κ] (s : List κ) : lexBefore s s = false := by
  induction s with
  | nil => rfl
  | cons a s ih => simp [lexBefore, before_irrefl, ih]

theorem eq_of_not_lexBefore {κ : Type} [Key κ] {s t : List κ} (h : lexBefore s t = false)
    (g : lexBefore t s = false) : s = t := by
  induction s generalizing t with
  | nil =>
    cases t with
    | nil => rfl
    | cons b t => simp [lexBefore] at h
  | cons a s ih =>
    cases t with
    | nil => simp [lexBefore] at g
    | cons b t =>
      simp only [lexBefore, Bool.or_eq_false_iff, Bool.and_eq_false_iff, Bool.not_eq_false'] at h g
      obtain rfl := eq_of_not_before h.1 g.1
      have tails : lexBefore s t = false ∧ lexBefore t s = false := by
        simpa [before_irrefl] using And.intro h g
      rw [ih tails.1 tails.2]

theorem lexBefore_trans {κ : Type} [Key κ] {s t u : List κ} (h : lexBefore s t = true)
    (g : lexBefore t u = true) : lexBefore s u = true := by
  induction s generalizing t u with
  | nil =>
    cases u with
    | nil => simp [lexBefore] at g
    | cons c u => rfl
  | cons a s ih =>
    cases t with
    | nil => simp [lexBefore] at h
    | cons b t =>
      cases u with
      | nil => simp [lexBefore] at g
      | cons c u =>
        simp only [lexBefore, Bool.or_eq_true, Bool.and_eq_true, Bool.not_eq_true'] at h g ⊢
        rcases h with h | ⟨ba, h⟩
        · rcases g with g | ⟨cb, g⟩
          · exact Or.inl (before_trans h g)
          · by_cases bc : before b c = true
            · exact Or.inl (before_trans h bc)
            · obtain rfl := eq_of_not_before (by simpa using bc) cb
              exact Or.inl h
        · rcases g with g | ⟨cb, g⟩
          · by_cases ab : before a b = true
            · exact Or.inl (before_trans ab g)
            · obtain rfl := eq_of_not_before (by simpa using ab) ba
              exact Or.inl g
          · by_cases ac : before a c = true
            · exact Or.inl ac
            · refine Or.inr ⟨?_, ih h g⟩
              cases ca : before c a with
              | false => rfl
              | true =>
                by_cases ab : before a b = true
                · exact absurd (before_trans ca ab) (by simp [cb])
                · obtain rfl := eq_of_not_before (by simpa using ab) ba
                  exact absurd ca (by simp [cb])

/-- Lists of keys are listed in the order of a dictionary. -/
instance {κ : Type} [Key κ] : Key (List κ) where
  before := lexBefore
  before_irrefl := lexBefore_irrefl
  before_trans := lexBefore_trans
  eq_of_not_before := eq_of_not_lexBefore

end Key

end Docblock
