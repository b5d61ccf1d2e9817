import Docblock.Declaration
import Mathlib.Data.List.DropRight
import Mathlib.Order.Bounds.Basic

/-!
# Where a declaration ends

A declaration is read from the front, two colons at a time, so what it ends before seems to depend
on how it has been read. But each place of a text tells by itself whether a declaration ends there:
a colon does if no other one follows it and the colons that stand together with it in front of it
are paired up. A declaration goes up to the first of these places.

## Main definitions

* `colonsAtEnd`: how many colons stand together at the end of a text
* `EndsBetween before behind`: a declaration ends between two texts

## Main results

* `isLeast_length_declaration`: a declaration goes up to the first place where one ends
* `take_length_declaration`: a declaration is what stands in front of that place
-/

namespace Docblock

/-- How many colons stand together at the end of a text. -/
def colonsAtEnd (t : Text) : Nat := (t.rtakeWhile (· == ':')).length

theorem colonsAtEnd_concat_colon (t : Text) : colonsAtEnd (t ++ [':']) = colonsAtEnd t + 1 := by
  rw [colonsAtEnd, List.rtakeWhile_concat_pos _ _ _ rfl, List.length_append, colonsAtEnd]
  rfl

theorem colonsAtEnd_concat_of_ne {c : Char} (noColon : c ≠ ':') (t : Text) :
    colonsAtEnd (t ++ [c]) = 0 := by
  rw [colonsAtEnd, List.rtakeWhile_concat_neg _ _ _ (by simpa using noColon)]
  rfl

/-- A declaration ends between two texts: before a semicolon, a brace, the opening of a block, a
colon that is left over when the colons that stand together are paired from the left, or where
nothing follows. -/
inductive EndsBetween (before : Text) : Text → Prop
  | nothing : EndsBetween before []
  | semicolon (t : Text) : EndsBetween before (';' :: t)
  | brace (t : Text) : EndsBetween before ('{' :: t)
  | opening (t : Text) : EndsBetween before (opening ++ t)
  | colon {t : Text} (last : t.head? ≠ some ':') (paired : colonsAtEnd before % 2 = 0) :
      EndsBetween before (':' :: t)

/-- The places of a text where a declaration ends, with a text in front of it. -/
def endPlaces (before t : Text) : Set Nat := {k | EndsBetween (before ++ t.take k) (t.drop k)}

section Places

variable {before t : Text} {c : Char} {k : Nat}

theorem zero_mem_endPlaces : 0 ∈ endPlaces before t ↔ EndsBetween before t := by
  simp [endPlaces]

theorem succ_mem_endPlaces :
    k + 1 ∈ endPlaces before (c :: t) ↔ k ∈ endPlaces (before ++ [c]) t := by
  simp [endPlaces]

/-- Behind a character in front of which no declaration ends, the first place is one further on. -/
theorem isLeast_endPlaces_cons (goes : ¬ EndsBetween before (c :: t))
    (least : IsLeast (endPlaces (before ++ [c]) t) k) :
    IsLeast (endPlaces before (c :: t)) (k + 1) := by
  constructor
  · exact succ_mem_endPlaces.2 least.1
  · intro j ends
    cases j with
    | zero => exact absurd (zero_mem_endPlaces.1 ends) goes
    | succ j => exact Nat.succ_le_succ (least.2 (succ_mem_endPlaces.1 ends))

theorem isLeast_endPlaces_zero (ends : EndsBetween before t) : IsLeast (endPlaces before t) 0 :=
  ⟨zero_mem_endPlaces.2 ends, fun _ _ => Nat.zero_le _⟩

/-- A declaration ends where it stops, with the colons in front paired up. -/
theorem endsBetween_of_stops (paired : colonsAtEnd before % 2 = 0)
    (single : c = ':' → t.head? ≠ some ':')
    (stops : (c == ';' || c == '{' || c == ':' || opening.isPrefixOf (c :: t)) = true) :
    EndsBetween before (c :: t) := by
  simp only [Bool.or_eq_true, beq_iff_eq] at stops
  rcases stops with ((rfl | rfl) | rfl) | opens
  · exact .semicolon t
  · exact .brace t
  · exact .colon (single rfl) paired
  · obtain ⟨u, whole⟩ := List.isPrefixOf_iff_prefix.1 opens
    rw [← whole]
    exact .opening u

/-- A declaration ends nowhere else. -/
theorem stops_of_endsBetween (ends : EndsBetween before (c :: t)) :
    (c == ';' || c == '{' || c == ':' || opening.isPrefixOf (c :: t)) = true := by
  cases ends with
  | semicolon => rfl
  | brace => rfl
  | opening => rfl
  | colon => rfl

/-- Before two colons no declaration ends, and between them none does if those in front are paired
up. -/
theorem not_endsBetween_pair (paired : colonsAtEnd before % 2 = 0) (t : Text) :
    ¬ EndsBetween before (':' :: ':' :: t) ∧ ¬ EndsBetween (before ++ [':']) (':' :: t) := by
  constructor
  · rintro (- | - | - | - | ⟨last, -⟩)
    exact last rfl
  · rintro (- | - | - | - | ⟨-, odd⟩)
    rw [colonsAtEnd_concat_colon] at odd
    omega

end Places

/-- **A declaration goes up to the first place where one ends**, if the colons in front are paired
up. -/
theorem isLeast_endPlaces_declaration {before : Text} (paired : colonsAtEnd before % 2 = 0)
    (t : Text) : IsLeast (endPlaces before t) (declaration t).1.length := by
  -- The induction takes what the declaration takes; the colons in front stay paired up.
  fun_induction declaration t generalizing before with
  | case1 => exact isLeast_endPlaces_zero .nothing
  | case2 t ih =>
    obtain ⟨first, second⟩ := not_endsBetween_pair paired t
    have stillPaired : colonsAtEnd (before ++ [':'] ++ [':']) % 2 = 0 := by
      rw [colonsAtEnd_concat_colon, colonsAtEnd_concat_colon]
      omega
    exact isLeast_endPlaces_cons first (isLeast_endPlaces_cons second (ih stillPaired))
  | case3 c t noPair stops =>
    refine isLeast_endPlaces_zero (endsBetween_of_stops paired ?_ stops)
    intro isColon second
    obtain ⟨u, whole⟩ := List.head?_eq_some_iff.1 second
    exact noPair u isColon whole
  | case4 c t noPair goes ih =>
    have noColon : c ≠ ':' := by
      rintro rfl
      exact goes rfl
    have none : colonsAtEnd (before ++ [c]) % 2 = 0 := by rw [colonsAtEnd_concat_of_ne noColon]
    exact isLeast_endPlaces_cons (fun ends => goes (stops_of_endsBetween ends)) (ih none)

/-- **A declaration goes up to the first place where one ends.** -/
theorem isLeast_length_declaration (t : Text) :
    IsLeast {k | EndsBetween (t.take k) (t.drop k)} (declaration t).1.length := by
  show IsLeast (endPlaces [] t) (declaration t).1.length
  exact isLeast_endPlaces_declaration rfl t

/-- Of three colons the last one is left over. -/
example : (declaration "g(:::x)".toList).1 = "g(::".toList := rfl

/-- A declaration is what stands in front of that place. -/
theorem take_length_declaration (t : Text) :
    t.take (declaration t).1.length = (declaration t).1 :=
  (List.prefix_iff_eq_take.1 ⟨_, declaration_append t⟩).symm

end Docblock
