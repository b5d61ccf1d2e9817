import Docblock.Declaration

/-!
# Occurrences of a sign

The openings and the ends of blocks are found by looking for the first occurrence of a sign in what
is still to be read. What a reader may take without changing the answer are those characters in
which no occurrence begins; the sign may end behind them.

## Main definitions

* `closingMark`: what ends a block
* `behindFirst`: the text behind the first occurrence of a sign
* `Begins sign a b`: an occurrence of the sign in `a ++ b` begins in `a`

## Main results

* `begins_closingMark_iff`, `begins_opening_iff`: where the two signs begin
* `behindFirst_eq_iff`: the search may start behind `a` exactly when no occurrence begins
  in `a`
* `behindFirst_eq_some_iff`: what is found is the first occurrence
* `behindFirst_append_right`: and it is found whatever follows
-/

namespace Docblock

/-- What ends a block. -/
def closingMark : Text := ['*', '/']

/-- The text behind the first occurrence of a sign, if there is one. -/
def behindFirst (sign : Text) : Text → Option Text
  | [] => none
  | c :: t =>
    if sign.isPrefixOf (c :: t) then some ((c :: t).drop sign.length) else behindFirst sign t

/-- Looking for a block is looking for its opening. -/
theorem afterOpening_eq_behindFirst (t : Text) : afterOpening t = behindFirst opening t := by
  induction t with
  | nil => rfl
  | cons c t ih =>
    rw [afterOpening, behindFirst, ih]
    rfl

/-- An occurrence of `sign` in `a ++ b` begins in `a`. -/
def Begins (sign a b : Text) : Prop := ∃ s, s ≠ [] ∧ s <:+ a ∧ sign <+: s ++ b

@[simp] theorem not_begins_nil (sign b : Text) : ¬ Begins sign [] b := by
  rintro ⟨s, nonempty, inside, -⟩
  exact nonempty (List.suffix_nil.1 inside)

theorem begins_cons {sign a b : Text} {c : Char} :
    Begins sign (c :: a) b ↔ sign <+: c :: (a ++ b) ∨ Begins sign a b := by
  constructor
  · rintro ⟨s, nonempty, inside, here⟩
    rcases List.suffix_cons_iff.1 inside with rfl | inside
    · exact Or.inl here
    · exact Or.inr ⟨s, nonempty, inside, here⟩
  · rintro (here | ⟨s, nonempty, inside, here⟩)
    · exact ⟨c :: a, List.cons_ne_nil _ _, List.suffix_rfl, here⟩
    · exact ⟨s, nonempty, inside.trans (List.suffix_cons c a), here⟩

/-- An occurrence begins in one of two parts, each with what follows it. -/
theorem begins_append {sign a b d : Text} :
    Begins sign (a ++ b) d ↔ Begins sign a (b ++ d) ∨ Begins sign b d := by
  induction a with
  | nil => simp
  | cons c a ih => rw [List.cons_append, begins_cons, begins_cons, ih, List.append_assoc, or_assoc]

/-- Where the sign cannot begin there is no occurrence that begins. -/
theorem not_begins_of_head_notMem {sign a : Text} {c : Char} (h : c ∉ a) (b : Text) :
    ¬ Begins (c :: sign) a b := by
  rintro ⟨s, nonempty, inside, here⟩
  cases s with
  | nil => exact nonempty rfl
  | cons d s =>
    obtain rfl : c = d := (List.cons_prefix_cons.1 here).1
    exact h (inside.subset List.mem_cons_self)

theorem begins_of_isInfix {sign a : Text} (nonempty : sign ≠ []) (h : sign <:+: a) (b : Text) :
    Begins sign a b := by
  obtain ⟨before, behind, rfl⟩ := h
  refine ⟨sign ++ behind, by simp [nonempty], ⟨before, by simp⟩, ⟨behind ++ b, by simp⟩⟩

theorem infix_of_begins {sign a : Text} (h : Begins sign a []) : sign <:+: a := by
  obtain ⟨s, -, inside, here⟩ := h
  rw [List.append_nil] at here
  exact here.isInfix.trans inside.isInfix

/-! ## Ends and openings that begin in a text -/

/-- An end starts with a star, and a slash follows. -/
theorem closingMark_prefix_cons_iff {c : Char} {t : Text} :
    closingMark <+: c :: t ↔ c = '*' ∧ t.head? = some '/' := by
  cases t with
  | nil => simp [closingMark]
  | cons d t => simp [closingMark, List.cons_prefix_cons, eq_comm]

/-- An end of a block that begins in a text is a part of it, or its slash follows. -/
theorem begins_closingMark_iff {a b : Text} :
    Begins closingMark a b ↔
      closingMark <:+: a ∨ ∃ before u, a = before ++ ['*'] ∧ b = '/' :: u := by
  constructor
  · rintro ⟨s, nonempty, ⟨before, rfl⟩, v, whole⟩
    rcases s with - | ⟨c, - | ⟨d, s⟩⟩
    · exact absurd rfl nonempty
    · simp only [closingMark, List.cons_append, List.nil_append, List.cons.injEq] at whole
      exact Or.inr ⟨before, v, by rw [whole.1], whole.2.symm⟩
    · simp only [closingMark, List.cons_append, List.nil_append, List.cons.injEq] at whole
      obtain ⟨rfl, rfl, -⟩ := whole
      exact Or.inl ⟨before, s, by simp [closingMark]⟩
  · rintro (inside | ⟨before, u, rfl, rfl⟩)
    · exact begins_of_isInfix (by decide) inside b
    · exact ⟨['*'], by simp, ⟨before, rfl⟩, u, rfl⟩

/-- An opening that begins in a text is a part of it, or what is left of it follows. -/
theorem begins_opening_iff {a b : Text} :
    Begins opening a b ↔ opening <:+: a ∨
      (∃ before u, a = before ++ ['/'] ∧ b = '*' :: ':' :: u) ∨
      ∃ before u, a = before ++ ['/', '*'] ∧ b = ':' :: u := by
  constructor
  · rintro ⟨s, nonempty, ⟨before, rfl⟩, v, whole⟩
    -- The occurrence has one, two or all of its characters in the text.
    rcases s with - | ⟨c, - | ⟨d, - | ⟨e, s⟩⟩⟩
    · exact absurd rfl nonempty
    · simp only [opening, List.cons_append, List.nil_append, List.cons.injEq] at whole
      exact Or.inr (Or.inl ⟨before, v, by rw [whole.1], whole.2.symm⟩)
    · simp only [opening, List.cons_append, List.nil_append, List.cons.injEq] at whole
      exact Or.inr (Or.inr ⟨before, v, by rw [whole.1, whole.2.1], whole.2.2.symm⟩)
    · simp only [opening, List.cons_append, List.nil_append, List.cons.injEq] at whole
      obtain ⟨rfl, rfl, rfl, -⟩ := whole
      exact Or.inl ⟨before, s, by simp [opening]⟩
  · rintro (inside | ⟨before, u, rfl, rfl⟩ | ⟨before, u, rfl, rfl⟩)
    · exact begins_of_isInfix (by decide) inside b
    · exact ⟨['/'], by simp, ⟨before, rfl⟩, u, rfl⟩
    · exact ⟨['/', '*'], by simp, ⟨before, rfl⟩, u, rfl⟩

/-! ## Searching from a later place -/

theorem behindFirst_append_of_not_begins {sign a b : Text} (h : ¬ Begins sign a b) :
    behindFirst sign (a ++ b) = behindFirst sign b := by
  induction a with
  | nil => rfl
  | cons c a ih =>
    rw [begins_cons, not_or] at h
    rw [List.cons_append, behindFirst, if_neg (by simpa using h.1), ih h.2]

/-- What is found begins where it can: the text behind it is longer than the sign allows. -/
theorem exists_behindFirst_of_begins {sign a b : Text} (h : Begins sign a b) :
    ∃ u, behindFirst sign (a ++ b) = some u ∧ b.length < sign.length + u.length := by
  induction a with
  | nil => exact absurd h (not_begins_nil _ _)
  | cons c a ih =>
    rw [List.cons_append, behindFirst]
    split
    · -- The sign stands here already, before the occurrence that is given.
      rename_i starts
      have fits := (List.isPrefixOf_iff_prefix.1 starts).length_le
      refine ⟨_, rfl, ?_⟩
      simp only [List.length_drop, List.length_cons, List.length_append] at fits ⊢
      omega
    · rename_i starts
      rcases begins_cons.1 h with here | inside
      · exact absurd (List.isPrefixOf_iff_prefix.2 here) starts
      · exact ih inside

/-- The sign and the text behind it are an end of the text. -/
theorem behindFirst_suffix {sign t u : Text} (h : behindFirst sign t = some u) :
    sign ++ u <:+ t := by
  induction t with
  | nil => simp [behindFirst] at h
  | cons c t ih =>
    rw [behindFirst] at h
    split at h
    · rename_i starts
      obtain ⟨v, whole⟩ := List.isPrefixOf_iff_prefix.1 starts
      rw [← whole] at h ⊢
      obtain rfl : v = u := by simpa using h
      exact List.suffix_rfl
    · exact (ih h).trans (List.suffix_cons c t)

/-- **The search may start behind `a`** exactly when no occurrence begins in `a`. -/
theorem behindFirst_eq_iff {sign a b t : Text} (whole : a ++ b = t) :
    behindFirst sign t = behindFirst sign b ↔ ¬ Begins sign a b := by
  subst whole
  refine ⟨?_, behindFirst_append_of_not_begins⟩
  intro same inside
  -- What is found would be an end of `b`, and longer than `b`.
  obtain ⟨u, found, long⟩ := exists_behindFirst_of_begins inside
  have short := (behindFirst_suffix (same.symm.trans found)).length_le
  rw [List.length_append] at short
  omega

/-- A search may start at an end of the text exactly when it may start at every end between. -/
theorem behindFirst_eq_trans_iff {sign t u v : Text} (outer : u <:+ t) (inner : v <:+ u) :
    behindFirst sign t = behindFirst sign v ↔
      behindFirst sign t = behindFirst sign u ∧ behindFirst sign u = behindFirst sign v := by
  obtain ⟨a, whole⟩ := outer
  obtain ⟨b, rfl⟩ := inner
  rw [behindFirst_eq_iff ((List.append_assoc a b v).trans whole), begins_append, not_or,
    behindFirst_eq_iff whole, behindFirst_eq_iff rfl]

/-- **What is found is the first occurrence**: none begins before it. -/
theorem behindFirst_eq_some_iff {sign t u : Text} (nonempty : sign ≠ []) :
    behindFirst sign t = some u ↔
      ∃ before, t = before ++ (sign ++ u) ∧ ¬ Begins sign before (sign ++ u) := by
  -- Where the sign stands it is found at once.
  have here : behindFirst sign (sign ++ u) = some u := by
    cases sign with
    | nil => exact absurd rfl nonempty
    | cons c sign =>
      rw [List.cons_append, behindFirst, if_pos (by simp [List.isPrefixOf_iff_prefix])]
      simp
  constructor
  · intro found
    obtain ⟨before, rfl⟩ := behindFirst_suffix found
    refine ⟨before, rfl, ?_⟩
    intro inside
    rw [← here] at found
    exact (behindFirst_eq_iff rfl).1 found inside
  · rintro ⟨before, rfl, first⟩
    rw [behindFirst_append_of_not_begins first, here]

/-- What is found is found as well where more follows. -/
theorem behindFirst_append_right {sign t u : Text} (found : behindFirst sign t = some u)
    (v : Text) : behindFirst sign (t ++ v) = some (u ++ v) := by
  induction t with
  | nil => simp [behindFirst] at found
  | cons c t ih =>
    rw [behindFirst] at found
    rw [List.cons_append, behindFirst]
    split at found
    · rename_i starts
      have here := List.isPrefixOf_iff_prefix.1 starts
      rw [if_pos (by simpa using here.trans (List.prefix_append (c :: t) v)), ← List.cons_append,
        List.drop_append_of_le_length here.length_le, Option.some.inj found]
    · rename_i starts
      have fits := (behindFirst_suffix found).length_le
      have later : ¬ sign <+: c :: (t ++ v) := by
        intro here
        refine starts (List.isPrefixOf_iff_prefix.2 ?_)
        refine List.prefix_of_prefix_length_le here (List.prefix_append (c :: t) v) ?_
        rw [List.length_append] at fits
        rw [List.length_cons]
        omega
      rw [if_neg (by simpa using later), ih found]

/-- Nothing is found where there is nothing to be found. -/
theorem behindFirst_eq_none_iff {sign t : Text} (nonempty : sign ≠ []) :
    behindFirst sign t = none ↔ ¬ sign <:+: t := by
  constructor
  · intro none inside
    obtain ⟨u, found, -⟩ := exists_behindFirst_of_begins (begins_of_isInfix nonempty inside [])
    rw [List.append_nil, none] at found
    exact nomatch found
  · intro outside
    refine Option.eq_none_iff_forall_ne_some.2 fun u found => outside ?_
    exact (List.prefix_append sign u).isInfix.trans (behindFirst_suffix found).isInfix

/-- What is found in front of a text is found without it. -/
theorem behindFirst_of_append_right {sign t u v : Text} (nonempty : sign ≠ [])
    (found : behindFirst sign (t ++ v) = some (u ++ v)) : behindFirst sign t = some u := by
  cases here : behindFirst sign t with
  | none =>
    obtain ⟨before, whole⟩ := behindFirst_suffix found
    rw [← List.append_assoc, ← List.append_assoc] at whole
    obtain rfl := List.append_cancel_right whole
    refine absurd ?_ ((behindFirst_eq_none_iff nonempty).1 here)
    exact ⟨before, u, by simp⟩
  | some w =>
    have same := behindFirst_append_right here v
    rw [found] at same
    exact congrArg some (List.append_cancel_right (Option.some.inj same)).symm

end Docblock
