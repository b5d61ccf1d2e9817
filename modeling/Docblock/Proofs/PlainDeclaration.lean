import Docblock.Proofs.Occurrence
import Docblock.Text.White

/-!
# Declarations that are read as they are written

A declaration ends before a semicolon, a brace, an opening or a colon, where two colons at a time
belong to it. So a text without these, and with colons in even runs only, is read up to the
semicolon behind it, and the search for the next block goes over it.

## Main definitions

* `EvenColons t`: every run of colons in `t` has an even length
* `IsDeclaration`: a text that is read as a declaration
* `pairedColons`: the same as a check

## Main results

* `pairedColons_iff`: colons in even runs are colons in pairs
* `Unended.declaration_append`: such a text is read up to the semicolon behind it
* `Unended.not_begins_opening`: no block opens in it
-/

namespace Docblock

/-- Every run of colons, as long as it goes, has an even length. -/
def EvenColons (t : Text) : Prop :=
  ∀ (a b : Text) (n : Nat), t = a ++ (List.replicate n ':' ++ b) → a.getLast? ≠ some ':' →
    b.head? ≠ some ':' → n % 2 = 0

/-- A text in which a declaration does not end. -/
structure Unended (t : Text) : Prop where
  noSemicolon : ';' ∉ t
  noBrace : '{' ∉ t
  noOpening : ¬ opening <:+: t
  colons : EvenColons t

/-- A text that is read as a declaration in front of a semicolon. -/
structure IsDeclaration (t : Text) : Prop extends Unended t where
  nonempty : t ≠ []
  trimmed : t.trim = t

/-- An occurrence that ends before a character that it does not have is inside what stands there. -/
theorem infix_of_begins_cons {sign a b : Text} {c : Char} (outside : c ∉ sign)
    (begins : Begins sign a (c :: b)) : sign <:+: a := by
  obtain ⟨s, -, inside, here⟩ := begins
  refine List.IsInfix.trans (List.IsPrefix.isInfix ?_) inside.isInfix
  rcases List.prefix_or_prefix_of_prefix here (List.prefix_append s (c :: b)) with h | ⟨w, whole⟩
  · exact h
  · rw [← whole] at here ⊢
    cases w with
    | nil => simp
    | cons d w =>
      obtain ⟨rfl, -⟩ := List.cons_prefix_cons.1 ((List.prefix_append_right_inj s).1 here)
      exact absurd (by simp [← whole]) outside

theorem EvenColons.tail {c : Char} {t : Text} (even : EvenColons (c :: t)) (noColon : c ≠ ':') :
    EvenColons t := by
  intro a b n whole before behind
  refine even (c :: a) b n (by rw [whole, List.cons_append]) ?_ behind
  cases a with
  | nil => simpa using noColon
  | cons d a => rwa [List.getLast?_cons_cons]

/-- Colons come in pairs. -/
theorem EvenColons.pair {t : Text} (even : EvenColons (':' :: t)) :
    ∃ u, t = ':' :: u ∧ EvenColons u := by
  -- A colon without a second one would be a run of an odd length.
  have single (u : Text) (h : u.head? ≠ some ':') : t ≠ u := by
    rintro rfl
    exact absurd (even [] t 1 rfl (by simp) h) (by decide)
  cases t with
  | nil => exact absurd rfl (single [] (by simp))
  | cons d u =>
    by_cases second : d = ':'
    · subst second
      refine ⟨u, rfl, ?_⟩
      intro a b n whole before behind
      cases a with
      | nil =>
        -- The run at the front goes on behind the two colons.
        have longer := even [] b (n + 2) (by rw [whole]; rfl) (by simp) behind
        omega
      | cons e a =>
        refine even (':' :: ':' :: e :: a) b n (by rw [whole]; rfl) ?_ behind
        rwa [List.getLast?_cons_cons, List.getLast?_cons_cons]
    · exact absurd rfl (single (d :: u) (by simpa using second))

theorem evenColons_nil : EvenColons [] := by
  intro a b n whole _ _
  have none := congrArg List.length whole
  simp only [List.length_nil, List.length_append, List.length_replicate] at none
  omega

/-- Two colons in front lengthen the first run, or are one. -/
theorem EvenColons.cons_pair {t : Text} (even : EvenColons t) : EvenColons (':' :: ':' :: t) := by
  intro a b n whole before behind
  rcases a with - | ⟨c, - | ⟨d, a⟩⟩
  · rcases n with - | - | n
    · have rest : b = ':' :: ':' :: t := whole.symm
      exact absurd (by rw [rest]; rfl) behind
    · have rest : b = ':' :: t := (List.cons.inj whole).2.symm
      exact absurd (by rw [rest]; rfl) behind
    · have rest : t = [] ++ (List.replicate n ':' ++ b) :=
        (List.cons.inj (List.cons.inj whole).2).2
      have shorter := even [] b n rest (by simp) behind
      omega
  · obtain ⟨rfl, -⟩ := List.cons.inj whole
    exact absurd rfl before
  · obtain ⟨first, others⟩ := List.cons.inj whole
    obtain ⟨second, rest⟩ := List.cons.inj others
    subst first second
    refine even a b n rest ?_ behind
    cases a with
    | nil => simp
    | cons e a => rwa [List.getLast?_cons_cons, List.getLast?_cons_cons] at before

theorem EvenColons.cons {c : Char} {t : Text} (even : EvenColons t) (noColon : c ≠ ':') :
    EvenColons (c :: t) := by
  intro a b n whole before behind
  cases a with
  | nil =>
    cases n with
    | zero => rfl
    | succ n => exact absurd (List.cons.inj whole).1 noColon
  | cons d a =>
    obtain ⟨-, rest⟩ := List.cons.inj whole
    refine even a b n rest ?_ behind
    cases a with
    | nil => simp
    | cons e a => rwa [List.getLast?_cons_cons] at before

/-- Whether all colons of a text come in pairs. -/
def pairedColons : Text → Bool
  | [] => true
  | ':' :: ':' :: t => pairedColons t
  | ':' :: _ => false
  | _ :: t => pairedColons t

/-- **Runs of an even length are pairs.** -/
theorem pairedColons_iff {t : Text} : pairedColons t = true ↔ EvenColons t := by
  fun_induction pairedColons t with
  | case1 => exact iff_of_true rfl evenColons_nil
  | case2 t ih =>
    rw [ih]
    constructor
    · exact EvenColons.cons_pair
    · intro even
      obtain ⟨u, same, even⟩ := even.pair
      obtain ⟨-, rfl⟩ := List.cons.inj same
      exact even
  | case3 t single =>
    apply iff_of_false (by simp)
    intro even
    obtain ⟨u, same, -⟩ := even.pair
    exact single u same
  | case4 c t _ noColon ih =>
    rw [ih]
    exact ⟨fun even => even.cons noColon, fun even => even.tail noColon⟩

instance (t : Text) : Decidable (EvenColons t) := decidable_of_iff _ pairedColons_iff

theorem unended_iff {t : Text} :
    Unended t ↔ ';' ∉ t ∧ '{' ∉ t ∧ behindFirst opening t = none ∧ EvenColons t := by
  rw [behindFirst_eq_none_iff (by decide)]
  exact ⟨fun ⟨h₁, h₂, h₃, h₄⟩ => ⟨h₁, h₂, h₃, h₄⟩, fun ⟨h₁, h₂, h₃, h₄⟩ => ⟨h₁, h₂, h₃, h₄⟩⟩

instance (t : Text) : Decidable (Unended t) := decidable_of_iff' _ unended_iff

instance (t : Text) : Decidable (IsDeclaration t) :=
  decidable_of_iff (Unended t ∧ t ≠ [] ∧ t.trim = t)
    ⟨fun ⟨h₁, h₂, h₃⟩ => ⟨h₁, h₂, h₃⟩, fun ⟨h₁, h₂, h₃⟩ => ⟨h₁, h₂, h₃⟩⟩

namespace Unended

variable {t : Text}

/-- No block opens in a declaration. -/
theorem not_begins_opening (unended : Unended t) (u : Text) : ¬ Begins opening t (';' :: u) :=
  fun begins => unended.noOpening (infix_of_begins_cons (by decide) begins)

theorem tail {c : Char} (unended : Unended (c :: t)) (noColon : c ≠ ':') : Unended t where
  noSemicolon := fun inside => unended.noSemicolon (List.mem_cons_of_mem c inside)
  noBrace := fun inside => unended.noBrace (List.mem_cons_of_mem c inside)
  noOpening := fun inside => unended.noOpening (inside.trans (List.suffix_cons c t).isInfix)
  colons := unended.colons.tail noColon

theorem pair (unended : Unended (':' :: t)) : ∃ u, t = ':' :: u ∧ Unended u := by
  obtain ⟨u, rfl, even⟩ := unended.colons.pair
  have inside : u <:+ ':' :: ':' :: u := List.suffix_append [':', ':'] u
  exact ⟨u, rfl,
    { noSemicolon := fun listed => unended.noSemicolon (inside.subset listed)
      noBrace := fun listed => unended.noBrace (inside.subset listed)
      noOpening := fun h => unended.noOpening (h.trans inside.isInfix)
      colons := even }⟩

/-- **A declaration is read up to the semicolon behind it.** -/
theorem declaration_append (unended : Unended t) (u : Text) :
    declaration (t ++ ';' :: u) = (t, ';' :: u) := by
  -- The induction takes off a character, or two colons.
  induction length : t.length using Nat.strongRecOn generalizing t with
  | ind n ih =>
    cases t with
    | nil =>
      rw [List.nil_append, declaration]
      · rfl
      · exact fun _ same => nomatch same
    | cons c t =>
      by_cases isColon : c = ':'
      · subst isColon
        obtain ⟨v, rfl, unended'⟩ := unended.pair
        have rest := ih v.length (by rw [← length, List.length_cons, List.length_cons]; omega)
          unended' rfl
        rw [List.cons_append, List.cons_append, declaration, rest]
      · have rest := ih t.length (by rw [← length, List.length_cons]; omega)
          (unended.tail isColon) rfl
        have noOpening : ¬ opening.isPrefixOf (c :: (t ++ ';' :: u)) = true := by
          intro opens
          refine unended.not_begins_opening u (begins_cons.2 (Or.inl ?_))
          exact List.isPrefixOf_iff_prefix.1 opens
        have noSemicolon : c ≠ ';' := fun same => unended.noSemicolon (by simp [same])
        have noBrace : c ≠ '{' := fun same => unended.noBrace (by simp [same])
        rw [List.cons_append, declaration, if_neg, rest]
        · simp [noSemicolon, noBrace, isColon, noOpening]
        · exact fun v same _ => isColon same

end Unended

end Docblock
