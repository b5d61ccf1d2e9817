import Docblock.Proofs.Tags

/-!
# Entities

Text that stands literally is escaped one character at a time. It comes to the same to replace the
four signs in the whole text, one sign after the other: a later replacement must not find its sign
in what an earlier one has put in, and so the sign that all entities start with has to be the first.
In an escaped text this sign starts entities only, so the text can be read back, entity by entity,
whatever it looked like before it was escaped.

## Main definitions

* `replaceAll`, `replaceInTurn`: one sign replaced throughout a text, and several in turn
* `replacements`: the signs with their entities, in the order in which they can be replaced
* `EntitiesOnly`: every `&` in a text starts an entity
* `unescape`: the text that markup without tags displays

## Main results

* `replaceInTurn_eq`: replacing in turn is replacing at once, if no entity holds a later sign
* `entity_cases`: a character is written as its entity, or is none of the signs
* `unescape_escape`: escaped text is read back
-/

namespace Docblock.Markup

variable {c : Char} {t : Text}

/-! ## One sign after the other -/

/-- A text in which each occurrence of a sign is replaced. -/
def replaceAll (sign : Char) (written t : Text) : Text :=
  t.flatMap fun c => if c = sign then written else [c]

/-- A text in which some signs are replaced throughout, one after the other. -/
def replaceInTurn (replacements : List (Char × Text)) (t : Text) : Text :=
  replacements.foldl (fun t r => replaceAll r.1 r.2 t) t

/-- What stands for a character when all replacements are made at once. -/
def standsFor (replacements : List (Char × Text)) (c : Char) : Text :=
  (replacements.lookup c).getD [c]

theorem standsFor_of_notMem {replacements : List (Char × Text)}
    (other : ∀ r ∈ replacements, r.1 ≠ c) : standsFor replacements c = [c] := by
  have unlisted : replacements.lookup c = none :=
    List.lookup_eq_none_iff.2 fun r inside => bne_iff_ne.2 (other r inside).symm
  rw [standsFor, unlisted, Option.getD_none]

/-- **Replacing in turn is replacing at once**, if no sign stands in what was put in before. -/
theorem replaceInTurn_eq {replacements : List (Char × Text)}
    (apart : replacements.Pairwise fun r later => later.1 ∉ r.2) (t : Text) :
    replaceInTurn replacements t = t.flatMap (standsFor replacements) := by
  induction replacements generalizing t with
  | nil => exact (List.flatMap_singleton' t).symm
  | cons r others ih =>
    obtain ⟨first, apart⟩ := List.pairwise_cons.1 apart
    -- What the first replacement puts in is left alone by all later ones.
    have stays : r.2.flatMap (standsFor others) = r.2 := by
      refine (List.flatMap_congr fun d inside => ?_).trans (List.flatMap_singleton' r.2)
      refine standsFor_of_notMem fun later isLater same => ?_
      exact first later isLater (same ▸ inside)
    have later : replaceInTurn (r :: others) t = replaceInTurn others (replaceAll r.1 r.2 t) := rfl
    rw [later, ih apart, replaceAll, List.flatMap_assoc]
    refine List.flatMap_congr fun d _ => ?_
    rw [standsFor, List.lookup_cons]
    by_cases isSign : d = r.1
    · rw [if_pos isSign, stays, beq_iff_eq.2 isSign]
      rfl
    · rw [if_neg isSign, List.flatMap_singleton, beq_eq_false_iff_ne.2 isSign]
      rfl

/-! ## Signs and entities -/

/-- The signs that markup gives a meaning to, with their entities. The sign that all entities start
with comes first. -/
def replacements : List (Char × Text) :=
  [('&', "&amp;".toList), ('<', "&lt;".toList), ('>', "&gt;".toList), ('\"', "&quot;".toList)]

/-- **A character is written as its entity, or is none of the signs** and stands for itself. -/
theorem entity_cases (c : Char) :
    (c, entity c) ∈ replacements ∨ entity c = [c] ∧ ∀ r ∈ replacements, r.1 ≠ c := by
  unfold entity
  split
  · exact Or.inl (by decide)
  · exact Or.inl (by decide)
  · exact Or.inl (by decide)
  · exact Or.inl (by decide)
  · rename_i notAnd notLess notGreater notQuote
    refine Or.inr ⟨rfl, ?_⟩
    simp only [replacements, List.forall_mem_cons]
    exact ⟨Ne.symm notAnd, Ne.symm notLess, Ne.symm notGreater, Ne.symm notQuote, nofun⟩

/-- An entity starts with `&` and holds no other one. -/
theorem exists_word_of_mem_replacements {r : Char × Text} (inside : r ∈ replacements) :
    ∃ word, r.2 = '&' :: word ∧ '&' ∉ word := by
  have each : ∀ r ∈ replacements, r.2 = '&' :: r.2.tail ∧ '&' ∉ r.2.tail := by decide
  exact ⟨r.2.tail, each r inside⟩

theorem standsFor_replacements (c : Char) : standsFor replacements c = entity c := by
  rcases entity_cases c with isSign | ⟨plain, other⟩
  · -- No two entities are listed for one sign.
    have each : ∀ r ∈ replacements, standsFor replacements r.1 = r.2 := by decide
    exact each _ isSign
  · rw [standsFor_of_notMem other, plain]

/-! ## Entities in a text -/

/-- Every `&` in a text starts an entity. -/
def EntitiesOnly (t : Text) : Prop :=
  ∀ behind, '&' :: behind <:+ t → ∃ r ∈ replacements, r.2 <+: '&' :: behind

theorem entitiesOnly_nil : EntitiesOnly [] := by
  intro behind inside
  exact absurd (List.suffix_nil.1 inside) (List.cons_ne_nil _ _)

/-- Text without `&` may stand in front of any other text. -/
theorem EntitiesOnly.append_of_notMem {word : Text} (only : EntitiesOnly t) (plain : '&' ∉ word) :
    EntitiesOnly (word ++ t) := by
  induction word with
  | nil => exact only
  | cons d word ih =>
    -- No `&` starts here, so each one is found further on.
    rw [List.mem_cons, not_or] at plain
    intro behind inside
    rw [List.cons_append] at inside
    rcases List.suffix_cons_iff.1 inside with here | later
    · exact absurd (List.cons.inj here).1 plain.1
    · exact ih plain.2 behind later

theorem EntitiesOnly.entity_append (only : EntitiesOnly t) (c : Char) :
    EntitiesOnly (entity c ++ t) := by
  rcases entity_cases c with isSign | ⟨plain, other⟩
  · obtain ⟨word, starts, plain⟩ := exists_word_of_mem_replacements isSign
    have starts : entity c = '&' :: word := starts
    intro behind inside
    rw [starts, List.cons_append] at inside
    rcases List.suffix_cons_iff.1 inside with here | later
    · refine ⟨_, isSign, ?_⟩
      rw [here, starts, ← List.cons_append]
      exact List.prefix_append _ _
    · exact only.append_of_notMem plain behind later
  · rw [plain]
    refine only.append_of_notMem fun isAnd => ?_
    exact other ('&', "&amp;".toList) List.mem_cons_self (List.mem_singleton.1 isAnd)

theorem entitiesOnly_escape (t : Text) : EntitiesOnly (escape t) := by
  induction t with
  | nil => exact entitiesOnly_nil
  | cons c t ih => exact ih.entity_append c

/-! ## Reading back -/

/-- The text that markup without tags displays: its entities are read as the signs that they stand
for, and all other characters as themselves. -/
def unescape : Text → Text
  | '&' :: 'a' :: 'm' :: 'p' :: ';' :: t => '&' :: unescape t
  | '&' :: 'l' :: 't' :: ';' :: t => '<' :: unescape t
  | '&' :: 'g' :: 't' :: ';' :: t => '>' :: unescape t
  | '&' :: 'q' :: 'u' :: 'o' :: 't' :: ';' :: t => '\"' :: unescape t
  | c :: t => c :: unescape t
  | [] => []

theorem unescape_cons_of_ne (other : c ≠ '&') (t : Text) : unescape (c :: t) = c :: unescape t := by
  rw [unescape]
  all_goals
    rintro _ rfl
    exact absurd rfl other

/-- **Whatever is written for a character is read as that character.** -/
theorem unescape_entity_append (c : Char) (t : Text) :
    unescape (entity c ++ t) = c :: unescape t := by
  rcases entity_cases c with isSign | ⟨plain, other⟩
  · -- The entities differ in their first letters, so each one is read by its own case.
    have each : ∀ r ∈ replacements, unescape (r.2 ++ t) = r.1 :: unescape t := by
      simp only [replacements, List.forall_mem_cons]
      exact ⟨rfl, rfl, rfl, rfl, nofun⟩
    exact each _ isSign
  · rw [plain]
    exact unescape_cons_of_ne (other ('&', "&amp;".toList) List.mem_cons_self).symm t

/-- **Escaped text is read back.** -/
theorem unescape_escape (t : Text) : unescape (escape t) = t := by
  induction t with
  | nil => rfl
  | cons c t ih =>
    rw [escape, List.flatMap_cons, ← escape, unescape_entity_append, ih]

/-- **Escaping loses nothing.** Replacing the four signs in turn is the same as writing each
character on its own, so a text is escaped piece by piece. What is written holds no sign of tags and
no quotation mark, every `&` in it starts an entity, and it is read back as the text that it was. -/
theorem escape_in_turn_and_read_back (s t : Text) :
    replaceInTurn replacements s = s.flatMap entity ∧
      escape s = replaceInTurn replacements s ∧
      escape (s ++ t) = escape s ++ escape t ∧
      (∀ c ∈ escape s, c ≠ '<' ∧ c ≠ '>' ∧ c ≠ '\"') ∧
      EntitiesOnly (escape s) ∧
      unescape (escape s) = s := by
  have apart : replacements.Pairwise fun r later => later.1 ∉ r.2 := by decide
  have atOnce : replaceInTurn replacements s = s.flatMap entity :=
    (replaceInTurn_eq apart s).trans (List.flatMap_congr fun c _ => standsFor_replacements c)
  refine ⟨atOnce, atOnce.symm, escape_append s t, ?_, entitiesOnly_escape s, unescape_escape s⟩
  intro c inside
  have noMark (mark : c = '<' ∨ c = '>' ∨ c = '\"') : False := notMem_escape mark s inside
  exact ⟨fun less => noMark (Or.inl less), fun greater => noMark (Or.inr (Or.inl greater)),
    fun quote => noMark (Or.inr (Or.inr quote))⟩

/-- Text that looks like an entity is no exception. -/
example : escape "&lt;".toList = "&amp;lt;".toList ∧
    unescape "&amp;lt;".toList = "&lt;".toList := by decide

end Docblock.Markup
