import Docblock.Proofs.DeclarationEnd
import Docblock.Proofs.HeldLexeme

/-!
# Between two blocks

A walk that has read a block goes on right behind it. If the block is closed and its item awaits a
declaration, the text up to the first place where a declaration ends is taken; and wherever that
leaves the reader, the next block is the one behind the first opening that follows the end of the
block. No lexeme is held at either time, so nothing that has been scanned is skipped.

## Main definitions

* `Document.Reaches`: a walk comes to look for a block at a place, with a document

## Main results

* `exists_isLeast_of_behindFirst_eq_some`: the first occurrence of a sign, as a place of the text
* `Reaches.walkFrom_eq`: a walk goes on as it does from each place that it reaches
* `exists_reaches_of_mem_visits`: every block that a walk meets is found at such a place
* `Reaches.held`: no lexeme is held when a block is looked for
* `walk_between_blocks`: what a walk takes and what it finds behind a closed block
-/

namespace Docblock

open Lexeme Reader

/-! ## Places of a sign -/

/-- **The first occurrence of a sign**, as a place of the text. -/
theorem exists_isLeast_of_behindFirst_eq_some {sign t u : Text}
    (found : behindFirst sign t = some u) :
    ∃ k, IsLeast {k | sign <+: t.drop k} k ∧ u = t.drop (k + sign.length) := by
  induction t with
  | nil => cases found
  | cons c t ih =>
    rw [behindFirst] at found
    -- Either the sign occurs here, or all of its occurrences are one character further on.
    split at found
    · rename_i here
      refine ⟨0, ⟨List.isPrefixOf_iff_prefix.1 here, fun _ _ => Nat.zero_le _⟩, ?_⟩
      rw [Nat.zero_add]
      exact (Option.some.inj found).symm
    · rename_i notHere
      obtain ⟨k, ⟨occurs, first⟩, rfl⟩ := ih found
      refine ⟨k + 1, ⟨occurs, ?_⟩, ?_⟩
      · intro j occurs'
        cases j with
        | zero => exact absurd (List.isPrefixOf_iff_prefix.2 occurs') notHere
        | succ j => exact Nat.succ_le_succ (first occurs')
      · rw [Nat.add_right_comm, List.drop_succ_cons]

theorem not_prefix_drop_of_behindFirst_eq_none {sign t : Text} (nonempty : sign ≠ [])
    (none : behindFirst sign t = none) (k : Nat) : ¬ sign <+: t.drop k := by
  intro occurs
  exact (behindFirst_eq_none_iff nonempty).1 none
    (occurs.isInfix.trans (List.drop_suffix k t).isInfix)

namespace Reader

variable {r p : Reader}

theorem firstStart?_of_seekBlock (found : r.seekBlock = (.symbol opening, p)) :
    r.firstStart? = some p := by
  cases first : r.firstStart? with
  | none =>
    have ended := seekBlock_of_firstStart?_eq_none first
    rw [found] at ended
    cases ended
  | some q =>
    rw [seekBlock_of_firstStart?_eq_some first] at found
    rw [(Prod.mk.inj found).2]

/-- **The next block is the one behind the first opening**, or there is none. -/
theorem seekBlock_cases (r : Reader) :
    (∃ k p, r.seekBlock = (.symbol opening, p) ∧ IsLeast {k | opening <+: r.rest.drop k} k ∧
        p.rest = r.rest.drop (k + opening.length)) ∨
      r.seekBlock.1 = .endOfSource ∧ ∀ k, ¬ opening <+: r.rest.drop k := by
  cases first : r.firstStart? with
  | none =>
    have none := Option.map_eq_none_iff.1 first
    exact Or.inr ⟨seekBlock_of_firstStart?_eq_none first,
      not_prefix_drop_of_behindFirst_eq_none (by decide) none⟩
  | some p =>
    obtain ⟨u, found, rfl⟩ := Option.map_eq_some_iff.1 first
    obtain ⟨k, least, same⟩ := exists_isLeast_of_behindFirst_eq_some found
    exact Or.inl ⟨k, _, seekBlock_of_firstStart?_eq_some first, least, same⟩

/-- The next block depends on the first opening alone. -/
theorem seekBlock_congr {s : Reader} (same : r.firstStart? = s.firstStart?) :
    r.seekBlock.1 = s.seekBlock.1 ∧ ∀ p, s.seekBlock = (.symbol opening, p) →
      r.seekBlock = (.symbol opening, p) := by
  cases first : s.firstStart? with
  | none =>
    rw [seekBlock_of_firstStart?_eq_none first, seekBlock_of_firstStart?_eq_none (same.trans first)]
    refine ⟨rfl, ?_⟩
    intro p found
    rw [firstStart?_of_seekBlock found] at first
    cases first
  | some q =>
    rw [seekBlock_of_firstStart?_eq_some first, seekBlock_of_firstStart?_eq_some (same.trans first)]
    exact ⟨rfl, fun p found => found⟩

end Reader

/-- The declaration that is recorded is what stands here, trimmed. -/
theorem Block.declarationHere_eq (s : Reader) :
    declarationHere s = (declaration s.rest).1.trim := by
  rw [declarationHere, Reader.declaration]
  split
  · rename_i nothing
    rw [nothing]
    rfl
  · rfl

/-- What is made of white space alone is trimmed to nothing. -/
theorem Text.trim_eq_nil_of_white {t : Text} (white : ∀ c ∈ t, isWhite c = true) : t.trim = [] := by
  rw [trim, trimLeft, List.dropWhile_eq_nil_iff.2 white]
  rfl

namespace Document

/-! ## The places that a walk reaches -/

/-- A walk from a place, with a document, comes to look for a block at a place, with a document. -/
inductive Reaches (d : Document) (r : Reader) : Document → Reader → Prop
  /-- The first block is looked for where the walk starts. -/
  | here : Reaches d r d r
  /-- The next block is looked for where recording a block leaves the reader. -/
  | behind {d' : Document} {r' p : Reader} (way : Reaches d r d' r')
      (found : r'.seekBlock = (.symbol opening, p)) :
      Reaches d r (d'.visit (Block.read p).1 (Block.read p).2).1
        (d'.visit (Block.read p).1 (Block.read p).2).2

variable {d d' : Document} {r r' p : Reader} {source : Text}

theorem walkFrom_of_seekBlock (found : r.seekBlock = (.symbol opening, p)) :
    d.walkFrom r =
      let block := Block.read p
      let others := (d.visit block.1 block.2).1.walkFrom (d.visit block.1 block.2).2
      { document := others.document
        faults := block.1.faults ++ others.faults
        visits := ⟨p, block.1.subject?⟩ :: others.visits } := by
  rw [walkFrom, found, dif_neg (by simp)]

/-- **A walk goes on as it does from each place that it reaches.** -/
theorem Reaches.walkFrom_eq (way : d.Reaches r d' r') :
    ∃ faults visits, d.walkFrom r =
      { document := (d'.walkFrom r').document
        faults := faults ++ (d'.walkFrom r').faults
        visits := visits ++ (d'.walkFrom r').visits } := by
  induction way with
  | here => exact ⟨[], [], rfl⟩
  | @behind d' r' p way found ih =>
    obtain ⟨faults, visits, same⟩ := ih
    rw [walkFrom_of_seekBlock found] at same
    refine ⟨faults ++ (Block.read p).1.faults, visits ++ [⟨p, (Block.read p).1.subject?⟩], ?_⟩
    rw [same, List.append_assoc, List.append_assoc]
    rfl

/-- What is reached behind the first block is reached. -/
theorem Reaches.head (found : r.seekBlock = (.symbol opening, p))
    (way : (d.visit (Block.read p).1 (Block.read p).2).1.Reaches
      (d.visit (Block.read p).1 (Block.read p).2).2 d' r') : d.Reaches r d' r' := by
  induction way with
  | here => exact .behind .here found
  | behind way found' ih => exact .behind ih found'

/-- **Every block that a walk meets** is found at a place that the walk reaches. -/
theorem exists_reaches_of_mem_visits {v : Visit} (met : v ∈ (d.walkFrom r).visits) :
    ∃ d' r', d.Reaches r d' r' ∧ r'.seekBlock = (.symbol opening, v.start) := by
  -- The induction follows the walk: the first block is met here, the others behind it.
  fun_induction walkFrom d r with
  | case1 d r ended => cases met
  | case2 d r started start block behind others ih =>
    have found : r.seekBlock = (.symbol opening, start) := by
      rcases r.seekBlock_cases with ⟨k, p, found, -, -⟩ | ⟨ended, -⟩
      · rw [found]
        exact Prod.ext rfl (congrArg Prod.snd found).symm
      · exact absurd ended started
    rcases List.mem_cons.1 met with rfl | later
    · exact ⟨d, r, .here, found⟩
    · obtain ⟨d', r', way, found'⟩ := ih later
      exact ⟨d', r', way.head found, found'⟩

theorem visit_held (d : Document) (b : Block) (r : Reader) : (d.visit b r).2.held = r.held := by
  unfold visit
  split
  · rfl
  · split <;> rfl

/-- **No lexeme is held when a block is looked for**, and the reader stays in the source. -/
theorem Reaches.held (way : d.Reaches (.ofSource source) d' r) :
    r.held = none ∧ r.rest <:+ source := by
  induction way with
  | here => exact ⟨rfl, List.suffix_rfl⟩
  | @behind d' r p way found ih =>
    -- Looking for a block drops what is held, and reading it holds nothing in the end.
    obtain ⟨-, unheld, inside⟩ := firstStart?_spec (firstStart?_of_seekBlock found)
    constructor
    · rw [visit_held]
      exact Block.held_read unheld
    · have read := Block.read_rest_suffix p
      have opened := (List.suffix_append opening p.rest).trans inside
      exact (visit_rest_suffix _ _ _).trans (read.trans (opened.trans ih.2))

/-! ## Behind a closed block -/

/-- What a walk does behind a closed block that says `e`, with the reader `s` right behind its end:
the declaration goes up to the first place where one ends, and is kept if it is awaited; and the
next block is the one behind the first opening, whether a declaration is kept or not. -/
structure PassesOn (d : Document) (e : Entry) (s : Reader) : Prop where
  captured : ∃ k, IsLeast {k | EndsBetween (s.rest.take k) (s.rest.drop k)} k ∧
    (d.visit (.entry e) s).1.attributesOf e.header.subject =
      (d.describe e).attributesOf e.header.subject ++
        (if (d.describe e).awaitsDeclaration e.header.subject then
          [⟨Attribute.declarationKeyword, Text.trim (s.rest.take k)⟩] else []) ∧
    ((∀ c ∈ s.rest.take k, Text.isWhite c = true) → Text.trim (s.rest.take k) = [])
  sought : (∃ k p, (d.visit (.entry e) s).2.seekBlock = (.symbol opening, p) ∧
      IsLeast {k | opening <+: s.rest.drop k} k ∧ p.rest = s.rest.drop (k + opening.length)) ∨
    (d.visit (.entry e) s).2.seekBlock.1 = .endOfSource ∧ ∀ k, ¬ opening <+: s.rest.drop k

variable {e : Entry} {s : Reader}

/-- Recording a closed block keeps the declaration that stands behind it, if it is awaited. -/
theorem attributesOf_visit (declared : e.declaration.isSome = true) :
    (d.visit (.entry e) s).1.attributesOf e.header.subject =
      (d.describe e).attributesOf e.header.subject ++
        if (d.describe e).awaitsDeclaration e.header.subject then
          [⟨Attribute.declarationKeyword, (declaration s.rest).1.trim⟩] else [] := by
  rw [visit, declared, Bool.true_and]
  split
  · rw [attributesOf_addAttribute, if_pos rfl, Block.declarationHere_eq]
  · exact (List.append_nil _).symm

theorem passesOn_of_declared (d : Document) (declared : e.declaration.isSome = true) :
    d.PassesOn e s where
  captured := by
    refine ⟨(declaration s.rest).1.length, isLeast_length_declaration s.rest, ?_,
      Text.trim_eq_nil_of_white⟩
    rw [attributesOf_visit declared, take_length_declaration]
  sought := by
    -- No block opens in a declaration, so the same one is next wherever the reader is left.
    obtain ⟨sameEnd, sameStart⟩ := seekBlock_congr (firstStart?_visit d (.entry e) s)
    rcases s.seekBlock_cases with ⟨k, p, found, least, rest⟩ | ⟨ended, none⟩
    · exact Or.inl ⟨k, p, sameStart p found, least, rest⟩
    · exact Or.inr ⟨sameEnd.trans ended, none⟩

/-- **Between two blocks nothing is lost.** Every block that a walk meets is found at a place that
the walk reaches. Wherever it comes to look for a block, and wherever it has read one, no lexeme is
held. A block that is closed is read to the place right behind its end; the declaration that is
taken there, if one is awaited, goes up to the first place where one ends; and the next block is the
one behind the first opening that follows. -/
theorem walk_between_blocks (d : Document) (source : Text) :
    (∀ v ∈ (d.walk source).visits, ∃ d' r, d.Reaches (.ofSource source) d' r ∧
        r.seekBlock = (.symbol opening, v.start)) ∧
      ∀ d' r, d.Reaches (.ofSource source) d' r →
        (∃ passed, (d.walk source).visits = passed ++ (d'.walkFrom r).visits ∧
          (d.walk source).document = (d'.walkFrom r).document) ∧
        r.held = none ∧
        ∀ p, r.seekBlock = (.symbol opening, p) →
          opening ++ p.rest <:+ source ∧ (Block.read p).2.held = none ∧
          ∀ e s, (Block.read p).1 = .entry e → Block.ClosedAt p s →
            s = (Block.read p).2 ∧ closingMark ++ s.rest <:+ p.rest ∧ d'.PassesOn e s := by
  refine ⟨fun v met => exists_reaches_of_mem_visits met, ?_⟩
  intro d' r reached
  obtain ⟨unheld, inside⟩ := reached.held
  obtain ⟨faults, passed, same⟩ := reached.walkFrom_eq
  refine ⟨⟨passed, ?_, ?_⟩, unheld, ?_⟩
  · rw [walk, same]
  · rw [walk, same]
  · intro p found
    obtain ⟨-, start, opened⟩ := firstStart?_spec (firstStart?_of_seekBlock found)
    refine ⟨opened.trans inside, Block.held_read start, ?_⟩
    intro e s isEntry closed
    have read : Block.read p = (.entry e, (Block.read p).2) := Prod.ext isEntry rfl
    obtain ⟨declared, same⟩ := (Block.closedAt_iff read s).1 closed
    exact ⟨same, (Block.closingMark_append_suffix start closed).2, passesOn_of_declared d' declared⟩

/-- A walk reaches the end of a block behind which a colon is left over. -/
theorem between_blocks_colons :
    let source := "/*: f */ A::B g(:::x) /*: h */".toList
    let r := Reader.ofSource source
    let p : Reader := ⟨1, " f */ A::B g(:::x) /*: h */".toList, none⟩
    let s : Reader := ⟨1, " A::B g(:::x) /*: h */".toList, none⟩
    empty.Reaches r empty r ∧ r.seekBlock = (.symbol opening, p) ∧ Block.ClosedAt p s ∧
      ∃ e, (Block.read p).1 = .entry e ∧ s = (Block.read p).2 ∧ closingMark ++ s.rest <:+ p.rest ∧
        empty.PassesOn e s := by
  intro source r p s
  have header : Block.readHeader p = .ok (.member .function [] ['f'], .absent)
      ⟨1, " A::B g(:::x) /*: h */".toList, some .closing⟩ := rfl
  have found : r.seekBlock = (.symbol opening, p) := rfl
  have body := Block.read_of_readHeader_eq header
  rw [Block.readBody_of_closing rfl] at body
  have closed : Block.ClosedAt p s := (Block.closedAt_iff body s).2 ⟨rfl, rfl⟩
  obtain ⟨-, -, behind⟩ := (walk_between_blocks empty source).2 empty r .here
  have block := congrArg Prod.fst body
  exact ⟨.here, found, closed, _, block, (behind p found).2.2 _ s block closed⟩

end Document

end Docblock
