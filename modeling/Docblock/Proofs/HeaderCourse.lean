import Docblock.Proofs.Composed

/-!
# The course of a header

Reading a header looks at the lexemes of a text one after the other and never further than one
ahead. So what is read, and how far, is told by the lexemes alone: a header that is read takes the
lexemes of one of a few courses, and a header that fails lacks a name behind one of them.

## Main definitions

* `Reader.after n r`: the reader that has taken `n` lexemes
* `Reader.Stands n r s`: `s` has taken `n` lexemes, and may have looked at the next one
* `Header.Course t header n`: the first `n` lexemes of `t` give a header
* `Header.Lacks t expected n`: behind the first `n` lexemes of `t` a name is missing
* `LinkMark.Course t n link m`: the lexemes from the `n`th to before the `m`th give a link

## Main results

* `Header.read_of_course`, `Header.read_of_lacks`, `Header.course_or_lacks`: what reading a header
  gives, for every text
* `Header.Lacks.passed`: what a header that fails has taken before
* `Block.readHeader_of_course`, `Block.readHeader_cases`: the same for a header with its link
-/

namespace Docblock

open Lexeme

namespace Reader

variable {n : Nat} {r s : Reader}

/-- The reader that has taken a number of lexemes. -/
def after (n : Nat) (r : Reader) : Reader := ⟨r.lastLine, behind n r.rest, none⟩

/-- A reader has taken a number of lexemes, and may have looked at the next one. -/
def Stands (n : Nat) (r s : Reader) : Prop := s = after n r ∨ s = (after n r).peek.2

theorem after_zero (held : r.held = none) : after 0 r = r := by
  obtain ⟨lastLine, rest, _⟩ := r
  subst held
  rfl

theorem next_after (n : Nat) (r : Reader) :
    (after n r).next = (nth n r.rest, after (n + 1) r) := rfl

theorem stands_after (n : Nat) (r : Reader) : Stands n r (after n r) := Or.inl rfl

theorem stands_zero (held : r.held = none) : Stands 0 r r := Or.inl (after_zero held).symm

theorem Stands.next (h : Stands n r s) : s.next = (nth n r.rest, after (n + 1) r) := by
  rcases h with rfl | rfl
  · rfl
  · rw [next_peek, next_after]

theorem Stands.peek (h : Stands n r s) : s.peek.1 = nth n r.rest ∧ Stands n r s.peek.2 := by
  rcases h with rfl | rfl
  · exact ⟨rfl, Or.inr rfl⟩
  · exact ⟨rfl, Or.inr rfl⟩

theorem Stands.peek_eq (h : Stands n r s) : s.peek.2 = (after n r).peek.2 := by
  rcases h with rfl | rfl <;> rfl

end Reader

open Reader Reading

/-! ## Steps behind a number of lexemes -/

section Steps

variable {n : Nat} {r s : Reader} {α : Type} {expected : Expected} {q : Text → Reading α}

theorem identifier_bind_of_stands (stands : Stands n r s) {word : Text}
    (named : nth n r.rest = .identifier word) :
    (Reading.identifier expected >>= q) s = q word (after (n + 1) r) := by
  have next := stands.next
  rw [identifier_bind_of_eq (by rw [next]; exact named), next]

theorem identifier_bind_of_stands_ne (stands : Stands n r s)
    (unnamed : ∀ word, nth n r.rest ≠ .identifier word) :
    (Reading.identifier expected >>= q) s =
      .error ⟨(after (n + 1) r).line, expected, nth n r.rest⟩ (after (n + 1) r) := by
  have next := stands.next
  rw [identifier_bind_of_ne (by rw [next]; exact unnamed), next]

theorem takeIf_bind_of_stands (stands : Stands n r s) (x : Lexeme) (q : Unit → Reading α) :
    (takeIf x >>= q) s = if nth n r.rest = x then q () (after (n + 1) r) else q () s.peek.2 := by
  rw [takeIf_bind, stands.peek.1, stands.next]

end Steps

/-! ## The kind -/

namespace HeaderKind

/-- The kind of a header and how many lexemes it takes: none, its word, or its word and a colon. -/
inductive Taken (t : Text) : HeaderKind → Nat → Prop
  /-- No word of a kind stands here. -/
  | absent (none : ∀ word, nth 0 t = .identifier word → ofWord? word = none) :
      Taken t (.member .function) 0
  /-- The word of a kind. -/
  | bare {word : Text} {kind : HeaderKind} (first : nth 0 t = .identifier word)
      (isWord : ofWord? word = some kind) (second : nth 1 t ≠ .colon) : Taken t kind 1
  /-- The word of a kind and a colon. -/
  | colon {word : Text} {kind : HeaderKind} (first : nth 0 t = .identifier word)
      (isWord : ofWord? word = some kind) (second : nth 1 t = .colon) : Taken t kind 2

theorem exists_taken (t : Text) : ∃ kind n, Taken t kind n := by
  by_cases isWord : ∃ word kind, nth 0 t = .identifier word ∧ ofWord? word = some kind
  · obtain ⟨word, kind, first, isWord⟩ := isWord
    by_cases second : nth 1 t = .colon
    · exact ⟨kind, 2, .colon first isWord second⟩
    · exact ⟨kind, 1, .bare first isWord second⟩
  · refine ⟨.member .function, 0, .absent fun word first => ?_⟩
    apply Option.eq_none_iff_forall_ne_some.2
    intro kind some
    exact isWord ⟨word, kind, first, some⟩

/-- **Reading the kind of a header never fails.** -/
theorem read_of_taken {r : Reader} {kind : HeaderKind} {n : Nat} (held : r.held = none)
    (taken : Taken r.rest kind n) : ∃ s, HeaderKind.read r = .ok kind s ∧ Stands n r s := by
  have start := stands_zero held
  -- The word of a kind is looked at before it is taken.
  have behind : Stands 1 r r.peek.2.next.2 := by
    rw [start.peek.2.next]
    exact stands_after 1 r
  rw [HeaderKind.read, look_bind, start.peek.1]
  cases taken with
  | absent none =>
    -- The lexeme has been looked at, and is left for the name.
    refine ⟨_, ?_, start.peek.2⟩
    cases first : nth 0 r.rest with
    | identifier word =>
      simp only [none word first]
      rfl
    | symbol sign => rfl
    | endOfSource => rfl
  | bare first isWord second =>
    refine ⟨_, ?_, behind.peek.2⟩
    simp only [first, isWord, discard_take_bind, takeIf_bind_of_stands behind, if_neg second]
    rfl
  | colon first isWord second =>
    refine ⟨_, ?_, stands_after 2 r⟩
    simp only [first, isWord, discard_take_bind, takeIf_bind_of_stands behind, if_pos second]
    rfl

end HeaderKind

/-! ## The name of a member -/

namespace Header

/-- The name of a member behind `n` lexemes, and how many lexemes are behind the reader then. -/
inductive Named (t : Text) (n : Nat) : Text → Text → Nat → Prop
  /-- The name alone. -/
  | plain {name : Text} (first : nth n t = .identifier name) (second : nth (n + 1) t ≠ .scope) :
      Named t n globalClass name (n + 1)
  /-- The name behind two colons. -/
  | unowned {name : Text} (first : nth n t = .scope) (second : nth (n + 1) t = .identifier name) :
      Named t n globalClass name (n + 2)
  /-- The name behind that of its class. -/
  | owned {owner name : Text} (first : nth n t = .identifier owner)
      (second : nth (n + 1) t = .scope) (third : nth (n + 2) t = .identifier name) :
      Named t n owner name (n + 3)

/-- The lexeme on which the name of a member behind `n` lexemes fails. -/
inductive Unnamed (t : Text) (n : Nat) : Nat → Prop
  /-- No name stands here. -/
  | here (first : ∀ word, nth n t ≠ .identifier word) (noScope : nth n t ≠ .scope) : Unnamed t n n
  /-- No name stands behind two colons. -/
  | unowned (first : nth n t = .scope) (second : ∀ word, nth (n + 1) t ≠ .identifier word) :
      Unnamed t n (n + 1)
  /-- No name stands behind that of a class. -/
  | owned {owner : Text} (first : nth n t = .identifier owner) (second : nth (n + 1) t = .scope)
      (third : ∀ word, nth (n + 2) t ≠ .identifier word) : Unnamed t n (n + 2)

theorem named_or_unnamed (t : Text) (n : Nat) :
    (∃ owner name m, Named t n owner name m) ∨ ∃ m, Unnamed t n m := by
  -- The cases follow the lexemes from the `n`th on.
  by_cases first : ∃ word, nth n t = .identifier word
  · obtain ⟨word, first⟩ := first
    by_cases second : nth (n + 1) t = .scope
    · by_cases third : ∃ name, nth (n + 2) t = .identifier name
      · obtain ⟨name, third⟩ := third
        exact Or.inl ⟨_, _, _, .owned first second third⟩
      · exact Or.inr ⟨_, .owned first second fun name found => third ⟨name, found⟩⟩
    · exact Or.inl ⟨_, _, _, .plain first second⟩
  · by_cases scope : nth n t = .scope
    · by_cases second : ∃ name, nth (n + 1) t = .identifier name
      · obtain ⟨name, second⟩ := second
        exact Or.inl ⟨_, _, _, .unowned scope second⟩
      · exact Or.inr ⟨_, .unowned scope fun name found => second ⟨name, found⟩⟩
    · exact Or.inr ⟨_, .here (fun word found => first ⟨word, found⟩) scope⟩

variable {r s : Reader} {n m : Nat} {owner name : Text}

/-- Where the name of a member starts with an identifier, the lexeme behind it decides. -/
theorem readMember_of_identifier (stands : Stands n r s) {word : Text}
    (first : nth n r.rest = .identifier word) :
    readMember s = if nth (n + 1) r.rest = .scope then readQualified word (after (n + 2) r)
      else .ok (globalClass, word) (after (n + 1) r).peek.2 := by
  have behind := stands_after (n + 1) r
  rw [readMember, take_bind, stands.next]
  simp only [first, look_bind, behind.peek.1]
  split
  · rw [discard_take_bind, behind.peek.2.next]
  · rfl

theorem readMember_of_scope (stands : Stands n r s) (first : nth n r.rest = .scope) :
    readMember s = readQualified globalClass (after (n + 1) r) := by
  rw [readMember, take_bind, stands.next, first]
  rfl

theorem readMember_of_named (stands : Stands n r s) (named : Named r.rest n owner name m) :
    ∃ s', readMember s = .ok (owner, name) s' ∧ Stands m r s' := by
  cases named with
  | plain first second =>
    rw [readMember_of_identifier stands first, if_neg second]
    exact ⟨_, rfl, (stands_after (n + 1) r).peek.2⟩
  | unowned first second =>
    rw [readMember_of_scope stands first, readQualified,
      identifier_bind_of_stands (stands_after (n + 1) r) second]
    exact ⟨_, rfl, stands_after (n + 2) r⟩
  | owned first second third =>
    rw [readMember_of_identifier stands first, if_pos second, readQualified,
      identifier_bind_of_stands (stands_after (n + 2) r) third]
    exact ⟨_, rfl, stands_after (n + 3) r⟩

theorem readMember_of_unnamed (stands : Stands n r s) (unnamed : Unnamed r.rest n m) :
    readMember s =
      .error ⟨(after (m + 1) r).line, .memberName, nth m r.rest⟩ (after (m + 1) r) := by
  cases unnamed with
  | here first noScope =>
    rw [readMember, take_bind, stands.next]
    cases found : nth n r.rest with
    | identifier word => exact absurd found (first word)
    | symbol sign =>
      simp only
      rw [if_neg (by rw [← found]; exact noScope), lacking_apply]
    | endOfSource => rfl
  | unowned first second =>
    rw [readMember_of_scope stands first, readQualified,
      identifier_bind_of_stands_ne (stands_after (n + 1) r) second]
  | owned first second third =>
    rw [readMember_of_identifier stands first, if_pos second, readQualified,
      identifier_bind_of_stands_ne (stands_after (n + 2) r) third]

end Header

/-! ## The item that a header names -/

namespace Header

/-- The courses of a header that is read, and how many lexemes they take. -/
inductive Course (t : Text) : Header → Nat → Prop
  /-- The name of the project. -/
  | project {n : Nat} {name : Text} (kind : HeaderKind.Taken t .project n)
      (named : nth n t = .identifier name) : Course t (.project name) (n + 1)
  /-- The name of a class. -/
  | classNamed {n : Nat} {name : Text} (kind : HeaderKind.Taken t .classNamed n)
      (named : nth n t = .identifier name) : Course t (.classNamed name) (n + 1)
  /-- The name of a function. -/
  | function {n m : Nat} {owner name : Text} (kind : HeaderKind.Taken t (.member .function) n)
      (named : Named t n owner name m) (behind : nth m t ≠ .parentheses) :
      Course t (.member .function owner name) m
  /-- The name of a function with empty parentheses. -/
  | parentheses {n m : Nat} {owner name : Text} (kind : HeaderKind.Taken t (.member .function) n)
      (named : Named t n owner name m) (behind : nth m t = .parentheses) :
      Course t (.member .function owner name) (m + 1)
  /-- The name of a variable. -/
  | data {n m : Nat} {owner name : Text} (kind : HeaderKind.Taken t (.member .data) n)
      (named : Named t n owner name m) : Course t (.member .data owner name) m

/-- What a header lacks, and how many lexemes it has taken then. -/
inductive Lacks (t : Text) : Expected → Nat → Prop
  /-- The name of the project. -/
  | project {n : Nat} (kind : HeaderKind.Taken t .project n)
      (unnamed : ∀ word, nth n t ≠ .identifier word) : Lacks t .projectName n
  /-- The name of a class. -/
  | classNamed {n : Nat} (kind : HeaderKind.Taken t .classNamed n)
      (unnamed : ∀ word, nth n t ≠ .identifier word) : Lacks t .className n
  /-- The name of a member. -/
  | member {memberKind : MemberKind} {n m : Nat} (kind : HeaderKind.Taken t (.member memberKind) n)
      (unnamed : Unnamed t n m) : Lacks t .memberName m

/-- A header is read or lacks something. -/
theorem course_or_lacks (t : Text) :
    (∃ header m, Course t header m) ∨ ∃ expected m, Lacks t expected m := by
  obtain ⟨kind, n, taken⟩ := HeaderKind.exists_taken t
  have named_or : (∃ name, nth n t = .identifier name) ∨ ∀ word, nth n t ≠ .identifier word := by
    by_cases named : ∃ name, nth n t = .identifier name
    · exact Or.inl named
    · exact Or.inr fun word found => named ⟨word, found⟩
  cases kind with
  | project =>
    rcases named_or with ⟨name, named⟩ | unnamed
    · exact Or.inl ⟨_, _, .project taken named⟩
    · exact Or.inr ⟨_, _, .project taken unnamed⟩
  | classNamed =>
    rcases named_or with ⟨name, named⟩ | unnamed
    · exact Or.inl ⟨_, _, .classNamed taken named⟩
    · exact Or.inr ⟨_, _, .classNamed taken unnamed⟩
  | member memberKind =>
    rcases named_or_unnamed t n with ⟨owner, name, m, named⟩ | ⟨m, unnamed⟩
    · left
      cases memberKind with
      | function =>
        by_cases behind : nth m t = .parentheses
        · exact ⟨_, _, .parentheses taken named behind⟩
        · exact ⟨_, _, .function taken named behind⟩
      | data => exact ⟨_, _, .data taken named⟩
    · exact Or.inr ⟨_, _, .member taken unnamed⟩

variable {r : Reader} {header : Header} {m : Nat}

/-- **A header is read along its course.** -/
theorem read_of_course (held : r.held = none) (course : Course r.rest header m) :
    ∃ s, Header.read r = .ok header s ∧ Stands m r s := by
  -- The kind comes first in every course, and the readings below start behind it.
  have behindKind {kind : HeaderKind} {n : Nat} (taken : HeaderKind.Taken r.rest kind n)
      {q : HeaderKind → Reading Header}
      (more : ∀ s, Stands n r s → ∃ s', q kind s = .ok header s' ∧ Stands m r s') :
      ∃ s, (HeaderKind.read >>= q) r = .ok header s ∧ Stands m r s := by
    obtain ⟨s, read, stands⟩ := HeaderKind.read_of_taken held taken
    obtain ⟨s', same, stands'⟩ := more s stands
    exact ⟨s', bind_eq_ok_iff.2 ⟨kind, s, read, same⟩, stands'⟩
  rw [Header.read]
  cases course with
  | project kind named =>
    refine behindKind kind fun s stands => ⟨_, ?_, stands_after _ r⟩
    exact identifier_bind_of_stands stands named
  | classNamed kind named =>
    refine behindKind kind fun s stands => ⟨_, ?_, stands_after _ r⟩
    exact identifier_bind_of_stands stands named
  | function kind named behind =>
    apply behindKind kind
    intro s stands
    obtain ⟨s', read, stands'⟩ := readMember_of_named stands named
    refine ⟨s'.peek.2, bind_eq_ok_iff.2 ⟨_, s', read, ?_⟩, stands'.peek.2⟩
    refine (takeIf_bind_of_stands stands' .parentheses _).trans ?_
    rw [if_neg behind]
    rfl
  | parentheses kind named behind =>
    apply behindKind kind
    intro s stands
    obtain ⟨s', read, stands'⟩ := readMember_of_named stands named
    refine ⟨_, bind_eq_ok_iff.2 ⟨_, s', read, ?_⟩, stands_after _ r⟩
    refine (takeIf_bind_of_stands stands' .parentheses _).trans ?_
    rw [if_pos behind]
    rfl
  | data kind named =>
    apply behindKind kind
    intro s stands
    obtain ⟨s', read, stands'⟩ := readMember_of_named stands named
    exact ⟨s', bind_eq_ok_iff.2 ⟨_, s', read, rfl⟩, stands'⟩

/-- **A header fails on the first lexeme that is not on its course.** -/
theorem read_of_lacks {expected : Expected} (held : r.held = none)
    (lacks : Lacks r.rest expected m) :
    Header.read r = .error ⟨(after (m + 1) r).line, expected, nth m r.rest⟩ (after (m + 1) r) := by
  -- Reading the kind does not fail, so the fault is noticed behind it.
  have behindKind {kind : HeaderKind} {n : Nat} (taken : HeaderKind.Taken r.rest kind n)
      {q : HeaderKind → Reading Header} {d : Diagnostic} {r' : Reader}
      (more : ∀ s, Stands n r s → q kind s = .error d r') :
      (HeaderKind.read >>= q) r = .error d r' := by
    obtain ⟨s, read, stands⟩ := HeaderKind.read_of_taken held taken
    exact bind_eq_error_iff.2 (Or.inr ⟨kind, s, read, more s stands⟩)
  rw [Header.read]
  cases lacks with
  | project kind unnamed =>
    exact behindKind kind fun s stands => identifier_bind_of_stands_ne stands unnamed
  | classNamed kind unnamed =>
    exact behindKind kind fun s stands => identifier_bind_of_stands_ne stands unnamed
  | @member memberKind _ _ kind unnamed =>
    apply behindKind kind
    intro s stands
    have failed := readMember_of_unnamed stands unnamed
    cases memberKind with
    | function => exact bind_eq_error_iff.2 (Or.inl failed)
    | data => exact bind_eq_error_iff.2 (Or.inl failed)

end Header

/-! ## The lexemes of a header -/

namespace Header

/-- The lexemes that a header may take before it fails: colons, the word of a kind, and a name that
two colons follow. -/
def Passed (t : Text) (m k : Nat) : Prop :=
  nth k t = .colon ∨ nth k t = .scope ∨ ∃ word, nth k t = .identifier word ∧
    ((HeaderKind.ofWord? word).isSome ∨ nth (k + 1) t = .scope ∧ k + 1 < m)

variable {t : Text} {n m k : Nat}

theorem Passed.ne_closing (passed : Passed t m k) : nth k t ≠ .closing := by
  rcases passed with first | first | ⟨word, first, -⟩
  · rw [first]
    decide
  · rw [first]
    decide
  · rw [first]
    exact Lexeme.noConfusion

theorem passed_of_taken {kind : HeaderKind} (taken : HeaderKind.Taken t kind n) (m : Nat)
    (below : k < n) : Passed t m k := by
  cases taken with
  | absent none => omega
  | bare first isWord second =>
    obtain rfl : k = 0 := by omega
    exact Or.inr (Or.inr ⟨_, first, Or.inl (by simp [isWord])⟩)
  | colon first isWord second =>
    obtain rfl | rfl : k = 0 ∨ k = 1 := by omega
    · exact Or.inr (Or.inr ⟨_, first, Or.inl (by simp [isWord])⟩)
    · exact Or.inl second

theorem Unnamed.passed (unnamed : Unnamed t n m) :
    (∀ word, nth m t ≠ .identifier word) ∧ ∀ k, n ≤ k → k < m → Passed t m k := by
  cases unnamed with
  | here first noScope => exact ⟨first, fun k above below => by omega⟩
  | unowned first second =>
    refine ⟨second, fun k above below => ?_⟩
    obtain rfl : k = n := by omega
    exact Or.inr (Or.inl first)
  | owned first second third =>
    refine ⟨third, fun k above below => ?_⟩
    obtain rfl | rfl : k = n ∨ k = n + 1 := by omega
    · exact Or.inr (Or.inr ⟨_, first, Or.inr ⟨second, by omega⟩⟩)
    · exact Or.inr (Or.inl second)

/-- **A header that fails** fails on a lexeme that is no identifier, and before it there are colons,
the word of a kind, and a name that two colons follow. -/
theorem Lacks.passed {expected : Expected} (lacks : Lacks t expected m) :
    (∀ word, nth m t ≠ .identifier word) ∧ ∀ k < m, Passed t m k := by
  cases lacks with
  | project kind unnamed => exact ⟨unnamed, fun k below => passed_of_taken kind m below⟩
  | classNamed kind unnamed => exact ⟨unnamed, fun k below => passed_of_taken kind m below⟩
  | @member _ n _ kind unnamed =>
    refine ⟨unnamed.passed.1, fun k below => ?_⟩
    rcases Nat.lt_or_ge k n with before | behind
    · exact passed_of_taken kind m before
    · exact unnamed.passed.2 k behind below

/-- The names in a header. -/
def names : Header → List Text
  | project name => [name]
  | classNamed name => [name]
  | member _ owner name => [owner, name]

/-- A name is one of the identifiers before the `m`th lexeme. -/
def Said (t : Text) (m : Nat) (name : Text) : Prop := ∃ k < m, nth k t = .identifier name

theorem Said.mono {name : Text} (said : Said t n name) (h : n ≤ m) : Said t m name := by
  obtain ⟨k, below, named⟩ := said
  exact ⟨k, by omega, named⟩

theorem Named.inner {owner name : Text} (named : Named t n owner name m) :
    (∀ k, n ≤ k → k < m → nth k t ≠ .closing) ∧
      (owner = globalClass ∨ Said t m owner) ∧ Said t m name := by
  have scope_ne : Lexeme.scope ≠ .closing := by decide
  cases named with
  | plain first second =>
    refine ⟨fun k above below => ?_, Or.inl rfl, n, by omega, first⟩
    obtain rfl : k = n := by omega
    rw [first]
    exact Lexeme.noConfusion
  | unowned first second =>
    refine ⟨fun k above below => ?_, Or.inl rfl, n + 1, by omega, second⟩
    obtain rfl | rfl : k = n ∨ k = n + 1 := by omega
    · rw [first]
      exact scope_ne
    · rw [second]
      exact Lexeme.noConfusion
  | owned first second third =>
    refine ⟨fun k above below => ?_, Or.inr ⟨n, by omega, first⟩, n + 2, by omega, third⟩
    obtain rfl | rfl | rfl : k = n ∨ k = n + 1 ∨ k = n + 2 := by omega
    · rw [first]
      exact Lexeme.noConfusion
    · rw [second]
      exact scope_ne
    · rw [third]
      exact Lexeme.noConfusion

/-- **A header that is read** takes no end of a block, and its names are identifiers that it
takes. -/
theorem Course.inner {header : Header} (course : Course t header m) :
    (∀ k < m, nth k t ≠ .closing) ∧ ∀ name ∈ header.names, name = globalClass ∨ Said t m name := by
  -- A kind and one identifier: the project, or a class.
  have single {kind : HeaderKind} {name : Text} {n : Nat} (taken : HeaderKind.Taken t kind n)
      (named : nth n t = .identifier name) :
      (∀ k < n + 1, nth k t ≠ .closing) ∧
        ∀ x ∈ [name], x = globalClass ∨ Said t (n + 1) x := by
    have said : Said t (n + 1) name := ⟨n, by omega, named⟩
    constructor
    · intro k below
      rcases Nat.lt_or_ge k n with before | behind
      · exact (passed_of_taken taken (n + 1) before).ne_closing
      · obtain rfl : k = n := by omega
        rw [named]
        exact Lexeme.noConfusion
    · simpa using Or.inr said
  -- A kind and the name of a member.
  have double {kind : HeaderKind} {owner name : Text} {n m : Nat}
      (taken : HeaderKind.Taken t kind n) (named : Named t n owner name m) :
      (∀ k < m, nth k t ≠ .closing) ∧
        ∀ x ∈ [owner, name], x = globalClass ∨ Said t m x := by
    obtain ⟨inner, ownerSaid, nameSaid⟩ := named.inner
    constructor
    · intro k below
      rcases Nat.lt_or_ge k n with before | behind
      · exact (passed_of_taken taken m before).ne_closing
      · exact inner k behind below
    · simpa using ⟨ownerSaid, Or.inr nameSaid⟩
  cases course with
  | project kind named => exact single kind named
  | classNamed kind named => exact single kind named
  | function kind named behind => exact double kind named
  | @parentheses n m _ _ kind named behind =>
    obtain ⟨inner, said⟩ := double kind named
    -- The parentheses are one lexeme more, and no name.
    constructor
    · intro k below
      rcases Nat.lt_or_ge k m with before | last
      · exact inner k before
      · obtain rfl : k = m := by omega
        rw [behind]
        decide
    · intro name inside
      exact (said name inside).imp_right fun h => h.mono (by omega)
  | data kind named => exact double kind named

end Header

/-! ## The link, and the whole header -/

/-- What the lexemes from the `n`th on say about the link, and how many lexemes are taken then. -/
inductive LinkMark.Course (t : Text) (n : Nat) : LinkMark → Nat → Prop
  /-- No hash sign stands here. -/
  | absent (first : nth n t ≠ .hash) : Course t n .absent n
  /-- A hash sign and a link. -/
  | given {link : Text} (first : nth n t = .hash) (second : nth (n + 1) t = .identifier link) :
      Course t n (.given link) (n + 2)
  /-- A hash sign, and no link behind it. -/
  | faulty {fault : Diagnostic} (first : nth n t = .hash)
      (second : ∀ word, nth (n + 1) t ≠ .identifier word) (found : fault.found = nth (n + 1) t) :
      Course t n (.faulty fault) (n + 1)

namespace LinkMark

variable {r s : Reader} {n : Nat}

/-- The reader behind what a header says about the link, `m` lexemes from the start. Unless a link
has been taken, the lexeme that stands there has been looked at. -/
def reader (m : Nat) (r : Reader) : LinkMark → Reader
  | .given _ => after m r
  | _ => (after m r).peek.2

theorem stands_reader (m : Nat) (r : Reader) (link : LinkMark) : Stands m r (link.reader m r) := by
  cases link with
  | given name => exact stands_after m r
  | absent => exact (stands_after m r).peek.2
  | faulty fault => exact (stands_after m r).peek.2

/-- **Reading what a header says about the link never fails.** -/
theorem exists_read_eq (stands : Stands n r s) :
    ∃ link m, LinkMark.read s = .ok link (link.reader m r) ∧ Course r.rest n link m := by
  have behind := stands_after (n + 1) r
  rw [LinkMark.read, look_bind, stands.peek.1]
  split
  · rename_i first
    rw [discard_take_bind, stands.peek.2.next, look_bind, behind.peek.1]
    by_cases second : ∃ link, nth (n + 1) r.rest = .identifier link
    · obtain ⟨link, second⟩ := second
      refine ⟨.given link, n + 2, ?_, .given first second⟩
      simp only [second, discard_take_bind, behind.peek.2.next]
      rfl
    · have unnamed : ∀ word, nth (n + 1) r.rest ≠ .identifier word :=
        fun word found => second ⟨word, found⟩
      refine ⟨.faulty ⟨(after (n + 1) r).peek.2.line, .linkName, nth (n + 1) r.rest⟩, n + 1, ?_,
        .faulty first unnamed rfl⟩
      cases found : nth (n + 1) r.rest with
      | identifier word => exact absurd found (unnamed word)
      | symbol sign => rfl
      | endOfSource => rfl
  · rename_i first
    refine ⟨.absent, n, ?_, .absent first⟩
    show EStateM.Result.ok absent s.peek.2 = .ok absent (after n r).peek.2
    rw [stands.peek_eq]

theorem Course.inner {t : Text} {link : LinkMark} {m : Nat} (course : Course t n link m) :
    n ≤ m ∧ (∀ k, n ≤ k → k < m → nth k t ≠ .closing) ∧
      ∀ name, link = .given name → Header.Said t m name := by
  have hash_ne : Lexeme.hash ≠ .closing := by decide
  cases course with
  | absent first => exact ⟨le_rfl, fun k above below => by omega, fun name same => nomatch same⟩
  | given first second =>
    refine ⟨by omega, fun k above below => ?_, fun name same => ?_⟩
    · obtain rfl | rfl : k = n ∨ k = n + 1 := by omega
      · rw [first]
        exact hash_ne
      · rw [second]
        exact Lexeme.noConfusion
    · obtain rfl := LinkMark.given.inj same
      exact ⟨n + 1, by omega, second⟩
  | faulty first second found =>
    refine ⟨by omega, fun k above below => ?_, fun name same => nomatch same⟩
    obtain rfl : k = n := by omega
    rw [first]
    exact hash_ne

end LinkMark

namespace Block

variable {r : Reader} (held : r.held = none)

include held

/-- **A header is read along its course**, and so is what it says about the link. -/
theorem readHeader_of_course {header : Header} {n : Nat} (course : Header.Course r.rest header n) :
    ∃ link m, readHeader r = .ok (header, link) (link.reader m r) ∧
      LinkMark.Course r.rest n link m := by
  obtain ⟨s, read, stands⟩ := Header.read_of_course held course
  obtain ⟨link, m, readLink, linkCourse⟩ := LinkMark.exists_read_eq stands
  refine ⟨link, m, ?_, linkCourse⟩
  exact bind_eq_ok_iff.2 ⟨header, s, read, bind_eq_ok_iff.2 ⟨link, _, readLink, rfl⟩⟩

/-- **Reading a header** follows a course, or fails on the first lexeme that is not on one. -/
theorem readHeader_cases :
    (∃ header link n m, readHeader r = .ok (header, link) (link.reader m r) ∧
        Header.Course r.rest header n ∧ LinkMark.Course r.rest n link m) ∨
      ∃ expected m, readHeader r = .error ⟨(after (m + 1) r).line, expected, nth m r.rest⟩
        (after (m + 1) r) ∧ Header.Lacks r.rest expected m := by
  rcases Header.course_or_lacks r.rest with ⟨header, n, course⟩ | ⟨expected, m, lacks⟩
  · obtain ⟨link, m, read, linkCourse⟩ := readHeader_of_course held course
    exact Or.inl ⟨header, link, n, m, read, course, linkCourse⟩
  · refine Or.inr ⟨expected, m, ?_, lacks⟩
    exact bind_eq_error_iff.2 (Or.inl (Header.read_of_lacks held lacks))

end Block

end Docblock
