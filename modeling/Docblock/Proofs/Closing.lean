import Docblock.Proofs.HeaderCourse
import Docblock.Proofs.Labels
import Docblock.Proofs.Prose
import Docblock.Proofs.Starts

/-!
# Where a block ends

A block ends with the first end that stands behind its opening, whatever is written in between, if
no lexeme of its header goes over that end. Prose never does, so only the name of an operator can:
it may take the star of the end, or the whole end, for a sign of its own.

## Main definitions

* `Block.EndsAt r u`: the block behind `r` takes the end in front of `u`, or fails before it
* `Block.Unswallowed r`: no text of the block behind `r` contains an end of a block

## Main results

* `behindFirst_closingMark_behind`: where the first end is behind some lexemes
* `Reader.Ready.settled`: prose stops with the first end, or at a label in front of it
* `endsAt_iff`: a block ends with the first end behind its opening exactly when no lexeme of its
  header goes over it
-/

namespace Docblock

open Lexeme Reader Reading

/-! ## The first end behind some lexemes -/

namespace Lexeme

variable {t u : Text} {n : Nat}

theorem TakesClosing.nth_eq {k : Nat} (taken : TakesClosing (behind k t)) :
    ∃ word, nth k t = .identifier ("operator".toList ++ word) := by
  cases taken with
  | signs scanned inside => exact ⟨_, congrArg Prod.fst scanned⟩
  | @conversion type rest scanned => exact ⟨'(' :: type ++ ['*'], congrArg Prod.fst scanned⟩

/-- **Where the first end of a block is behind some lexemes**, none of which is an end: it stands
where it stood, or the name of an operator has gone over its star. -/
theorem behindFirst_closingMark_behind (found : behindFirst closingMark t = some u)
    (inner : ∀ k < n, nth k t ≠ .closing) :
    (∀ k < n, ¬ TakesClosing (behind k t)) ∧ behindFirst closingMark (behind n t) = some u ∨
      (∃ k < n, TakesClosing (behind k t)) ∧ (behind n t).length < 2 + u.length := by
  -- Once the star has been taken, the text that is left only gets shorter.
  induction n with
  | zero => exact Or.inl ⟨by simp, found⟩
  | succ n ih =>
    rcases ih fun k below => inner k (by omega) with ⟨clear, found'⟩ | ⟨⟨k, below, taken⟩, short⟩
    · rcases behindFirst_closingMark_scan found' with isClosing | taken | ⟨-, found''⟩
      · exact absurd (congrArg Prod.fst isClosing) (inner n (by omega))
      · exact Or.inr ⟨⟨n, by omega, taken⟩, taken.length_lt found'⟩
      · by_cases taken : TakesClosing (behind n t)
        · exact Or.inr ⟨⟨n, by omega, taken⟩, taken.length_lt found'⟩
        · exact Or.inl ⟨Nat.forall_lt_succ_right.2 ⟨clear, taken⟩, found''⟩
    · have shorter := (scan_rest_suffix (behind n t)).length_le
      refine Or.inr ⟨⟨k, by omega, taken⟩, ?_⟩
      rw [behind_succ]
      omega

/-- A lexeme is taken as a whole. -/
theorem length_text_scan_le (t : Text) :
    (scan t).1.text.length + (scan t).2.length ≤ t.length := by
  have short := (skipMargin_suffix false t).length_le
  rwa [← text_append_scan, List.length_append] at short

/-- An identifier that goes over no end contains none. -/
theorem not_closingMark_infix_of_not_takes {k : Nat} {word : Text}
    (named : nth k t = .identifier word) (clear : ¬ TakesClosing (behind k t)) :
    ¬ closingMark <:+: word := by
  intro inside
  have begins := begins_of_isInfix (by decide) inside (scan (behind k t)).2
  rcases (begins_closingMark_scan_iff (behind k t)).1 (by rw [← nth, named]; exact begins) with
    isClosing | taken
  · rw [← nth, named] at isClosing
    exact Lexeme.noConfusion isClosing
  · exact clear taken

end Lexeme

/-! ## Prose in front of the first end -/

/-- Whether an end begins in a text depends on what follows only by the slash. -/
theorem Begins.of_slash {a b d : Text} (h : Begins closingMark a b)
    (slash : b.head? = some '/' → d.head? = some '/') : Begins closingMark a d := by
  rcases begins_closingMark_iff.1 h with inside | ⟨before, u, rfl, rfl⟩
  · exact begins_of_isInfix (by decide) inside d
  · obtain ⟨v, rfl⟩ := List.head?_eq_some_iff.1 (slash rfl)
    exact begins_closingMark_iff.2 (Or.inr ⟨before, v, rfl, rfl⟩)

namespace Lexeme

theorem scan_rest_of_eq_endOfSource {t : Text} (h : (scan t).1 = .endOfSource) :
    (scan t).2 = [] := by
  have nothing : skipMargin false t = [] := scanHere_eq_endOfSource_iff.1 h
  rw [scan, nothing]
  rfl

theorem scanSymbol_cases (c : Char) (u : Text) :
    (scanSymbol c u).1 = ['*', '/'] ∨ (scanSymbol c u).1 = [':', ':'] ∨
      (scanSymbol c u).1 = ['(', ')'] ∨ (scanSymbol c u).1 = [c] := by
  unfold scanSymbol
  split <;> simp

/-- A symbol other than the end of a block contains a star only if it is one. -/
theorem star_notMem_of_scan {t sign : Text} (h : (scan t).1 = .symbol sign)
    (notClosing : Lexeme.symbol sign ≠ .closing) (notStar : sign ≠ ['*']) : '*' ∉ sign := by
  rcases scan_cases t with ended | ⟨word, rest, scanned, -⟩ | ⟨c, u, -, -, scanned⟩
  · rw [ended] at h
    exact Lexeme.noConfusion h
  · rw [scanned] at h
    exact Lexeme.noConfusion h
  · rw [scanned] at h
    have same := Lexeme.symbol.inj h
    rcases scanSymbol_cases c u with shown | shown | shown | shown
    · exact absurd (congrArg Lexeme.symbol (same.symm.trans shown)) notClosing
    · simp [← same, shown]
    · simp [← same, shown]
    · intro star
      rw [← same, shown, List.mem_singleton] at star
      exact notStar (by rw [← same, shown, ← star])

end Lexeme

namespace Reader

/-- A reader stands in front of the first end of its block, with `u` behind that end. -/
inductive Ready (u : Text) (s : Reader) : Prop
  /-- No lexeme is held. -/
  | unheld (held : s.held = none) (found : behindFirst closingMark s.rest = some u)
  /-- The lexeme that is held goes over no end. -/
  | ahead {v : Text} (held : s.held = some (scan v).1) (behind : s.rest = (scan v).2)
      (clear : ¬ TakesClosing v) (found : behindFirst closingMark v = some u)

/-- A reader holds what stops prose: the first end of its block, with `u` behind it, or a label in
front of that end. -/
inductive Settled (u : Text) (s : Reader) : Prop
  /-- The end is held. -/
  | closing (held : s.held = some .closing) (behind : s.rest = u)
  /-- A label is held. -/
  | label {word : Text} (held : s.held = some (.identifier word))
      (unclosed : ¬ closingMark <:+: word) (colon : startsWithLoneColon s.rest = true)
      (found : behindFirst closingMark s.rest = some u)

variable {u : Text} {s : Reader}

theorem settled_readPassage (lineStart : Bool) (before : Text)
    (found : behindFirst closingMark s.rest = some u) :
    Settled u (s.readPassage lineStart before).2 := by
  rcases Passage.stop_cases lineStart found with
    ⟨stopped, behind⟩ | ⟨word, stopped, noStar, colon, found'⟩
  · exact .closing (congrArg some stopped) behind
  · refine .label (congrArg some stopped) (fun inside => noStar ?_) colon found'
    exact inside.subset (by simp [closingMark])

/-- A passage behind a text that belongs to it contains an end only where one begins in that
text. -/
theorem not_closingMark_infix_readPassage {before : Text} {lineStart : Bool}
    (outside : ¬ Begins closingMark before (Passage.scan lineStart s.rest).text) :
    ¬ closingMark <:+: (s.readPassage lineStart before).1.get := by
  intro inside
  have begins : Begins closingMark (before ++ (Passage.scan lineStart s.rest).text) [] :=
    begins_of_isInfix (by decide) inside []
  rcases begins_append.1 begins with front | back
  · exact outside (by rwa [List.append_nil] at front)
  · exact Passage.not_closingMark_infix_text _ _ (infix_of_begins back)

/-- **Prose stops with the first end of its block, or at a label in front of it**, and contains no
end. -/
theorem Ready.settled (ready : Ready u s) :
    Settled u s.freeText.2 ∧ ¬ closingMark <:+: s.freeText.1.get := by
  -- At the start of a line nothing stands before the passage.
  have fresh (found : behindFirst closingMark s.rest = some u) :
      Settled u (s.readPassage true []).2 ∧
        ¬ closingMark <:+: (s.readPassage true []).1.get :=
    ⟨settled_readPassage true [] found, not_closingMark_infix_readPassage (not_begins_nil _ _)⟩
  have nothing : ¬ closingMark <:+: Prose.missing.get := by simp [Prose.get, closingMark]
  cases ready with
  | unheld held found =>
    rw [freeText, held]
    exact fresh found
  | @ahead v held behind clear found =>
    rcases behindFirst_closingMark_scan found with isClosing | taken | ⟨notClosing, found'⟩
    · have isHeld : s.held = some .closing := by rw [held, isClosing]
      -- The end that is held is left, and there is no prose.
      have missing : s.freeText = (.missing, s) := by
        rw [freeText, isHeld]
        rfl
      rw [missing]
      exact ⟨.closing isHeld (by rw [behind, isClosing]), nothing⟩
    · exact absurd taken clear
    · rw [← behind] at found'
      cases shown : (scan v).1 with
      | endOfSource =>
        -- Nothing stands behind the end of the source, so no end either.
        rw [behind, scan_rest_of_eq_endOfSource shown] at found'
        cases found'
      | symbol sign =>
        rw [shown] at held notClosing
        simp only [freeText, held, if_neg notClosing]
        split
        · exact fresh found'
        · -- A symbol that belongs to the prose has no star, so no end begins in it.
          rename_i noMark
          have noStar := star_notMem_of_scan shown notClosing fun star => noMark (Or.inl star)
          exact ⟨settled_readPassage false sign found',
            not_closingMark_infix_readPassage (not_begins_of_head_notMem noStar _)⟩
      | identifier word =>
        have unclosed : ¬ Begins closingMark word s.rest := by
          intro begins
          have scanned : Begins closingMark (scan v).1.text (scan v).2 := by
            rw [shown, ← behind]
            exact begins
          exact ((begins_closingMark_scan_iff v).1 scanned).elim notClosing clear
        rw [shown] at held
        simp only [freeText, held]
        split
        · -- The word is a label already.
          rename_i colon
          refine ⟨.label held (fun inside => unclosed ?_) colon found', nothing⟩
          exact begins_of_isInfix (by decide) inside _
        · refine ⟨settled_readPassage false word found', not_closingMark_infix_readPassage ?_⟩
          exact fun begins => unclosed (begins.of_slash Passage.head?_text_of_eq)

end Reader

/-! ## The labels in front of the first end -/

namespace Block

variable {u : Text} {r : Reader}

/-- **The labels of a block end with its first end**, and none of their attributes contains one. -/
theorem labelledAll_of_settled (settled : Reader.Settled u r) :
    (∃ r', (labelledAll r).2 = .ok () r' ∧ r'.held = some .closing ∧ r'.rest = u) ∧
      ∀ a ∈ (labelledAll r).1, ¬ closingMark <:+: a.keyword ∧ ¬ closingMark <:+: a.value := by
  -- The induction follows the labels: each one leaves a settled reader behind its prose.
  induction length : r.rest.length using Nat.strong_induction_on generalizing r with
  | _ n ih =>
    cases settled with
    | closing held behind =>
      rw [labelledAll_of_closing held]
      exact ⟨⟨r, rfl, held, behind⟩, by simp⟩
    | @label word held unclosed colon found =>
      obtain ⟨v, rest⟩ := exists_of_startsWithLoneColon colon
      have found' : behindFirst closingMark v = some u := by
        have outside : ¬ Begins closingMark [':'] v := not_begins_of_head_notMem (by decide) _
        rwa [rest, ← List.singleton_append, behindFirst_append_of_not_begins outside] at found
      have shorter : (Passage.scan true v).rest.length < n := by
        have short := (Passage.scan_rest_suffix true v).length_le
        rw [← length, rest, List.length_cons]
        omega
      have behind := Reader.settled_readPassage (s := ⟨r.lastLine, v, none⟩) true [] found'
      obtain ⟨ended, unclosed'⟩ := ih _ shorter behind rfl
      rw [labelledAll_of_label held rest colon]
      refine ⟨ended, fun a inside => ?_⟩
      rcases List.mem_cons.1 inside with rfl | inside
      · refine ⟨unclosed, fun trimmed => ?_⟩
        exact Passage.not_closingMark_infix_text _ _ (trimmed.trans (Text.trim_infix _))
      · exact unclosed' a inside

end Block

/-! ## A name that has gone over the end -/

namespace Reader

variable {u : Text}

/-- A reader has taken a part of an end with `u` behind it: what is left of the end is a slash at
most, and an end that is held is a later one. -/
def Past (u : Text) (r : Reader) : Prop :=
  r.rest.length < 2 + u.length ∧ (r.held = some .closing → r.rest.length < u.length)

theorem Past.next {r : Reader} (past : Past u r) :
    Past u r.next.2 ∧ (r.next.1 = .closing → r.next.2.rest.length < u.length) := by
  obtain ⟨short, isHeld⟩ := past
  have shorter := r.next_rest_suffix.length_le
  refine ⟨⟨by omega, by simp⟩, ?_⟩
  intro isClosing
  cases held : r.held with
  | some x =>
    rw [Reader.next, held] at isClosing ⊢
    exact isHeld (by rw [held]; exact congrArg some isClosing)
  | none =>
    rw [Reader.next, held] at isClosing ⊢
    have whole := length_text_scan_le r.rest
    rw [isClosing] at whole
    show (scan r.rest).2.length < u.length
    have two : Lexeme.closing.text.length = 2 := rfl
    omega

theorem Past.peek {r : Reader} (past : Past u r) : Past u r.peek.2 := by
  have shorter := r.peek_rest_suffix.length_le
  have short := past.1
  refine ⟨by omega, ?_⟩
  intro isClosing
  -- The lexeme that is looked at is the one that is taken next.
  rw [peek_held] at isClosing
  have taken := past.next.2 (by rw [next_fst]; exact Option.some.inj isClosing)
  obtain ⟨lastLine, rest, held⟩ := r
  cases held <;> exact taken

theorem Past.readPassage {r : Reader} (past : r.rest.length < 2 + u.length) (lineStart : Bool)
    (before : Text) : Past u (r.readPassage lineStart before).2 := by
  have shorter := (r.readPassage_rest_suffix lineStart before).length_le
  refine ⟨by omega, ?_⟩
  intro isClosing
  have taken := Passage.length_rest_of_stop_eq_closing (Option.some.inj isClosing)
  show (Passage.scan lineStart r.rest).rest.length < u.length
  omega

theorem Past.freeText {r : Reader} (past : Past u r) : Past u r.freeText.2 := by
  unfold Reader.freeText
  split
  · exact Past.readPassage past.1 _ _
  · exact past
  · split
    · exact past
    · split <;> exact Past.readPassage past.1 _ _
  · split
    · exact past
    · exact Past.readPassage past.1 _ _

end Reader

namespace Block

variable {u : Text}

/-- **What a step leaves of a part of an end** is a part of it as well. -/
theorem alongSteps_past (u : Text) : AlongSteps true fun r s => Past u r → Past u s where
  refl _ past := past
  trans first second past := second (first past)
  next _ past := past.next.1
  peek _ past := past.peek
  freeText _ _ past := past.freeText

/-- Behind a part of an end a block does not end with it. -/
theorem finish_ne_of_past {attributes : EStateM.Result Diagnostic Reader Unit}
    (past : Past u (reached attributes)) (lastLine : Nat) :
    finish attributes ≠ (none, true, ⟨lastLine, u, none⟩) := by
  intro same
  unfold finish at same
  split at same
  · simp at same
  · rename_i r'
    split at same
    · simp at same
    · rename_i r'' ended
      have behind : r''.rest = u := by rw [(Prod.mk.inj (Prod.mk.inj same).2).2]
      rw [readEnd, take_bind] at ended
      split at ended
      · rename_i isClosing
        obtain ⟨-, rfl⟩ := EStateM.Result.ok.inj ended
        have short : r'.next.2.rest.length < u.length := past.next.2 isClosing
        rw [behind] at short
        omega
      · simp at ended

end Block

/-! ## Where a block ends -/

/-- The link that a header gives. -/
def LinkMark.names : LinkMark → List Text
  | .given link => [link]
  | _ => []

/-- The texts that a block gives its item, without the declaration behind it. -/
def Entry.texts (e : Entry) : List Text :=
  e.header.names ++ e.link.names ++
    e.description :: e.labelled.flatMap fun a => [a.keyword, a.value]

namespace Block

/-- The block behind an opening takes the end in front of `u`, or its header fails and has not gone
over that end. -/
def EndsAt (r : Reader) (u : Text) : Prop :=
  match readHeader r with
  | .ok _ r' => finish (labelledAll r'.freeText.2).2 = (none, true, ⟨r.lastLine, u, none⟩)
  | .error _ r' => u <:+ r'.rest

/-- No text of the block behind an opening contains an end of a block. -/
def Unswallowed (r : Reader) : Prop :=
  ∀ e, (read r).1 = entry e → ∀ t ∈ e.texts, ¬ closingMark <:+: t

variable {r s : Reader} {u : Text} {m : Nat}

/-- A reader behind a header stands in front of the first end, or behind a part of it. -/
theorem ready_or_past (found : behindFirst closingMark r.rest = some u)
    (inner : ∀ k < m, nth k r.rest ≠ .closing) (stands : Stands m r s) :
    ∃ n, m ≤ n ∧ s.rest = behind n r.rest ∧
      ((∀ k < n, ¬ TakesClosing (behind k r.rest)) ∧ Ready u s ∨
        (∃ k < n, TakesClosing (behind k r.rest)) ∧ Past u s) := by
  have course := behindFirst_closingMark_behind found inner
  rcases stands with rfl | rfl
  · refine ⟨m, le_rfl, rfl, course.imp ?_ ?_⟩
    · exact And.imp_right fun found' => .unheld rfl found'
    · exact And.imp_right fun short => ⟨short, fun isHeld => nomatch isHeld⟩
  · -- The lexeme that has been looked at may be the one that goes over the end.
    refine ⟨m + 1, by omega, rfl, ?_⟩
    rcases course with ⟨clear, found'⟩ | ⟨⟨k, below, taken⟩, short⟩
    · by_cases taken : TakesClosing (behind m r.rest)
      · refine Or.inr ⟨⟨m, by omega, taken⟩, taken.length_lt found', fun isHeld => ?_⟩
        obtain ⟨word, named⟩ := taken.nth_eq
        have isClosing : nth m r.rest = .closing := Option.some.inj isHeld
        rw [named] at isClosing
        exact Lexeme.noConfusion isClosing
      · exact Or.inl ⟨Nat.forall_lt_succ_right.2 ⟨clear, taken⟩, .ahead rfl rfl taken found'⟩
    · have past : Past u (after m r) := ⟨short, fun isHeld => nomatch isHeld⟩
      exact Or.inr ⟨⟨k, by omega, taken⟩, past.peek⟩

/-- No word of a kind starts like the name of an operator. -/
theorem ofWord?_operator (signs : Text) :
    HeaderKind.ofWord? ("operator".toList ++ signs) = none := by
  have initial : ∀ entry ∈ HeaderKind.words, entry.1.lowerAscii.head? ≠ some 'o' := by decide
  rw [HeaderKind.ofWord?, Option.map_eq_none_iff, List.find?_eq_none]
  intro entry inside same
  apply initial entry inside
  rw [Text.sameIgnoringCase_iff.1 same]
  rfl

/-- **A header that fails has not gone over the first end** exactly when no lexeme of it has. -/
theorem suffix_behind_iff_of_lacks {expected : Expected}
    (found : behindFirst closingMark r.rest = some u) (lacks : Header.Lacks r.rest expected m) :
    u <:+ behind (m + 1) r.rest ↔ ∀ k < m + 1, ¬ TakesClosing (behind k r.rest) := by
  obtain ⟨unnamed, passed⟩ := lacks.passed
  have inner : ∀ k < m, nth k r.rest ≠ .closing := fun k below => (passed k below).ne_closing
  constructor
  · intro inside k below taken
    -- The name of an operator is followed by two colons, which are taken as a whole.
    obtain ⟨signs, named⟩ := taken.nth_eq
    have before : k < m := by
      rcases Nat.lt_succ_iff_lt_or_eq.1 below with before | rfl
      · exact before
      · exact absurd named (unnamed _)
    obtain ⟨scope, further⟩ : nth (k + 1) r.rest = .scope ∧ k + 1 < m := by
      rcases passed k before with first | first | ⟨word, first, isWord | behind⟩
      · rw [named] at first
        exact Lexeme.noConfusion first
      · rw [named] at first
        exact Lexeme.noConfusion first
      · rw [named] at first
        rw [← Lexeme.identifier.inj first, ofWord?_operator] at isWord
        exact nomatch isWord
      · exact behind
    rcases behindFirst_closingMark_behind (n := k + 1) found fun j below => inner j (by omega) with
      ⟨clear, -⟩ | ⟨-, short⟩
    · exact clear k (by omega) taken
    · have whole : 2 + (behind (k + 2) r.rest).length ≤ (behind (k + 1) r.rest).length := by
        have taken := length_text_scan_le (behind (k + 1) r.rest)
        rwa [show (scan (behind (k + 1) r.rest)).1 = .scope from scope] at taken
      have shorter := (behind_suffix_of_le (by omega : k + 2 ≤ m + 1) r.rest).length_le
      have longer := inside.length_le
      omega
  · intro clear
    rcases behindFirst_closingMark_behind found inner with ⟨-, found'⟩ | ⟨⟨k, below, taken⟩, -⟩
    · rcases behindFirst_closingMark_scan found' with isClosing | taken | ⟨-, found''⟩
      · exact ⟨[], (congrArg Prod.snd isClosing).symm⟩
      · exact absurd taken (clear m (by omega))
      · exact (List.suffix_append closingMark u).trans (behindFirst_suffix found'')
    · exact absurd taken (clear k (by omega))

/-- A reader in front of the first end takes it behind what the block says. -/
theorem finish_of_ready (ready : Ready u s) :
    finish (labelledAll s.freeText.2).2 = (none, true, ⟨s.lastLine, u, none⟩) := by
  obtain ⟨⟨r', done, held, rest⟩, -⟩ := labelledAll_of_settled ready.settled.1
  have lastLine : r'.lastLine = s.lastLine := by
    calc r'.lastLine = (reached (labelledAll s.freeText.2).2).lastLine := by rw [done]; rfl
      _ = s.freeText.2.lastLine := reached_labelledAll (alongSteps_lastLine true) _
      _ = s.lastLine := s.lastLine_freeText
  rw [done, finish_of_closing held, rest, lastLine]

/-- In front of the first end a block says nothing that contains one, if its header does not. -/
theorem unswallowed_of_ready {header : Header} {link : LinkMark} (ready : Ready u s)
    (succeeded : readHeader r = .ok (header, link) s)
    (names : ∀ name ∈ header.names ++ link.names, ¬ closingMark <:+: name) : Unswallowed r := by
  obtain ⟨settled, description⟩ := ready.settled
  have labelled := (labelledAll_of_settled settled).2
  intro e isEntry t inside
  rw [read_of_readHeader_eq succeeded] at isEntry
  obtain rfl := Block.entry.inj isEntry
  rcases List.mem_append.1 inside with isName | inside
  · exact names t isName
  · rcases List.mem_cons.1 inside with rfl | inside
    · exact fun trimmed => description (trimmed.trans (Text.trim_infix _))
    · obtain ⟨a, listed, same⟩ := List.mem_flatMap.1 inside
      simp only [List.mem_cons, List.not_mem_nil, or_false] at same
      rcases same with rfl | rfl
      · exact (labelled a listed).1
      · exact (labelled a listed).2

/-- **A block ends with the first end behind its opening**, and no text of it contains one, exactly
when no lexeme of its header goes over that end. The header has read `n` lexemes from the opening
on. -/
theorem endsAt_iff (source : Text) (start : r ∈ starts (.ofSource source))
    (found : behindFirst closingMark r.rest = some u) :
    ∃ n, (reached (readHeader r)).rest = behind n r.rest ∧
      (EndsAt r u ∧ Unswallowed r ↔ ∀ k < n, ¬ TakesClosing (behind k r.rest)) := by
  have lastLine := composed_readHeader.reached_of_steps (alongSteps_lastLine false) r
  -- A header that is read ends in front of the first end or behind a part of it; one that fails
  -- stops on a lexeme that may be the end.
  rcases readHeader_cases (held_of_mem_starts start) with
    ⟨header, link, i, m, succeeded, course, linkCourse⟩ | ⟨expected, m, failed, lacks⟩
  · obtain ⟨between, linkInner, linkSaid⟩ := linkCourse.inner
    -- The lexemes of the header come first, and those of the link behind them.
    have inner : ∀ k < m, nth k r.rest ≠ .closing := by
      intro k below
      rcases Nat.lt_or_ge k i with before | behind
      · exact course.inner.1 k before
      · exact linkInner k behind below
    obtain ⟨n, upTo, behind, state⟩ := ready_or_past found inner (link.stands_reader m r)
    rw [succeeded] at lastLine ⊢
    refine ⟨n, behind, ?_⟩
    rw [EndsAt, succeeded]
    rcases state with ⟨clear, ready⟩ | ⟨⟨k, below, taken⟩, past⟩
    · have said {name : Text} (isName : Header.Said r.rest m name) : ¬ closingMark <:+: name := by
        obtain ⟨k, below, named⟩ := isName
        exact not_closingMark_infix_of_not_takes named (clear k (by omega))
      have ends := finish_of_ready ready
      rw [show (link.reader m r).lastLine = r.lastLine from lastLine] at ends
      refine iff_of_true ⟨ends, unswallowed_of_ready ready succeeded ?_⟩ clear
      intro name isName
      rcases List.mem_append.1 isName with isName | isLink
      · -- The global class has no name of its own in the text.
        rcases course.inner.2 name isName with rfl | isName
        · decide
        · exact said (isName.mono between)
      · cases link with
        | given name =>
          obtain rfl := List.mem_singleton.1 isLink
          exact said (linkSaid _ rfl)
        | absent => cases isLink
        | faulty fault => cases isLink
    · refine iff_of_false (fun ends => ?_) fun clear => clear k below taken
      exact finish_ne_of_past (reached_labelledAll (alongSteps_past u) _ past.freeText) _ ends.1
  · rw [failed]
    refine ⟨m + 1, rfl, ?_⟩
    rw [EndsAt, failed, ← suffix_behind_iff_of_lacks found lacks]
    -- Nothing is said by a block with a broken header.
    apply and_iff_left
    intro e isEntry
    rw [read, failed] at isEntry
    cases isEntry

/-- The star of an end may be the last sign of an operator, and the slash with it. -/
theorem endsAt_iff_multiplication :
    ⟨1, " A::operator*/ x */".toList, none⟩ ∈ starts (.ofSource "/*: A::operator*/ x */".toList) ∧
      behindFirst closingMark " A::operator*/ x */".toList = some " x */".toList ∧
      ∃ n, (reached (readHeader ⟨1, " A::operator*/ x */".toList, none⟩)).rest =
          behind n " A::operator*/ x */".toList ∧
        (EndsAt ⟨1, " A::operator*/ x */".toList, none⟩ " x */".toList ∧
            Unswallowed ⟨1, " A::operator*/ x */".toList, none⟩ ↔
          ∀ k < n, ¬ TakesClosing (behind k " A::operator*/ x */".toList)) := by
  have start : ⟨1, " A::operator*/ x */".toList, none⟩ ∈
      starts (.ofSource "/*: A::operator*/ x */".toList) := by
    rw [starts_of_firstStart?_eq_some (s := ⟨1, " A::operator*/ x */".toList, none⟩) rfl]
    exact List.mem_cons_self
  have found : behindFirst closingMark " A::operator*/ x */".toList = some " x */".toList := rfl
  exact ⟨start, found, endsAt_iff _ start found⟩

/-- **An operator may take the only end of its block**, which has none then. -/
theorem not_endsAt_operator :
    let source := "/*: operator*/".toList
    let r : Reader := ⟨1, " operator*/".toList, none⟩
    r ∈ starts (.ofSource source) ∧ behindFirst closingMark r.rest = some [] ∧ ¬ EndsAt r [] := by
  intro source r
  let s : Reader := ⟨1, [], some .endOfSource⟩
  have start : r ∈ starts (.ofSource source) := by
    rw [starts_of_firstStart?_eq_some (s := r) rfl]
    exact List.mem_cons_self
  have header : readHeader r = .ok (.member .function globalClass "operator*/".toList, .absent) s :=
    rfl
  refine ⟨start, rfl, ?_⟩
  intro ends
  rw [EndsAt, header] at ends
  -- Nothing is left, so there is no label and the end is missing.
  have labelled : (labelledAll s.freeText.2).2 = .ok () s := by
    rw [show s.freeText.2 = s from rfl, labelledAll]
    rfl
  have missing : (finish (.ok () s)).1 = some ⟨1, .endSymbol, .endOfSource⟩ := rfl
  simp only [labelled] at ends
  rw [ends] at missing
  cases missing

end Block

end Docblock
