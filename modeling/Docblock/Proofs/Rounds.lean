import Docblock.Proofs.FunctionNote
import Docblock.Proofs.Lookahead

/-!
# Reading prose in rounds

Prose can be read by a loop. At the start of a line a round leaves a mark of the margin out; a word
that leads a line is put aside until it is known whether it is a label; behind it the line is copied
character by character. Each round takes a character or is the last one, so the loop ends, and what
it has read then is the passage that stands there.

## Main definitions

* `EndsAfter`: a loop ends after some rounds, with a result
* `ProseState`, `ProseState.round`: how far prose has been read, and one round
* `ProseState.Fits`: the states that the loop gets into
* `ProseState.passage`: the passage that is read from a state on
* `Reader.proseStart`: what is known of prose before the first round

## Main results

* `exists_endsAfter`: a loop ends if each round leaves less and keeps the result
* `ProseState.round_rest`: each round takes a character or is the last one
* `ProseState.exists_endsAfter_passage`: the loop ends with the passage
* `Reader.freeText_of_proseStart`: the prose of a reader is what the loop reads
-/

namespace Docblock

/-! ## Loops -/

/-- A loop ends after some rounds with a result. A round leads to another state or to the result. -/
inductive EndsAfter {σ ρ : Type} (round : σ → σ ⊕ ρ) : Nat → σ → ρ → Prop
  /-- The last round gives the result. -/
  | last {s : σ} {x : ρ} (ends : round s = .inr x) : EndsAfter round 1 s x
  /-- Any other round is followed by one more. -/
  | next {n : Nat} {s s' : σ} {x : ρ} (goes : round s = .inl s') (others : EndsAfter round n s' x) :
      EndsAfter round (n + 1) s x

/-- **A loop ends** if each round that is not the last one leaves less of something. If each round
also keeps the value of the state, then the loop ends with that value. -/
theorem exists_endsAfter {σ ρ : Type} {round : σ → σ ⊕ ρ} (fits : σ → Prop) (left : σ → Nat)
    (value : σ → ρ)
    (goes : ∀ {s s'}, fits s → round s = .inl s' → fits s' ∧ left s' < left s ∧ value s' = value s)
    (ends : ∀ {s x}, fits s → round s = .inr x → x = value s) {s : σ} (start : fits s) :
    ∃ n ≤ left s + 1, EndsAfter round n s (value s) := by
  -- The induction is on what is left; the state that a round leads to has less of it.
  induction measure : left s using Nat.strong_induction_on generalizing s with
  | _ m ih =>
    cases taken : round s with
    | inr x =>
      obtain rfl := ends start taken
      exact ⟨1, Nat.le_add_left 1 m, .last taken⟩
    | inl s' =>
      obtain ⟨fits', less, same⟩ := goes start taken
      obtain ⟨n, few, others⟩ := ih (left s') (measure ▸ less) fits' rfl
      rw [same] at others
      exact ⟨n + 1, by omega, .next taken others⟩

/-! ## Words that lead a line -/

namespace Identifier

/-- A word of one character. -/
def single (c : Char) (starts : startsIdentifier c = true) : Identifier := ⟨c, [], starts, rfl⟩

/-- A word with a character more. -/
def concat (w : Identifier) (c : Char) (goesOn : continuesIdentifier c = true) : Identifier where
  first := w.first
  others := w.others ++ [c]
  starts := w.starts
  continues := by simp [w.continues, goesOn]

@[simp] theorem text_single {c : Char} (starts : startsIdentifier c = true) :
    (single c starts).text = [c] := rfl

@[simp] theorem text_concat (w : Identifier) {c : Char} (goesOn : continuesIdentifier c = true) :
    (w.concat c goesOn).text = w.text ++ [c] := rfl

/-- What no identifier starts with or goes on with is not in a word. -/
theorem notMem_text (w : Identifier) {d : Char} (outside : startsIdentifier d = false)
    (outside' : continuesIdentifier d = false) : d ∉ w.text := by
  rw [text, List.mem_cons, not_or]
  refine ⟨(ne_of_startsIdentifier w.starts outside).symm, fun inside => ?_⟩
  rw [w.continues_of_mem d inside] at outside'
  cases outside'

/-- No line ends within a word. -/
theorem isLineBreak_of_mem (w : Identifier) : ∀ c ∈ w.text, isLineBreak c = false := by
  intro c inside
  by_contra lineBreak
  simp only [isLineBreak, Bool.not_eq_false, Bool.or_eq_true, beq_iff_eq] at lineBreak
  rcases lineBreak with rfl | rfl
  · exact w.notMem_text (by decide) (by decide) inside
  · exact w.notMem_text (by decide) (by decide) inside

end Identifier

/-- **A word that leads a line is read as it is** if no colon stands alone behind it. -/
theorem Passage.scan_of_word (w : Identifier) {t : Text}
    (ends : ∀ c, t.head? = some c → continuesIdentifier c = false)
    (noColon : startsWithLoneColon t = false) :
    scan true (w.text ++ t) = prepend w.text (scan false t) := by
  obtain ⟨noBlank, noBreak⟩ := isBlank_of_startsIdentifier w.starts
  have noStar : w.first ≠ '*' := ne_of_startsIdentifier w.starts (by decide)
  have noSlash : w.first ≠ '/' := ne_of_startsIdentifier w.starts (by decide)
  have noMargin : isMargin w.first = false := by simp [isMargin, noBlank, noStar, noSlash]
  have behind : t.dropWhile continuesIdentifier = t := by
    cases t with
    | nil => rfl
    | cons c t => exact List.dropWhile_cons_of_neg (by simp [ends c rfl])
  have noLabel : label? (w.first :: (w.others ++ t)) = none := by
    rw [label?, List.dropWhile_append_of_pos w.continues_of_mem, behind, noColon, Bool.and_false]
    rfl
  have clear : ¬ Begins closingMark w.text t :=
    not_begins_of_head_notMem (w.notMem_text (by decide) (by decide)) _
  rw [← scan_append w.isLineBreak_of_mem clear, Identifier.text, List.cons_append,
    scan_of_noMargin noMargin noBreak, noLabel]

/-- Within a line two colons are read as they are. -/
theorem Passage.scan_of_scope (t : Text) :
    scan false (':' :: ':' :: t) = prepend [':', ':'] (scan false t) :=
  scan_append (w := [':', ':']) (by simp [isLineBreak]) (not_begins_of_head_notMem (by decide) _)

/-- A colon that is followed by no second one stands alone. -/
theorem startsWithLoneColon_of_ne {t : Text} (alone : ∀ u, t = ':' :: u → False) :
    startsWithLoneColon (':' :: t) = true := by
  refine startsWithLoneColon_iff.2 fun second => ?_
  cases t with
  | nil => cases second
  | cons d u => exact alone u (by rw [Option.some.inj second])

theorem startsWithLoneColon_eq_false {t : Text} (noColon : ∀ u, t = ':' :: u → False) :
    startsWithLoneColon t = false := by
  cases colon : startsWithLoneColon t with
  | false => rfl
  | true =>
    obtain ⟨u, same⟩ := exists_of_startsWithLoneColon colon
    exact (noColon u same).elim

/-! ## The loop of prose -/

/-- Where the loop of prose stands in a line. -/
inductive ProseMode where
  /-- In the margin. -/
  | margin
  /-- Within the word that leads the line. -/
  | word
  /-- Behind the margin and that word. -/
  | line

/-- Whether a label may still stand here: not behind the word that leads the line. -/
def ProseMode.leadsLine : ProseMode → Bool
  | margin => true
  | word => true
  | line => false

/-- How far prose has been read: the characters of a word that may be a label, the text in front of
them, and the text that is still to be read. -/
structure ProseState where
  mode : ProseMode
  word : Text
  text : Text
  rest : Text

namespace ProseState

/-- What becomes of the word that leads a line, as the text behind it tells: it goes on, it is part
of a name, it is a label, or it is a word like any other. -/
def behindWord (word text : Text) : Text → ProseState ⊕ Passage
  | [] => .inl ⟨.line, [], text ++ word, []⟩
  | ':' :: ':' :: t => .inl ⟨.line, [], text ++ word ++ [':', ':'], t⟩
  | ':' :: t => .inr ⟨text, .identifier word, ':' :: t⟩
  | c :: t =>
    if continuesIdentifier c then .inl ⟨.word, word, text, c :: t⟩
    else .inl ⟨.line, [], text ++ word, c :: t⟩

/-- One round: the end of the block or of the source is taken, or a character. -/
def round (s : ProseState) : ProseState ⊕ Passage :=
  match s.rest with
  | [] => .inr ⟨s.text ++ s.word, .endOfSource, []⟩
  | c :: t =>
    if ['*', '/'].isPrefixOf (c :: t) then .inr ⟨s.text ++ s.word, .closing, t.drop 1⟩
    else
      match s.mode with
      | .margin =>
        if isMargin c then .inl { s with rest := t }
        else if isLineBreak c then .inl { s with text := s.text ++ [c], rest := t }
        else if startsIdentifier c then behindWord (s.word ++ [c]) s.text t
        else .inl { s with mode := .line, text := s.text ++ [c], rest := t }
      | .word => behindWord (s.word ++ [c]) s.text t
      | .line =>
        .inl { s with
          mode := if isLineBreak c then .margin else .line
          text := s.text ++ [c]
          rest := t }

/-- The states that the loop gets into: a word is put aside only within the word that leads a line,
and then it goes on. -/
inductive Fits : ProseState → Prop
  | margin (text rest : Text) : Fits ⟨.margin, [], text, rest⟩
  | word (w : Identifier) (text : Text) {c : Char} {rest : Text}
      (goesOn : continuesIdentifier c = true) : Fits ⟨.word, w.text, text, c :: rest⟩
  | line (text rest : Text) : Fits ⟨.line, [], text, rest⟩

/-- The passage that is read from a state on: what has been read already, and the passage that the
text starts with, with the word that has been put aside. -/
def passage (s : ProseState) : Passage :=
  (Passage.scan s.mode.leadsLine (s.word ++ s.rest)).prepend s.text

variable {s s' : ProseState} {word text t : Text} {p : Passage}

/-! ## What a round takes -/

theorem behindWord_rest (goes : behindWord word text t = .inl s') : s'.rest <:+ t := by
  unfold behindWord at goes
  split at goes
  · obtain rfl := Sum.inl.inj goes
    exact List.suffix_rfl
  · obtain rfl := Sum.inl.inj goes
    exact List.suffix_append [':', ':'] _
  · cases goes
  · split at goes
    · obtain rfl := Sum.inl.inj goes
      exact List.suffix_rfl
    · obtain rfl := Sum.inl.inj goes
      exact List.suffix_rfl

/-- **Each round takes a character or is the last one.** -/
theorem round_rest (goes : s.round = .inl s') :
    s'.rest <:+ s.rest ∧ s'.rest.length < s.rest.length := by
  suffices taken : ∃ c t, s.rest = c :: t ∧ s'.rest <:+ t by
    obtain ⟨c, t, rest, behind⟩ := taken
    rw [rest]
    exact ⟨behind.trans (List.suffix_cons c t), Nat.lt_succ_of_le behind.length_le⟩
  unfold round at goes
  split at goes
  · cases goes
  · rename_i c t rest
    refine ⟨c, t, rest, ?_⟩
    split at goes
    · cases goes
    · split at goes
      · split at goes
        · obtain rfl := Sum.inl.inj goes
          exact List.suffix_rfl
        · split at goes
          · obtain rfl := Sum.inl.inj goes
            exact List.suffix_rfl
          · split at goes
            · exact behindWord_rest goes
            · obtain rfl := Sum.inl.inj goes
              exact List.suffix_rfl
      · exact behindWord_rest goes
      · obtain rfl := Sum.inl.inj goes
        exact List.suffix_rfl

/-! ## What a round reads -/

/-- What has been read is part of the passage. -/
theorem passage_append (mode : ProseMode) (text word rest : Text) :
    passage ⟨mode, [], text ++ word, rest⟩ =
      ((Passage.scan mode.leadsLine rest).prepend word).prepend text := by
  simp [passage, Passage.prepend]

/-- **A word that is no label** goes on, or it is read as it is. -/
theorem behindWord_goes (w : Identifier) (goes : behindWord w.text text t = .inl s') :
    s'.Fits ∧ s'.passage = (Passage.scan true (w.text ++ t)).prepend text := by
  -- Behind the word the source ends, or there are two colons, or a character that is no colon.
  unfold behindWord at goes
  split at goes
  · obtain rfl := Sum.inl.inj goes
    have whole := Passage.scan_of_word w (t := []) (by simp) rfl
    exact ⟨.line _ _, by rw [whole, passage_append]; rfl⟩
  · rename_i u
    obtain rfl := Sum.inl.inj goes
    have ends : ∀ c, (':' :: ':' :: u).head? = some c → continuesIdentifier c = false := by
      rintro c ⟨⟩
      decide
    refine ⟨.line _ _, ?_⟩
    rw [Passage.scan_of_word w ends rfl, Passage.scan_of_scope, List.append_assoc, passage_append]
    simp [Passage.prepend, ProseMode.leadsLine]
  · cases goes
  · rename_i c u _ noColon
    split at goes
    · rename_i goesOn
      obtain rfl := Sum.inl.inj goes
      exact ⟨.word w text goesOn, rfl⟩
    · rename_i noWord
      obtain rfl := Sum.inl.inj goes
      have ends : ∀ d, (c :: u).head? = some d → continuesIdentifier d = false := by
        rintro d ⟨⟩
        simpa using noWord
      have notLone : startsWithLoneColon (c :: u) = false :=
        startsWithLoneColon_eq_false fun v same => noColon (List.cons.inj same).1
      exact ⟨.line _ _, by rw [Passage.scan_of_word w ends notLone, passage_append]; rfl⟩

/-- **A word that is a label** stops the passage. -/
theorem behindWord_ends (w : Identifier) (ends : behindWord w.text text t = .inr p) :
    p = (Passage.scan true (w.text ++ t)).prepend text := by
  unfold behindWord at ends
  split at ends
  · cases ends
  · cases ends
  · rename_i u alone
    obtain rfl := Sum.inr.inj ends
    rw [Passage.scan_of_label w (startsWithLoneColon_of_ne alone)]
    simp [Passage.prepend]
  · split at ends <;> cases ends

/-- **A round that is not the last one keeps the passage.** -/
theorem round_goes (fits : s.Fits) (goes : s.round = .inl s') :
    s'.Fits ∧ s'.passage = s.passage := by
  cases fits with
  | margin text rest =>
    cases rest with
    | nil => cases goes
    | cons c t =>
      have here : passage ⟨.margin, [], text, c :: t⟩ =
          (Passage.scan true (c :: t)).prepend text := rfl
      simp only [round] at goes
      split at goes
      · cases goes
      · rename_i notClosing
        rw [Passage.scan, if_neg notClosing, if_pos rfl] at here
        split at goes
        · rename_i margin
          obtain rfl := Sum.inl.inj goes
          rw [if_pos margin] at here
          exact ⟨.margin _ _, here.symm⟩
        · rename_i noMargin
          rw [if_neg noMargin] at here
          split at goes
          · rename_i lineBreak
            obtain rfl := Sum.inl.inj goes
            rw [if_pos lineBreak] at here
            exact ⟨.margin _ _, by rw [here, passage_append]; rfl⟩
          · rename_i noBreak
            rw [if_neg noBreak] at here
            split at goes
            · rename_i starts
              exact behindWord_goes (.single c starts) goes
            · rename_i noWord
              obtain rfl := Sum.inl.inj goes
              have noLabel : label? (c :: t) = none := by simp [label?, noWord]
              rw [noLabel] at here
              exact ⟨.line _ _, by rw [here, passage_append]; rfl⟩
  | @word w text c t goesOn =>
    simp only [round] at goes
    split at goes
    · cases goes
    · obtain ⟨fits, same⟩ := behindWord_goes (w.concat c goesOn) goes
      refine ⟨fits, ?_⟩
      rw [same, Identifier.text_concat, List.append_assoc]
      rfl
  | line text rest =>
    cases rest with
    | nil => cases goes
    | cons c t =>
      simp only [round] at goes
      split at goes
      · cases goes
      · rename_i notClosing
        obtain rfl := Sum.inl.inj goes
        have here : passage ⟨.line, [], text, c :: t⟩ =
            ((Passage.scan (isLineBreak c) t).prepend [c]).prepend text := by
          rw [passage, ProseMode.leadsLine, List.nil_append, Passage.scan, if_neg notClosing,
            if_neg (by simp)]
          rfl
        rw [here, passage_append]
        -- Behind a line break the next line starts with its margin.
        cases isLineBreak c with
        | true => exact ⟨.margin _ _, rfl⟩
        | false => exact ⟨.line _ _, rfl⟩

/-- With nothing left, or in front of the end of the block, there is nothing more to the passage. -/
theorem passage_of_ended (mode : ProseMode) (text : Text) :
    passage ⟨mode, [], text, []⟩ = ⟨text, .endOfSource, []⟩ := by
  simp [passage, Passage.scan, Passage.prepend]

theorem passage_of_closing (mode : ProseMode) (text : Text) {c : Char} {t : Text}
    (isClosing : ['*', '/'].isPrefixOf (c :: t) = true) :
    passage ⟨mode, [], text, c :: t⟩ = ⟨text, .closing, t.drop 1⟩ := by
  rw [passage, List.nil_append, Passage.scan, if_pos isClosing, Passage.prepend, List.append_nil]

/-- **The last round gives the passage.** -/
theorem round_ends (fits : s.Fits) (ends : s.round = .inr p) : p = s.passage := by
  cases fits with
  | margin text rest =>
    cases rest with
    | nil =>
      obtain rfl := Sum.inr.inj ends
      rw [passage_of_ended, List.append_nil]
    | cons c t =>
      simp only [round] at ends
      split at ends
      · rename_i isClosing
        obtain rfl := Sum.inr.inj ends
        rw [passage_of_closing _ _ isClosing, List.append_nil]
      · split at ends
        · cases ends
        · split at ends
          · cases ends
          · split at ends
            · rename_i starts
              exact behindWord_ends (.single c starts) ends
            · cases ends
  | @word w text c t goesOn =>
    simp only [round] at ends
    split at ends
    · rename_i isClosing
      -- A star does not go on with a word.
      obtain ⟨rfl, -⟩ := closingMark_prefix_cons_iff.1 (List.isPrefixOf_iff_prefix.1 isClosing)
      exact absurd goesOn (by decide)
    · rw [behindWord_ends (w.concat c goesOn) ends, Identifier.text_concat, List.append_assoc]
      rfl
  | line text rest =>
    cases rest with
    | nil =>
      obtain rfl := Sum.inr.inj ends
      rw [passage_of_ended, List.append_nil]
    | cons c t =>
      simp only [round] at ends
      split at ends
      · rename_i isClosing
        obtain rfl := Sum.inr.inj ends
        rw [passage_of_closing _ _ isClosing, List.append_nil]
      · cases ends

/-- **The loop of prose ends with the passage**, after at most one round for each character and one
more. -/
theorem exists_endsAfter_passage (fits : s.Fits) :
    ∃ n ≤ s.rest.length + 1, EndsAfter round n s s.passage := by
  refine exists_endsAfter Fits (fun s => s.rest.length) passage ?_ round_ends fits
  intro s s' fits goes
  obtain ⟨fits', same⟩ := round_goes fits goes
  exact ⟨fits', (round_rest goes).2, same⟩

end ProseState

/-! ## The prose of a reader -/

namespace Reader

variable {r : Reader} {s : ProseState} {answer : Prose}

/-- What is known of prose before the first round: the answer, or the state from which it is read. A
lexeme that is held belongs to the prose, with the colons behind it if it is the name of a class,
unless it is a mark of the margin. -/
def proseStart (r : Reader) : ProseState ⊕ Prose :=
  match r.held with
  | none => .inl ⟨.margin, [], [], r.rest⟩
  | some .endOfSource => .inr .ended
  | some (.symbol sign) =>
    if Lexeme.symbol sign = .closing then .inr .missing
    else if sign = ['*'] ∨ sign = ['/'] then .inl ⟨.margin, [], [], r.rest⟩
    else .inl ⟨.line, [], sign, r.rest⟩
  | some (.identifier word) =>
    match r.rest with
    | ':' :: ':' :: t => .inl ⟨.line, [], word ++ [':', ':'], t⟩
    | ':' :: _ => .inr .missing
    | t => .inl ⟨.line, [], word, t⟩

/-- The prose that a passage gives to a reader. -/
def readUpTo (r : Reader) (p : Passage) : Prose × Reader :=
  (.text p.text, { r with rest := p.rest, held := some p.stop })

/-- **The prose of a reader is the passage** that is read from the first state on. -/
theorem freeText_of_proseStart_inl (started : r.proseStart = .inl s) :
    s.Fits ∧ s.rest <:+ r.rest ∧ r.freeText = r.readUpTo s.passage := by
  obtain ⟨lastLine, rest, held⟩ := r
  cases held with
  | none =>
    obtain rfl := Sum.inl.inj started
    exact ⟨.margin _ _, List.suffix_rfl, rfl⟩
  | some x =>
    cases x with
    | endOfSource => cases started
    | symbol sign =>
      simp only [proseStart] at started
      simp only [freeText]
      split at started
      · cases started
      · rename_i notClosing
        rw [if_neg notClosing]
        split at started
        · rename_i mark
          obtain rfl := Sum.inl.inj started
          rw [if_pos mark]
          exact ⟨.margin _ _, List.suffix_rfl, rfl⟩
        · rename_i noMark
          obtain rfl := Sum.inl.inj started
          rw [if_neg noMark]
          exact ⟨.line _ _, List.suffix_rfl, rfl⟩
    | identifier word =>
      simp only [proseStart] at started
      simp only [freeText]
      split at started
      · rename_i t
        obtain rfl := Sum.inl.inj started
        rw [if_neg (by simp [startsWithLoneColon])]
        refine ⟨.line _ _, List.suffix_append [':', ':'] t, ?_⟩
        rw [readPassage, Passage.scan_of_scope, readUpTo]
        simp [ProseState.passage, Passage.prepend, ProseMode.leadsLine]
      · cases started
      · rename_i noScope noColon
        obtain rfl := Sum.inl.inj started
        rw [if_neg (by simp [startsWithLoneColon_eq_false noColon])]
        exact ⟨.line _ _, List.suffix_rfl, rfl⟩

/-- What is known before the first round is the answer. -/
theorem freeText_of_proseStart_inr (answered : r.proseStart = .inr answer) :
    r.freeText = (answer, r) := by
  obtain ⟨lastLine, rest, held⟩ := r
  cases held with
  | none => cases answered
  | some x =>
    cases x with
    | endOfSource =>
      obtain rfl := Sum.inr.inj answered
      rfl
    | symbol sign =>
      simp only [proseStart] at answered
      split at answered
      · rename_i isClosing
        obtain rfl := Sum.inr.inj answered
        simp only [freeText]
        rw [if_pos isClosing]
      · split at answered <;> cases answered
    | identifier word =>
      simp only [proseStart] at answered
      split at answered
      · cases answered
      · rename_i t alone
        obtain rfl := Sum.inr.inj answered
        simp only [freeText]
        rw [if_pos (startsWithLoneColon_of_ne alone)]
      · cases answered

end Reader

end Docblock
