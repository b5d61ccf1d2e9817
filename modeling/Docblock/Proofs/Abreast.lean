import Docblock.Proofs.Completion

/-!
# Two readers abreast

Two readers of different texts may show the same lexemes and the same prose for as long as what
differs in their texts makes no difference. A relation between readers that every step keeps is kept
along a whole block, and the two blocks say the same, in lines that may be a fixed number apart.

The steps need not keep the relation at a semicolon that is taken: no header goes on behind one, so
it is enough that the readers behind it are related in a looser way. They need not keep it either
where prose runs to the end of the source, if the block that lacks its end is of no interest.

## Main definitions

* `Diagnostic.later`, `Entry.later`, `Block.later`: the same some lines further down
* `Abreast`: a relation that is kept by the steps, and a looser one behind what is taken
* `Block.SameRead`: what two readers abreast make of a block

## Main results

* `inStep_readHeader`: two readers abreast read the same header
* `labelledAll_abreast`: and the same labels
* `sameRead_of_abreast`: and the same block, apart from the declaration behind it
-/

namespace Docblock

open Lexeme Reading

/-! ## Some lines further down -/

/-- A diagnostic some lines further down. -/
def Diagnostic.later (n : Nat) (d : Diagnostic) : Diagnostic := { d with line := d.line + n }

/-- What a header says about the link, some lines further down. -/
def LinkMark.later (n : Nat) : LinkMark → LinkMark
  | .faulty fault => .faulty (fault.later n)
  | .given link => .given link
  | .absent => .absent

/-- An entry some lines further down. -/
def Entry.later (n : Nat) (e : Entry) : Entry :=
  { e with line := e.line + n, link := e.link.later n, fault := e.fault.map (·.later n) }

/-- A block some lines further down. -/
def Block.later (n : Nat) : Block → Block
  | broken fault => broken (fault.later n)
  | entry e => entry (e.later n)

@[simp] theorem Diagnostic.later_zero (d : Diagnostic) : d.later 0 = d := rfl

@[simp] theorem LinkMark.later_zero (link : LinkMark) : link.later 0 = link := by cases link <;> rfl

@[simp] theorem Entry.later_zero (e : Entry) : e.later 0 = e := by simp [later]

@[simp] theorem Block.later_zero (b : Block) : b.later 0 = b := by cases b <;> simp [later]

/-! ## Abreast -/

/-- **What is asked for as prose** depends on the lexeme that is held and on whether a lone colon
stands here: nothing, or a passage behind a text that belongs to it. -/
theorem Reader.freeText_cases {r s : Reader} (held : s.held = r.held)
    (colon : startsWithLoneColon s.rest = startsWithLoneColon r.rest) :
    (∃ prose, r.freeText = (prose, r) ∧ s.freeText = (prose, s)) ∨
      ∃ lineStart before, r.freeText = r.readPassage lineStart before ∧
        s.freeText = s.readPassage lineStart before := by
  unfold freeText
  rw [held, colon]
  split
  · exact Or.inr ⟨_, _, rfl, rfl⟩
  · exact Or.inl ⟨_, rfl, rfl⟩
  · split
    · exact Or.inl ⟨_, rfl, rfl⟩
    · split
      · exact Or.inr ⟨_, _, rfl, rfl⟩
      · exact Or.inr ⟨_, _, rfl, rfl⟩
  · split
    · exact Or.inl ⟨_, rfl, rfl⟩
    · exact Or.inr ⟨_, _, rfl, rfl⟩

/-- The sign on which every header ends. -/
def Lexeme.semicolon : Lexeme := symbol [';']

/-- **A relation between two readers that the steps keep**, where the second one is `n` lines
further down, with a looser relation behind what is taken. `mayEnd` says whether the first reader
may come to the end of the source in prose and the second one go on. -/
structure Abreast (n : Nat) (mayEnd : Prop) (R S : Reader → Reader → Prop) : Prop where
  look : ∀ {r s}, R r s → r.peek.1 = s.peek.1 ∧ R r.peek.2 s.peek.2
  take : ∀ {r s}, R r s → r.next.1 ≠ semicolon → R r.next.2 s.next.2
  pass : ∀ {r s}, R r s → S r.next.2 s.next.2
  prose : ∀ {r s}, R r s → mayEnd ∧ r.freeText.2.held = some .endOfSource ∨
    r.freeText.1 = s.freeText.1 ∧ R r.freeText.2 s.freeText.2
  line : ∀ {r s}, S r s → s.line = r.line + n
  loosen : ∀ {r s}, R r s → S r s

/-- The results of two readings are the same up to lines, and the readers are related. -/
inductive Alike (n : Nat) (R S : Reader → Reader → Prop) {α : Type} (later : α → α) :
    EStateM.Result Diagnostic Reader α → EStateM.Result Diagnostic Reader α → Prop
  | ok {a : α} {r s : Reader} (near : R r s) : Alike n R S later (.ok a r) (.ok (later a) s)
  | error {d : Diagnostic} {r s : Reader} (near : S r s) :
      Alike n R S later (.error d r) (.error (d.later n) s)

section Abreast

variable {n : Nat} {mayEnd : Prop} {R S : Reader → Reader → Prop}

/-- Two readers abreast get the same from a reading. -/
def InStep (n : Nat) (R S : Reader → Reader → Prop) {α : Type} (later : α → α) (p : Reading α) :
    Prop := ∀ r s, R r s → Alike n R S later (p r) (p s)

theorem Alike.bind {α β : Type} {p : Reading α} {q : α → Reading β} {f : α → α} {g : β → β}
    {r s : Reader} (first : Alike n R S f (p r) (p s))
    (second : ∀ a r' s', R r' s' → Alike n R S g (q a r') (q (f a) s')) :
    Alike n R S g ((p >>= q) r) ((p >>= q) s) := by
  simp only [Bind.bind, EStateM.bind]
  generalize p r = x, p s = y at first
  cases first with
  | ok near => exact second _ _ _ near
  | error near => exact .error near

theorem InStep.bind {α β : Type} {p : Reading α} {q : α → Reading β} {g : β → β}
    (first : InStep n R S id p) (second : ∀ a, InStep n R S g (q a)) : InStep n R S g (p >>= q) :=
  fun r s near => (first r s near).bind fun a r' s' => second a r' s'

theorem inStep_pure {α : Type} (a : α) : InStep n R S id (pure a : Reading α) :=
  fun _ _ near => .ok near

variable (abreast : Abreast n mayEnd R S)

include abreast

namespace Abreast

theorem next_eq {r s : Reader} (near : R r s) : r.next.1 = s.next.1 := by
  rw [Reader.next_fst, Reader.next_fst]
  exact (abreast.look near).1

/-- A lexeme that has been looked at, and is no semicolon, is taken. -/
theorem take_of_peek {r s : Reader} {x : Lexeme} (near : R r s) (shown : r.peek.1 = x)
    (further : x ≠ semicolon) : R r.next.2 s.next.2 :=
  abreast.take near (by rw [Reader.next_fst, shown]; exact further)

theorem lacking {α : Type} {later : α → α} {r s : Reader} (expected : Expected) (found : Lexeme)
    (near : S r s) :
    Alike n R S later ((Reading.lacking expected found : Reading α) r)
      ((Reading.lacking expected found : Reading α) s) := by
  rw [lacking_apply, lacking_apply, abreast.line near]
  exact .error near

end Abreast

/-! ## Headers -/

theorem inStep_identifier (expected : Expected) :
    InStep n R S id (Reading.identifier expected) := by
  intro r s near
  have behind := abreast.pass near
  rw [Reading.identifier, take_bind, take_bind, ← abreast.next_eq near]
  cases first : r.next.1 with
  | identifier word => exact .ok (abreast.take near (by rw [first]; exact Lexeme.noConfusion))
  | symbol sign => exact abreast.lacking _ _ behind
  | endOfSource => exact abreast.lacking _ _ behind

theorem inStep_takeIf {x : Lexeme} (further : x ≠ semicolon) : InStep n R S id (takeIf x) := by
  intro r s near
  obtain ⟨same, looked⟩ := abreast.look near
  rw [takeIf, look_bind, look_bind, ← same]
  split
  · rename_i shown
    have taken := abreast.take_of_peek near shown further
    rw [← Reader.next_peek r, ← Reader.next_peek s] at taken
    exact .ok taken
  · exact .ok looked

theorem inStep_kind : InStep n R S id HeaderKind.read := by
  intro r s near
  obtain ⟨same, looked⟩ := abreast.look near
  rw [HeaderKind.read, look_bind, look_bind, ← same]
  cases shown : r.peek.1 with
  | identifier word =>
    have taken := abreast.take_of_peek near shown Lexeme.noConfusion
    simp only
    cases HeaderKind.ofWord? word with
    | some kind =>
      simp only [discard_take_bind, Reader.next_peek]
      have colon := inStep_takeIf abreast (x := .colon) (by decide)
      exact colon.bind (fun _ => inStep_pure kind) _ _ taken
    | none => exact .ok looked
  | symbol sign => exact .ok looked
  | endOfSource => exact .ok looked

namespace Header

theorem inStep_readQualified (owner : Text) : InStep n R S id (readQualified owner) :=
  (inStep_identifier abreast _).bind fun _ => inStep_pure _

theorem inStep_readMember : InStep n R S id readMember := by
  intro r s near
  have behind := abreast.pass near
  rw [readMember, take_bind, take_bind, ← abreast.next_eq near]
  -- Of the lexemes that a name may start with none is a semicolon.
  cases first : r.next.1 with
  | identifier word =>
    have taken := abreast.take near (by rw [first]; exact Lexeme.noConfusion)
    obtain ⟨same, looked⟩ := abreast.look taken
    simp only [look_bind, ← same]
    split
    · rename_i shown
      simp only [discard_take_bind, Reader.next_peek]
      exact inStep_readQualified abreast word _ _ (abreast.take_of_peek taken shown (by decide))
    · exact .ok looked
  | symbol sign =>
    simp only
    split
    · rename_i isScope
      refine inStep_readQualified abreast _ _ _ (abreast.take near ?_)
      rw [first, isScope]
      decide
    · exact abreast.lacking _ _ behind
  | endOfSource => exact abreast.lacking _ _ behind

theorem inStep_read : InStep n R S id Header.read := by
  refine (inStep_kind abreast).bind fun kind => ?_
  split
  · exact (inStep_identifier abreast _).bind fun _ => inStep_pure _
  · exact (inStep_identifier abreast _).bind fun _ => inStep_pure _
  · exact (inStep_readMember abreast).bind fun _ =>
      (inStep_takeIf abreast (x := .parentheses) (by decide)).bind fun _ => inStep_pure _
  · exact (inStep_readMember abreast).bind fun _ => inStep_pure _

end Header

theorem inStep_link : InStep n R S (LinkMark.later n) LinkMark.read := by
  intro r s near
  obtain ⟨same, looked⟩ := abreast.look near
  rw [LinkMark.read, look_bind, look_bind, ← same]
  split
  · rename_i shown
    have taken := abreast.take_of_peek near shown (by decide)
    obtain ⟨same', looked'⟩ := abreast.look taken
    simp only [discard_take_bind, Reader.next_peek, look_bind, ← same']
    have faulty {found : Lexeme} : Alike n R S (LinkMark.later n)
        (.ok (.faulty ⟨r.next.2.peek.2.line, .linkName, found⟩) r.next.2.peek.2)
        (.ok (.faulty ⟨s.next.2.peek.2.line, .linkName, found⟩) s.next.2.peek.2) := by
      rw [abreast.line (abreast.loosen looked')]
      exact .ok looked'
    cases shown' : r.next.2.peek.1 with
    | identifier link =>
      simp only [discard_take_bind, Reader.next_peek]
      exact .ok (a := LinkMark.given link) (abreast.take_of_peek taken shown' Lexeme.noConfusion)
    | symbol sign => exact faulty
    | endOfSource => exact faulty
  · exact .ok (a := LinkMark.absent) looked

/-- **Two readers abreast read the same header.** -/
theorem inStep_readHeader :
    InStep n R S (Prod.map id (LinkMark.later n)) Block.readHeader := by
  intro r s near
  refine (Header.inStep_read abreast r s near).bind fun header r' s' near' => ?_
  refine (inStep_link abreast r' s' near').bind fun link r'' s'' near'' => ?_
  exact .ok (a := (header, link)) near''

/-! ## Labels -/

/-- Two readers abreast that hold a lexeme hold the same one. -/
theorem held_eq_of_abreast {r s : Reader} {x y : Lexeme} (near : R r s) (first : r.held = some x)
    (second : s.held = some y) : y = x := by
  have same := (abreast.look near).1
  rw [Block.peek_of_held first, Block.peek_of_held second] at same
  exact same.symm

namespace Block

variable {r s : Reader}

/-- Two readers hold the same lexeme, which has stopped prose. -/
inductive StoppedAlike (r s : Reader) : Prop
  /-- The end of the block. -/
  | closing (held : r.held = some .closing) (held' : s.held = some .closing)
  /-- The end of the source. -/
  | ended (held : r.held = some .endOfSource) (held' : s.held = some .endOfSource)
  /-- A label, in front of its colon. -/
  | label {word v v' : Text} (held : r.held = some (.identifier word)) (rest : r.rest = ':' :: v)
      (colon : startsWithLoneColon r.rest = true) (held' : s.held = some (.identifier word))
      (rest' : s.rest = ':' :: v') (colon' : startsWithLoneColon s.rest = true)

theorem stoppedAlike_of_abreast (near : R r s) (stopped : r.Stopped) (stopped' : s.Stopped) :
    StoppedAlike r s := by
  have sameHeld {x y : Lexeme} (first : r.held = some x) (second : s.held = some y) : y = x :=
    held_eq_of_abreast abreast near first second
  cases stopped with
  | closing held =>
    cases stopped' with
    | closing held' => exact .closing held held'
    | ended held' _ => exact nomatch sameHeld held held'
    | label held' _ _ => exact nomatch sameHeld held held'
  | ended held _ =>
    cases stopped' with
    | closing held' => exact nomatch sameHeld held held'
    | ended held' _ => exact .ended held held'
    | label held' _ _ => exact nomatch sameHeld held held'
  | label held rest colon =>
    cases stopped' with
    | closing held' => exact nomatch sameHeld held held'
    | ended held' _ => exact nomatch sameHeld held held'
    | label held' rest' colon' =>
      obtain rfl := Lexeme.identifier.inj (sameHeld held held')
      exact .label held rest colon held' rest' colon'

/-- Behind a label and its colon the readers are abreast. -/
theorem abreast_behind_label {word v v' : Text} (near : R r s)
    (held : r.held = some (.identifier word)) (rest : r.rest = ':' :: v)
    (colon : startsWithLoneColon r.rest = true) (held' : s.held = some (.identifier word))
    (rest' : s.rest = ':' :: v') (colon' : startsWithLoneColon s.rest = true) :
    R ⟨r.lastLine, v, none⟩ ⟨s.lastLine, v', none⟩ := by
  have isWord : r.next.1 = .identifier word := by rw [next_of_held held]
  have isColon : r.next.2.next.1 = .colon := by rw [next_next_of_label held rest colon]
  have behindWord := abreast.take near (by rw [isWord]; exact Lexeme.noConfusion)
  have behindColon := abreast.take behindWord (by rw [isColon]; decide)
  rwa [next_next_of_label held rest colon, next_next_of_label held' rest' colon'] at behindColon

/-- **Two readers abreast read the same labels**, unless the first one comes to the end of the
source. -/
theorem labelledAll_abreast (near : R r s) (stopped : r.Stopped) (stopped' : s.Stopped) :
    (mayEnd ∧ ∃ t, (labelledAll r).2 = .ok () t ∧ t.held = some .endOfSource) ∨
      (labelledAll r).1 = (labelledAll s).1 ∧
        ∃ t t', (labelledAll r).2 = .ok () t ∧ (labelledAll s).2 = .ok () t' ∧ R t t' := by
  -- The induction follows the labels of the first reader.
  induction length : r.rest.length using Nat.strong_induction_on generalizing r s with
  | _ k ih =>
    cases stoppedAlike_of_abreast abreast near stopped stopped' with
    | closing held held' =>
      rw [labelledAll_of_closing held, labelledAll_of_closing held']
      exact Or.inr ⟨rfl, r, s, rfl, rfl, near⟩
    | ended held held' =>
      rw [labelledAll_of_ended held, labelledAll_of_ended held']
      exact Or.inr ⟨rfl, r, s, rfl, rfl, near⟩
    | @label word v v' held rest colon held' rest' colon' =>
      have behind := abreast_behind_label abreast near held rest colon held' rest' colon'
      have stops := (Reader.sound_of_unheld (r := ⟨r.lastLine, v, none⟩) rfl).stopped_freeText
      have stops' := (Reader.sound_of_unheld (r := ⟨s.lastLine, v', none⟩) rfl).stopped_freeText
      have shorter : (Reader.freeText ⟨r.lastLine, v, none⟩).2.rest.length < k := by
        have short := (Reader.freeText_rest_suffix ⟨r.lastLine, v, none⟩).length_le
        rw [← length, rest, List.length_cons]
        exact Nat.lt_succ_of_le short
      rw [labelledAll_of_label_freeText held rest colon,
        labelledAll_of_label_freeText held' rest' colon']
      rcases abreast.prose behind with ⟨allowed, atEnd⟩ | ⟨sameProse, near'⟩
      · refine Or.inl ⟨allowed, _, ?_, atEnd⟩
        simp only [labelledAll_of_ended atEnd]
      · have others := ih _ shorter near' stops stops' rfl
        simp only [sameProse]
        exact others.imp_right fun ⟨sameLabels, ended⟩ => ⟨by rw [sameLabels], ended⟩

/-! ## Blocks -/

/-- What two readers abreast make of the blocks that they stand in. -/
inductive SameRead (n : Nat) (mayEnd : Prop) (R S : Reader → Reader → Prop) (r s : Reader) : Prop
  /-- Both headers are broken. -/
  | broken {fault : Diagnostic} {r' s' : Reader} (first : read r = (broken fault, r'))
      (second : read s = (broken (fault.later n), s')) (near : S r' s')
  /-- Both blocks have an end, and each has the declaration that stands behind it. -/
  | closed {e : Entry} {r' s' : Reader} (faultless : e.fault = none)
      (first : read r = (entry { e with declaration := some (declarationHere r') }, r'))
      (second : read s =
        (entry { e.later n with declaration := some (declarationHere s') }, s'))
      (near : R r' s') (held : r'.held = none) (held' : s'.held = none)
  /-- Both blocks come to the end of the source. -/
  | unclosed {e : Entry} {fault : Diagnostic} {r' s' : Reader} (missing : e.fault = some fault)
      (isEnd : fault.expected = .endSymbol) (first : read r = (entry e, r'))
      (second : read s = (entry (e.later n), s')) (near : S r' s')
  /-- The first block comes to the end of the source, where the second one may go on. -/
  | ended {e : Entry} {fault : Diagnostic} {r' : Reader} (allowed : mayEnd)
      (missing : e.fault = some fault) (isEnd : fault.expected = .endSymbol)
      (first : read r = (entry e, r'))

section Succeeded

variable {r₁ s₁ r₂ s₂ : Reader} {header : Header} {link : LinkMark}
  (succeeded : readHeader r = .ok (header, link) r₁)
  (succeeded' : readHeader s = .ok (header, link.later n) s₁)

include succeeded succeeded'

/-- Behind the last label two blocks that have said the same end in the same way. -/
theorem sameRead_of_done (labelled : (labelledAll r₁.freeText.2).2 = .ok () r₂)
    (labelled' : (labelledAll s₁.freeText.2).2 = .ok () s₂)
    (said : saidBehind s s₁ header (link.later n) = (saidBehind r r₁ header link).later n)
    (near : R r₂ s₂) (done : r₂.Done) (done' : s₂.Done) : SameRead n mayEnd R S r s := by
  have sameHeld {x y : Lexeme} (first : r₂.held = some x) (second : s₂.held = some y) : y = x :=
    held_eq_of_abreast abreast near first second
  cases done with
  | closing held =>
    cases done' with
    | closing held' =>
      have isClosing : r₂.next.1 = .closing := by rw [next_of_held held]
      have behind := abreast.take near (by rw [isClosing]; decide)
      refine .closed rfl (read_of_closing succeeded labelled held) ?_ behind
        r₂.next_held s₂.next_held
      exact (read_of_closing succeeded' labelled' held').trans (by rw [said])
    | ended held' _ => exact absurd (sameHeld held held') (by decide)
  | ended held nothing =>
    cases done' with
    | closing held' => exact absurd (sameHeld held held') (by decide)
    | ended held' nothing' =>
      have behind := abreast.pass near
      refine .unclosed rfl rfl (read_of_ended succeeded labelled held nothing) ?_ behind
      refine (read_of_ended succeeded' labelled' held' nothing').trans ?_
      rw [said, abreast.line behind]
      rfl

/-- Behind the same header two readers abreast read the same block. -/
theorem sameRead_of_readHeader (line : s.line = r.line + n) (near : R r₁ s₁)
    (stopped : r₁.freeText.2.Stopped) (stopped' : s₁.freeText.2.Stopped) :
    SameRead n mayEnd R S r s := by
  obtain ⟨r₂, labelled, done⟩ := exists_done_of_stopped stopped
  obtain ⟨s₂, labelled', done'⟩ := exists_done_of_stopped stopped'
  rcases abreast.prose near with ⟨allowed, atEnd⟩ | ⟨sameProse, near'⟩
  · -- The first reader comes to the end of the source in the description.
    have ended := congrArg Prod.snd (labelledAll_of_ended atEnd)
    exact .ended allowed rfl rfl (read_of_ended succeeded ended atEnd (stopped.sound atEnd))
  · rcases labelledAll_abreast abreast near' stopped stopped' with
      ⟨allowed, t, ended, atEnd⟩ | ⟨sameLabels, t, t', isFirst, isSecond, near''⟩
    · -- The first reader comes to the end of the source behind a label.
      obtain ⟨-, rfl⟩ := EStateM.Result.ok.inj (labelled.symm.trans ended)
      exact .ended allowed rfl rfl
        (read_of_ended succeeded ended atEnd (done.stopped.sound atEnd))
    · obtain ⟨-, rfl⟩ := EStateM.Result.ok.inj (labelled.symm.trans isFirst)
      obtain ⟨-, rfl⟩ := EStateM.Result.ok.inj (labelled'.symm.trans isSecond)
      have said : saidBehind s s₁ header (link.later n) =
          (saidBehind r r₁ header link).later n := by
        simp [saidBehind, Entry.later, line, sameProse, sameLabels]
      exact sameRead_of_done abreast succeeded succeeded' labelled labelled' said near'' done done'

end Succeeded

/-- **Two readers abreast read the same block**, apart from the declaration behind it. -/
theorem sameRead_of_abreast (near : R r s) (unheld : r.held = none) (unheld' : s.held = none) :
    SameRead n mayEnd R S r s := by
  have line : s.line = r.line + n := abreast.line (abreast.loosen near)
  have same := inStep_readHeader abreast r s near
  generalize first : readHeader r = x, second : readHeader s = y at same
  cases same with
  | @ok said r₁ s₁ near₁ =>
    have stopped := stopped_of_readHeader unheld first
    have stopped' := stopped_of_readHeader unheld' second
    exact sameRead_of_readHeader abreast first second line near₁ stopped stopped'
  | error near' => exact .broken (by rw [read, first]) (by rw [read, second]) near'

end Block

end Abreast

end Docblock
