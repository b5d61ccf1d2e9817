import Docblock.Document.Record
import Docblock.Proofs.Abreast
import Docblock.Proofs.PlainDeclaration
import Docblock.Proofs.Seam

/-!
# Sources that are joined behind a semicolon

A source that ends with a semicolon can be read in one piece with another one behind it, or the two
can be read one after the other. Nothing that is read in front of the semicolon goes over it, apart
from the prose of a block that has no end; so the blocks of the whole are those of the two parts, in
lines that are counted through.

## Main definitions

* `Reader.followedBy`: a reader of a source, with another source behind it
* `Reader.Front`: a reader in front of the semicolon at the end of its source

## Main results

* `abreast_front`: in front of the semicolon a reader and the same one followed by more stay abreast
* `abreast_shifted`: readers of the same text in different lines stay abreast
* `readAll_joined`: the blocks of the first source come first, and those of the second one follow
* `recordSource_append`: two sources that are joined are recorded one after the other
-/

namespace Docblock

open Lexeme

/-! ## What is scanned at a semicolon -/

namespace Lexeme

/-- A semicolon is a lexeme, whatever has been passed in front of it. -/
theorem scanHere_semicolon (fresh : Bool) (t : Text) :
    scanHere (skipMargin fresh (';' :: t)) = (semicolon, t) := by
  have ends : skipMargin fresh (';' :: t) = ';' :: t := by
    cases fresh <;> rfl
  have single : scanSymbol ';' t = ([';'], t) := by
    unfold scanSymbol
    split <;> simp_all
  rw [ends, scanHere, if_neg (by decide), single]
  rfl

/-- **A scan in front of a semicolon** does not go over it: either the semicolon is left, or it is
what has been taken. -/
theorem scan_semicolon_append (u second : Text) :
    scan (u ++ [';'] ++ second) = ((scan (u ++ [';'])).1, (scan (u ++ [';'])).2 ++ second) ∧
      ((∃ v, (scan (u ++ [';'])).2 = v ++ [';']) ∨ scan (u ++ [';']) = (semicolon, [])) := by
  rw [List.append_assoc, List.singleton_append]
  by_cases none : (scan u).1 = endOfSource
  · rw [scan_append_seam_of_nothing isSeam_semicolon none,
      scan_append_seam_of_nothing isSeam_semicolon none, scanHere_semicolon, scanHere_semicolon]
    exact ⟨rfl, Or.inr rfl⟩
  · rw [scan_append_seam isSeam_semicolon none, scan_append_seam isSeam_semicolon none]
    exact ⟨by simp, Or.inl ⟨_, rfl⟩⟩

end Lexeme

theorem declaration_semicolon (t : Text) : declaration (';' :: t) = ([], ';' :: t) := by
  rw [declaration]
  · rfl
  · rintro _ ⟨⟩

/-- A passage that comes to a semicolon goes on with it. -/
theorem Passage.stop_scan_semicolon (lineStart : Bool) :
    (scan lineStart [';']).stop = .endOfSource := by
  cases lineStart <;> rfl

/-! ## The two readers -/

namespace Reader

/-- A reader of a source, with another source behind it. -/
def followedBy (second : Text) (r : Reader) : Reader :=
  ⟨r.lastLine + second.count '\n', r.rest ++ second, r.held⟩

/-- A reader in front of the semicolon at the end of its source. -/
inductive Front (r : Reader) : Prop
  /-- The semicolon is left. -/
  | left {u : Text} (rest : r.rest = u ++ [';'])
  /-- The semicolon has been looked at. -/
  | looked (nothing : r.rest = []) (held : r.held = some semicolon)

/-- What is left ends with a semicolon, if there is anything. -/
def Ending (r : Reader) : Prop := r.rest = [] ∨ ∃ u, r.rest = u ++ [';']

/-- An end of what is left ends with the semicolon as well, behind an opening. -/
theorem front_of_suffix {r : Reader} {lastLine : Nat} {u : Text} (ending : Ending r)
    (inside : opening ++ u <:+ r.rest) : Front ⟨lastLine, u, none⟩ := by
  obtain ⟨a, whole⟩ := inside
  rcases ending with nothing | ⟨v, rest⟩
  · simp [opening, nothing] at whole
  · have last := congrArg List.getLast? (whole.trans rest)
    rcases List.eq_nil_or_concat u with rfl | ⟨w, c, rfl⟩
    · simp [opening] at last
    · simp only [List.concat_eq_append, List.getLast?_append, List.getLast?_singleton] at last
      obtain rfl : c = ';' := by simpa using last
      exact .left (u := w) (by simp)

variable {second : Text} {r : Reader}

@[simp] theorem followedBy_held (second : Text) (r : Reader) :
    (r.followedBy second).held = r.held := rfl

@[simp] theorem followedBy_rest (second : Text) (r : Reader) :
    (r.followedBy second).rest = r.rest ++ second := rfl

theorem Front.ending (front : Front r) : Ending r := by
  cases front with
  | left rest => exact Or.inr ⟨_, rest⟩
  | looked nothing _ => exact Or.inl nothing

/-- **In front of the semicolon** the next lexeme does not depend on what follows. -/
theorem Front.next (front : Front r) (second : Text) :
    (r.followedBy second).next = (r.next.1, r.next.2.followedBy second) ∧ Ending r.next.2 ∧
      (r.next.1 ≠ semicolon → Front r.next.2) := by
  obtain ⟨lastLine, rest, held⟩ := r
  cases held with
  | some x =>
    refine ⟨rfl, front.ending, fun further => ?_⟩
    cases front with
    | left whole => exact .left whole
    | looked _ same => exact absurd (Option.some.inj same) further
  | none =>
    cases front with
    | looked _ same => exact nomatch same
    | @left u whole =>
      obtain rfl : rest = u ++ [';'] := whole
      obtain ⟨same, left⟩ := scan_semicolon_append u second
      refine ⟨?_, ?_, fun further => ?_⟩
      · simp only [Reader.next, followedBy, same]
      · rcases left with left | taken
        · exact Or.inr left
        · exact Or.inl (congrArg Prod.snd taken)
      · rcases left with ⟨v, left⟩ | taken
        · exact .left left
        · exact absurd (congrArg Prod.fst taken) further

/-- In front of the semicolon what is looked at does not depend on what follows either. -/
theorem Front.peek (front : Front r) (second : Text) :
    (r.followedBy second).peek = (r.peek.1, r.peek.2.followedBy second) ∧ Front r.peek.2 := by
  obtain ⟨lastLine, rest, held⟩ := r
  cases held with
  | some x => exact ⟨rfl, front⟩
  | none =>
    cases front with
    | looked _ same => exact nomatch same
    | @left u whole =>
      obtain rfl : rest = u ++ [';'] := whole
      obtain ⟨same, left⟩ := scan_semicolon_append u second
      refine ⟨by simp only [Reader.peek, followedBy, same], ?_⟩
      rcases left with ⟨v, left⟩ | taken
      · exact .left left
      · exact .looked (congrArg Prod.snd taken) (congrArg some (congrArg Prod.fst taken))

/-- **In front of the semicolon** prose does not depend on what follows, unless nothing stops it. -/
theorem Front.freeText (front : Front r) (second : Text) :
    r.freeText.2.held = some .endOfSource ∨
      (r.followedBy second).freeText = (r.freeText.1, r.freeText.2.followedBy second) ∧
        Front r.freeText.2 := by
  cases front with
  | looked nothing held =>
    -- The semicolon belongs to the prose, and nothing is behind it.
    obtain ⟨lastLine, rest, _⟩ := r
    subst nothing held
    exact Or.inl rfl
  | @left u rest =>
    have colon : startsWithLoneColon (r.followedBy second).rest = startsWithLoneColon r.rest := by
      rw [followedBy_rest, rest, List.append_assoc, List.singleton_append,
        startsWithLoneColon_append_seam isSeam_semicolon,
        startsWithLoneColon_append_seam isSeam_semicolon]
    rcases freeText_cases (r.followedBy_held second) colon with
      ⟨prose, first, both⟩ | ⟨lineStart, before, first, both⟩
    · rw [first, both]
      exact Or.inr ⟨rfl, .left rest⟩
    · obtain ⟨atStart, passage⟩ :=
        Passage.exists_scan_append_seam isSeam_semicolon lineStart u
      rw [first, both]
      simp only [readPassage, followedBy_rest, rest]
      rw [List.append_assoc, List.singleton_append, passage, passage]
      split
      · exact Or.inl (congrArg some (Passage.stop_scan_semicolon atStart))
      · exact Or.inr ⟨by simp [followedBy], .left rfl⟩

end Reader

open Reader

/-- **In front of the semicolon a reader and the same one followed by more stay abreast.** -/
theorem abreast_front (second : Text) :
    Abreast 0 True (fun r s => s = r.followedBy second ∧ r.Front)
      (fun r s => s.lastLine = r.lastLine + second.count '\n' ∧ s.rest = r.rest ++ second ∧
        r.Ending) where
  look := by
    rintro r _ ⟨rfl, front⟩
    obtain ⟨same, front'⟩ := front.peek second
    rw [same]
    exact ⟨rfl, rfl, front'⟩
  take := by
    rintro r _ ⟨rfl, front⟩ further
    obtain ⟨same, -, front'⟩ := front.next second
    rw [same]
    exact ⟨rfl, front' further⟩
  pass := by
    rintro r _ ⟨rfl, front⟩
    obtain ⟨same, ending, -⟩ := front.next second
    rw [same]
    exact ⟨rfl, rfl, ending⟩
  prose := by
    rintro r _ ⟨rfl, front⟩
    rcases front.freeText second with atEnd | ⟨same, front'⟩
    · exact Or.inl ⟨trivial, atEnd⟩
    · rw [same]
      exact Or.inr ⟨rfl, rfl, front'⟩
  line := by
    rintro r s ⟨lastLine, rest, -⟩
    rw [Reader.line, lastLine, rest, List.count_append, Reader.line]
    omega
  loosen := by
    rintro r _ ⟨rfl, front⟩
    exact ⟨rfl, rfl, front.ending⟩

/-! ## Lines that are counted through -/

namespace Reader

variable {n : Nat} {r : Reader}

/-- A reader some lines further down. -/
def shifted (n : Nat) (r : Reader) : Reader := { r with lastLine := r.lastLine + n }

/-- No more lines are left than the source has. -/
def Fits (r : Reader) : Prop := r.rest.count '\n' ≤ r.lastLine

theorem Fits.of_suffix {s : Reader} (fits : Fits r) (suffix : s.rest <:+ r.rest)
    (lastLine : s.lastLine = r.lastLine) : Fits s := by
  rw [Fits, lastLine]
  exact (suffix.sublist.count_le _).trans fits

theorem shifted_peek (n : Nat) (r : Reader) :
    (r.shifted n).peek = (r.peek.1, r.peek.2.shifted n) := by
  obtain ⟨lastLine, rest, held⟩ := r
  cases held <;> rfl

theorem shifted_next (n : Nat) (r : Reader) :
    (r.shifted n).next = (r.next.1, r.next.2.shifted n) := by
  obtain ⟨lastLine, rest, held⟩ := r
  cases held <;> rfl

theorem shifted_freeText (n : Nat) (r : Reader) :
    (r.shifted n).freeText = (r.freeText.1, r.freeText.2.shifted n) := by
  rcases freeText_cases (r := r) (s := r.shifted n) rfl rfl with
    ⟨prose, first, second⟩ | ⟨lineStart, before, first, second⟩
  · rw [first, second]
  · rw [first, second]
    rfl

theorem Fits.line_shifted (fits : Fits r) : (r.shifted n).line = r.line + n := by
  unfold Fits at fits
  simp only [shifted, line]
  omega

end Reader

/-- **Readers of the same text in different lines stay abreast.** -/
theorem abreast_shifted (n : Nat) :
    Abreast n False (fun r s => s = r.shifted n ∧ r.Fits)
      (fun r s => s = r.shifted n ∧ r.Fits) where
  look := by
    rintro r _ ⟨rfl, fits⟩
    rw [shifted_peek]
    exact ⟨rfl, rfl, fits.of_suffix r.peek_rest_suffix r.lastLine_peek⟩
  take := by
    rintro r _ ⟨rfl, fits⟩ -
    rw [shifted_next]
    exact ⟨rfl, fits.of_suffix r.next_rest_suffix r.lastLine_next⟩
  pass := by
    rintro r _ ⟨rfl, fits⟩
    rw [shifted_next]
    exact ⟨rfl, fits.of_suffix r.next_rest_suffix r.lastLine_next⟩
  prose := by
    rintro r _ ⟨rfl, fits⟩
    rw [shifted_freeText]
    exact Or.inr ⟨rfl, rfl, fits.of_suffix r.freeText_rest_suffix r.lastLine_freeText⟩
  line := by
    rintro r _ ⟨rfl, fits⟩
    exact fits.line_shifted
  loosen := id

namespace Block

/-- **The blocks of a text some lines further down** are its blocks, some lines further down. -/
theorem readAll_shifted (n : Nat) {r : Reader} (fits : r.Fits) :
    readAll (r.shifted n) = (readAll r).map (later n) := by
  have seek (r : Reader) : (r.shifted n).firstStart? = r.firstStart?.map (·.shifted n) := by
    simp only [Reader.firstStart?, Option.map_map]
    rfl
  induction r using run_induction with
  | ended r first =>
    have second := seek r
    rw [first] at second
    rw [readAll_of_firstStart?_eq_none first, readAll_of_firstStart?_eq_none second, List.map_nil]
  | started r q first ih =>
    have second := seek r
    rw [first] at second
    obtain ⟨lastLine, held, inside⟩ := Reader.firstStart?_spec first
    have fits' : q.Fits := fits.of_suffix ((List.suffix_append opening _).trans inside) lastLine
    rw [readAll_of_firstStart?_eq_some first, readAll_of_firstStart?_eq_some second, List.map_cons]
    cases sameRead_of_abreast (abreast_shifted n) ⟨rfl, fits'⟩ held held with
    | broken one two near =>
      rw [one] at ih ⊢
      rw [two, near.1, ih near.2]
      rfl
    | @closed e r' s' faultless one two near _ _ =>
      have sameDeclaration : declarationHere (r'.shifted n) = declarationHere r' := rfl
      rw [one] at ih ⊢
      rw [two, near.1, ih near.2, sameDeclaration]
      rfl
    | unclosed missing isEnd one two near =>
      rw [one] at ih ⊢
      rw [two, near.1, ih near.2]
      rfl
    | ended allowed _ _ _ => exact allowed.elim

variable {second : Text}

/-- In front of the semicolon a declaration does not depend on what follows. -/
theorem declarationHere_followedBy {r : Reader} (front : r.Front) (unheld : r.held = none)
    (second : Text) : declarationHere (r.followedBy second) = declarationHere r := by
  cases front with
  | looked _ held =>
    rw [unheld] at held
    exact nomatch held
  | @left u rest =>
    have ends (t : Text) := declaration_append_of_stop (declaration_semicolon t) (by decide) u
    have same : (declaration (r.rest ++ second)).1 = (declaration r.rest).1 := by
      rw [rest, List.append_assoc, List.singleton_append, ends, ends]
    simp only [declarationHere, Reader.declaration, followedBy_rest, same]

/-- No opening starts in what is left of the first source and ends in the second one. -/
theorem not_begins_opening_of_ending {r : Reader} (ending : r.Ending)
    (outside : ¬ opening <:+: r.rest) (second : Text) : ¬ Begins opening r.rest second := by
  rcases ending with nothing | ⟨u, whole⟩
  · rw [nothing]
    exact not_begins_nil _ _
  · rw [whole] at outside ⊢
    intro begins
    rcases begins_append.1 begins with front | back
    · exact outside ((infix_of_begins_cons (by decide) front).trans
        (List.prefix_append u _).isInfix)
    · exact not_begins_of_head_notMem (by decide) _ back

/-- **The blocks of the first source come first**, and those of the second one follow. -/
theorem readAll_joined {r s : Reader} (lastLine : s.lastLine = r.lastLine + second.count '\n')
    (rest : s.rest = r.rest ++ second) (ending : r.Ending)
    (complete : ∀ b ∈ readAll r, ∀ d ∈ b.faults, d.expected ≠ .endSymbol) :
    readAll s = readAll r ++ readAll ⟨r.lastLine + second.count '\n', second, none⟩ := by
  -- The induction takes one block of the first source after the other.
  induction r using run_induction generalizing s with
  | ended r first =>
    have outside : ¬ opening <:+: r.rest := by
      rw [← behindFirst_eq_none_iff (by decide)]
      exact Option.map_eq_none_iff.1 first
    have apart := not_begins_opening_of_ending ending outside second
    rw [readAll_of_firstStart?_eq_none first, List.nil_append]
    apply readAll_congr
    rw [Reader.firstStart?, rest, behindFirst_append_of_not_begins apart, lastLine]
    rfl
  | started r q first ih =>
    obtain ⟨-, -, inside⟩ := Reader.firstStart?_spec first
    obtain ⟨u, found, rfl⟩ := Option.map_eq_some_iff.1 first
    have both : s.firstStart? = some (Reader.followedBy second ⟨r.lastLine, u, none⟩) := by
      rw [Reader.firstStart?, rest, behindFirst_append_right found, lastLine]
      rfl
    have front : Reader.Front ⟨r.lastLine, u, none⟩ := front_of_suffix ending inside
    rw [readAll_of_firstStart?_eq_some first] at complete ⊢
    obtain ⟨here, further⟩ := List.forall_mem_cons.1 complete
    have sameLine := lastLine_read ⟨r.lastLine, u, none⟩
    -- What follows is read from the places that the two blocks are read to.
    have others {s' : Reader}
        (near : s'.lastLine = (read ⟨r.lastLine, u, none⟩).2.lastLine + second.count '\n' ∧
          s'.rest = (read ⟨r.lastLine, u, none⟩).2.rest ++ second ∧
            (read ⟨r.lastLine, u, none⟩).2.Ending) :
        readAll s' = readAll (read ⟨r.lastLine, u, none⟩).2 ++
          readAll ⟨r.lastLine + second.count '\n', second, none⟩ := by
      rw [ih near.1 near.2.1 near.2.2 further, sameLine]
    rw [readAll_of_firstStart?_eq_some both, List.cons_append]
    cases sameRead_of_abreast (abreast_front second) ⟨rfl, front⟩ rfl rfl with
    | broken one two near =>
      rw [one] at others ⊢
      rw [two, others near]
      rfl
    | @closed e r' s' faultless one two near held _ =>
      obtain ⟨rfl, front'⟩ := near
      have same := declarationHere_followedBy front' held second
      rw [one] at others ⊢
      rw [two, others ⟨rfl, rfl, front'.ending⟩, same, Entry.later_zero]
    | unclosed missing isEnd one _ _ =>
      rw [one] at here
      exact absurd isEnd (here _ (by simp [faults, missing]))
    | ended _ missing isEnd one =>
      rw [one] at here
      exact absurd isEnd (here _ (by simp [faults, missing]))

/-! ## What is recorded -/

theorem faults_later (n : Nat) (b : Block) : (b.later n).faults = b.faults.map (·.later n) := by
  cases b with
  | broken fault => rfl
  | entry e =>
    obtain ⟨line, header, link, description, labelled, fault, declaration⟩ := e
    cases link <;> cases fault <;> rfl

end Block

theorem Document.record_later (d : Document) (n : Nat) (b : Block) :
    d.record (b.later n) = d.record b := by
  cases b with
  | broken fault => rfl
  | entry e =>
    obtain ⟨line, header, link, description, labelled, fault, declaration⟩ := e
    cases link <;> rfl

/-- **Two sources that are joined** give the blocks of the first one, and those of the second one in
lines that are counted through. -/
theorem Block.ofSource_append {first : Text} (second : Text) (ends : first.getLast? = some ';')
    (complete : ∀ d ∈ sourceFaults first, d.expected ≠ .endSymbol) :
    ofSource (first ++ second) =
      ofSource first ++ (ofSource second).map (later (first.count '\n')) := by
  obtain ⟨u, whole⟩ := List.getLast?_eq_some_iff.1 ends
  have joined := readAll_joined (r := .ofSource first) (s := .ofSource (first ++ second))
    (by simp only [Reader.ofSource, List.count_append]; omega) rfl
    (Or.inr ⟨u, whole⟩) fun b inside d isFault =>
      complete d (List.mem_flatMap.2 ⟨b, inside, isFault⟩)
  have fits : (Reader.ofSource second).Fits := Nat.le_succ _
  have lines : (⟨(Reader.ofSource first).lastLine + second.count '\n', second, none⟩ : Reader) =
      (Reader.ofSource second).shifted (first.count '\n') := by
    simp only [Reader.ofSource, Reader.shifted, Reader.mk.injEq, and_true]
    omega
  rw [lines, readAll_shifted _ fits] at joined
  exact joined

/-- **Two sources that are joined behind a semicolon** are recorded one after the other, and their
diagnostics are those of the first one, and those of the second one in lines that are counted
through. The first source has no block without an end. -/
theorem recordSource_append (d : Document) {first : Text} (second : Text)
    (ends : first.getLast? = some ';')
    (complete : ∀ d ∈ sourceFaults first, d.expected ≠ .endSymbol) :
    d.recordSource (first ++ second) = (d.recordSource first).recordSource second ∧
      sourceFaults (first ++ second) =
        sourceFaults first ++ (sourceFaults second).map (·.later (first.count '\n')) := by
  have blocks := Block.ofSource_append second ends complete
  have lines : (fun d b => Document.record d (Block.later (first.count '\n') b)) =
      Document.record := by
    funext d b
    exact d.record_later _ b
  constructor
  · rw [Document.recordSource, blocks, List.foldl_append, List.foldl_map, lines]
    rfl
  · simp only [sourceFaults, blocks, List.flatMap_append, List.flatMap_map, List.map_flatMap,
      Block.faults_later]

/-- A block that is broken behind the seam is broken in a later line of the whole. -/
theorem recordSource_append_function :
    let first := "/*: f */\nint f();".toList
    let second := "/*: Class */".toList
    first.getLast? = some ';' ∧ (∀ d ∈ sourceFaults first, d.expected ≠ .endSymbol) ∧
      Document.empty.recordSource (first ++ second) =
        (Document.empty.recordSource first).recordSource second ∧
      sourceFaults (first ++ second) =
        sourceFaults first ++ (sourceFaults second).map (·.later (first.count '\n')) := by
  intro first second
  have ends : first.getLast? = some ';' := rfl
  have noFaults : sourceFaults first = [] := by
    have header : Block.readHeader ⟨2, " f */\nint f();".toList, none⟩ =
        .ok (.member .function globalClass ['f'], .absent)
          ⟨2, "\nint f();".toList, some .closing⟩ := rfl
    rw [sourceFaults, Block.ofSource_of_closing rfl header rfl rfl]
    rfl
  have complete : ∀ d ∈ sourceFaults first, d.expected ≠ .endSymbol := by
    rw [noFaults]
    exact List.forall_mem_nil _
  exact ⟨ends, complete, recordSource_append Document.empty second ends complete⟩

end Docblock
