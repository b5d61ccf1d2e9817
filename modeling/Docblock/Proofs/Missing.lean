import Docblock.Proofs.Completion
import Docblock.Proofs.Notices
import Docblock.Proofs.Walk

/-!
# What a source lacks

In a header a name is missing, or the link behind a hash sign; then a symbol stands in its place,
or nothing is left. Behind the labels of a block the reader holds the end of the block or the end of
the source, so nothing can be missing there but the end, and nothing is left then. So a source lacks
some names, and at last an end.

## Main definitions

* `Lexeme.Precedes`: a lexeme is scanned right in front of a place of a source
* `Notice.OfName`, `Notice.OfEnd`: a name is missing, or the end of a block

## Main results

* `exists_notices_eq`, `exists_noticesFrom_eq`: what a block lacks, and what a source lacks
* `Document.walk_lacks_names_and_last_end`: which diagnostics a walk gives
-/

namespace Docblock

open Lexeme Reader Reading

namespace Lexeme

/-- A lexeme is scanned in a source, right in front of the text that is left. -/
def Precedes (x : Lexeme) (source rest : Text) : Prop := ∃ t, t <:+ source ∧ scan t = (x, rest)

variable {x : Lexeme} {source t rest : Text}

theorem precedes_nth (n : Nat) (t : Text) : (nth n t).Precedes t (behind (n + 1) t) :=
  ⟨behind n t, behind_suffix n t, rfl⟩

theorem Precedes.of_suffix (precedes : x.Precedes t rest) (suffix : t <:+ source) :
    x.Precedes source rest := by
  obtain ⟨u, inside, scanned⟩ := precedes
  exact ⟨u, inside.trans suffix, scanned⟩

/-- **A lexeme stands in the source** right in front of the text that is left. -/
theorem Precedes.append_suffix (precedes : x.Precedes source rest) : x.text ++ rest <:+ source := by
  obtain ⟨t, inside, scanned⟩ := precedes
  have whole := text_append_scan t
  rw [scanned] at whole
  have suffix := skipMargin_suffix false t
  rw [← whole] at suffix
  exact suffix.trans inside

end Lexeme

namespace Notice

/-- A name is missing: in its place stands a lexeme that is no identifier, and the reader is behind
that lexeme. -/
structure OfName (t : Text) (n : Notice) : Prop where
  line : n.fault.line = n.place.line
  expected : n.fault.expected ∈ [.projectName, .className, .memberName, .linkName]
  unnamed : ∀ word, n.fault.found ≠ .identifier word
  precedes : n.fault.found.Precedes t n.place.rest

/-- The end of a block is missing, and nothing is left. -/
structure OfEnd (n : Notice) : Prop where
  fault : n.fault = ⟨n.place.line, .endSymbol, .endOfSource⟩
  nothing : n.place.rest = []

variable {t u : Text} {n : Notice}

/-- A name is missing in front of a symbol, or at the end of the source. -/
theorem OfName.found_cases (ofName : n.OfName t) :
    n.fault.found = .endOfSource ∨
      ∃ sign, (Lexeme.symbol sign).Precedes t n.place.rest ∧ n.fault.found = .symbol sign := by
  have precedes := ofName.precedes
  cases found : n.fault.found with
  | identifier word => exact absurd found (ofName.unnamed word)
  | symbol sign =>
    rw [found] at precedes
    exact Or.inr ⟨sign, precedes, rfl⟩
  | endOfSource => exact Or.inl rfl

theorem OfName.expected_ne (ofName : n.OfName t) :
    n.fault.expected ≠ .colon ∧ n.fault.expected ≠ .endSymbol := by
  have missing := ofName.expected
  constructor
  · intro isColon
    simp [isColon] at missing
  · intro isEnd
    simp [isEnd] at missing

theorem OfName.of_suffix (ofName : n.OfName t) (suffix : t <:+ u) : n.OfName u :=
  { ofName with precedes := ofName.precedes.of_suffix suffix }

end Notice

namespace Block

variable {r : Reader} {n : Notice}

/-! ## What a header lacks -/

theorem expected_mem_of_lacks {t : Text} {expected : Expected} {m : Nat}
    (lacks : Header.Lacks t expected m) :
    expected ∈ [.projectName, .className, .memberName, .linkName] := by
  cases lacks <;> simp

/-- A link that is missing is reported in the line that the reader has got to. -/
theorem fault_of_read_link {s : Reader} {fault : Diagnostic}
    (failed : LinkMark.read r = .ok (.faulty fault) s) :
    fault.line = s.line ∧ fault.expected = .linkName := by
  rw [LinkMark.read, look_bind] at failed
  split at failed
  · rw [discard_take_bind, look_bind] at failed
    cases shown : r.peek.2.next.2.peek.1 with
    | identifier word =>
      -- An identifier is taken for the link.
      rw [shown] at failed
      cases failed
    | _ =>
      rw [shown] at failed
      obtain ⟨isFault, rfl⟩ := EStateM.Result.ok.inj failed
      rw [← LinkMark.faulty.inj isFault]
      exact ⟨rfl, rfl⟩
  · cases failed

theorem fault_of_readHeader {s : Reader} {header : Header} {fault : Diagnostic}
    (read : readHeader r = .ok (header, .faulty fault) s) :
    fault.line = s.line ∧ fault.expected = .linkName := by
  obtain ⟨header', r₁, -, others⟩ := bind_eq_ok_iff.1 read
  obtain ⟨link, r₂, readLink, same⟩ := bind_eq_ok_iff.1 others
  obtain ⟨said, rfl⟩ := EStateM.Result.ok.inj same
  obtain ⟨-, rfl⟩ := Prod.mk.inj said
  exact fault_of_read_link readLink

theorem ofName_of_mem_noticesOfLink {header : Header} {link : LinkMark} {i m : Nat}
    (read : readHeader r = .ok (header, link) (link.reader m r))
    (course : LinkMark.Course r.rest i link m)
    (inside : n ∈ noticesOfLink (link.reader m r) link) : n.OfName r.rest := by
  cases course with
  | absent first => cases inside
  | given first second => cases inside
  | @faulty fault first second found =>
    obtain rfl := List.mem_singleton.1 inside
    obtain ⟨line, expected⟩ := fault_of_readHeader read
    refine ⟨line, by simp [expected], ?_, ?_⟩
    · intro word
      rw [found]
      exact second word
    · -- The lexeme behind the hash sign has been looked at, so the reader is behind it.
      rw [found]
      exact precedes_nth (i + 1) r.rest

/-! ## What a block lacks at its end -/

theorem noticesOfEnd_of_held {x : Lexeme} (held : r.held = some x) :
    noticesOfEnd (.ok () r) =
      if x = .closing then [] else [⟨⟨r.next.2.line, .endSymbol, x⟩, r.next.2⟩] := by
  have taken : readEnd r = if x = .closing then .ok () r.next.2
      else .error ⟨r.next.2.line, .endSymbol, x⟩ r.next.2 := by
    rw [readEnd, take_bind, next_of_held held]
    split <;> rfl
  rw [noticesOfEnd, taken]
  by_cases isClosing : x = .closing <;> simp [isClosing]

/-- Behind the labels a block lacks nothing but its end. -/
theorem noticesOfEnd_of_done (done : r.Done) :
    noticesOfEnd (.ok () r) = [] ∨ ∃ n, noticesOfEnd (.ok () r) = [n] ∧ n.OfEnd := by
  cases done with
  | closing held =>
    rw [noticesOfEnd_of_held held, if_pos rfl]
    exact Or.inl rfl
  | ended held nothing =>
    rw [noticesOfEnd_of_held held, if_neg (by decide)]
    refine Or.inr ⟨_, rfl, rfl, ?_⟩
    rw [next_of_held held]
    exact nothing

/-! ## What blocks lack -/

/-- **A block lacks names, and at last its end.** -/
theorem exists_notices_eq (unheld : r.held = none) :
    ∃ names, (∀ n ∈ names, n.OfName r.rest) ∧
      (notices r = names ∨ ∃ n, notices r = names ++ [n] ∧ n.OfEnd) := by
  rcases readHeader_cases unheld with
    ⟨header, link, i, m, succeeded, course, linkCourse⟩ | ⟨expected, m, failed, lacks⟩
  · obtain ⟨t, labelled, done⟩ := exists_done_of_stopped (stopped_of_readHeader unheld succeeded)
    have whole : notices r = noticesOfLink (link.reader m r) link ++ noticesOfEnd (.ok () t) := by
      rw [notices, succeeded, ← labelled]
    refine ⟨_, fun n inside => ofName_of_mem_noticesOfLink succeeded linkCourse inside, ?_⟩
    rcases noticesOfEnd_of_done done with none | ⟨n, one, ofEnd⟩
    · exact Or.inl (by rw [whole, none, List.append_nil])
    · exact Or.inr ⟨n, by rw [whole, one], ofEnd⟩
  · refine ⟨notices r, ?_, Or.inl rfl⟩
    intro n inside
    rw [notices, failed] at inside
    obtain rfl := List.mem_singleton.1 inside
    have missing := expected_mem_of_lacks lacks
    exact ⟨rfl, missing, lacks.passed.1, precedes_nth m r.rest⟩

/-- **The blocks from here on lack names, and the last one may lack its end.** -/
theorem exists_noticesFrom_eq (r : Reader) :
    ∃ names, (∀ n ∈ names, n.OfName r.rest) ∧
      (noticesFrom r = names ∨ ∃ n, noticesFrom r = names ++ [n] ∧ n.OfEnd) := by
  -- The induction takes one block after the other; behind a block without an end nothing is left.
  induction r using run_induction with
  | ended r none =>
    rw [noticesFrom_of_firstStart?_eq_none none]
    exact ⟨[], by simp, Or.inl rfl⟩
  | started r p first ih =>
    obtain ⟨lastLine, unheld, -⟩ := Reader.firstStart?_spec first
    have inner : p.rest <:+ r.rest := (further_of_firstStart?_eq_some first).2
    have outer := (read_rest_suffix p).trans inner
    obtain ⟨here, ofNames, ends⟩ := exists_notices_eq unheld
    obtain ⟨later, ofNames', ends'⟩ := ih
    rw [noticesFrom_of_firstStart?_eq_some first]
    rcases ends with same | ⟨n, same, ofEnd⟩
    · refine ⟨here ++ later, ?_, ?_⟩
      · intro n inside
        rcases List.mem_append.1 inside with isHere | isLater
        · exact (ofNames n isHere).of_suffix inner
        · exact (ofNames' n isLater).of_suffix outer
      · rw [same]
        rcases ends' with same' | ⟨n, same', ofEnd⟩
        · exact Or.inl (by rw [same'])
        · exact Or.inr ⟨n, by rw [same', List.append_assoc], ofEnd⟩
    · have inside : n ∈ notices p := by simp [same]
      have nothing : (read p).2.rest = [] := by
        have behind := (reached_place (alongSteps_further true) inside).2.2
        rwa [ofEnd.nothing, List.suffix_nil] at behind
      have last : (read p).2.firstStart? = none := by
        rw [Reader.firstStart?, nothing]
        rfl
      refine ⟨here, fun n inside => (ofNames n inside).of_suffix inner, Or.inr ⟨n, ?_, ofEnd⟩⟩
      rw [same, noticesFrom_of_firstStart?_eq_none last, List.append_nil]

theorem ofName_or_ofEnd_of_mem (inside : n ∈ noticesFrom r) : n.OfName r.rest ∨ n.OfEnd := by
  obtain ⟨names, ofNames, ends⟩ := exists_noticesFrom_eq r
  rcases ends with same | ⟨m, same, ofEnd⟩
  · rw [same] at inside
    exact Or.inl (ofNames n inside)
  · rw [same, List.mem_append, List.mem_singleton] at inside
    rcases inside with isName | rfl
    · exact Or.inl (ofNames n isName)
    · exact Or.inr ofEnd

/-- Only the last thing that is missing may be an end. -/
theorem ofName_of_mem_dropLast (inside : n ∈ (noticesFrom r).dropLast) : n.OfName r.rest := by
  obtain ⟨names, ofNames, ends⟩ := exists_noticesFrom_eq r
  rcases ends with same | ⟨m, same, ofEnd⟩
  · rw [same] at inside
    exact ofNames n (List.dropLast_subset _ inside)
  · rw [same, List.dropLast_concat] at inside
    exact ofNames n inside

/-- Where the reader behind the labels does not hold the end of the block, no later one is found. -/
theorem skipToEnd_of_done {fault : Diagnostic} {s : Reader} (done : r.Done)
    (missing : readEnd r = .error fault s) : (skipToEnd s).1 = false := by
  cases done with
  | closing held =>
    rw [readEnd, take_bind, next_of_held held] at missing
    cases missing
  | ended held nothing =>
    have finished := finish_of_ended held nothing
    rw [finish, missing] at finished
    exact congrArg (fun x => x.2.1) finished

end Block

namespace Document

open Block

/-- **A walk notices that names are missing, and at last that an end is.** No colon is missed; a
name is missed in front of a symbol or at the end of the source; an end is missed at the end of the
source only, and it is the last thing that is missed. For behind the labels of a block the reader
holds the end of the block or that of the source, and where it does not hold the end of the block no
later one is found. -/
theorem walk_lacks_names_and_last_end (d : Document) (source : Text) :
    (d.walk source).faults = sourceFaults source ∧
      (∀ f ∈ (d.walk source).faults, f.expected ≠ .colon ∧
        (f.expected = .endSymbol → f.found = .endOfSource ∧ f.foundText = "end of file".toList) ∧
        (f.expected ≠ .endSymbol →
          f.expected ∈ [.projectName, .className, .memberName, .linkName] ∧
          (f.found = .endOfSource ∧ f.foundText = "end of file".toList ∨
            ∃ sign t u, t <:+ source ∧ scan t = (.symbol sign, u) ∧ f.found = .symbol sign ∧
              f.foundText = sign))) ∧
      (∀ f ∈ (d.walk source).faults.dropLast, f.expected ≠ .endSymbol) ∧
      ∀ v ∈ (d.walk source).visits, ∀ header link s,
        readHeader v.start = .ok (header, link) s →
        ∃ t, (labelledAll s.freeText.2).2 = .ok () t ∧
          (t.held = some .closing ∨ t.held = some .endOfSource ∧ t.rest = []) ∧
          ∀ fault u, readEnd t = .error fault u → (skipToEnd u).1 = false := by
  rw [walk_faults, ← map_fault_noticesFrom]
  refine ⟨rfl, ?_, ?_, ?_⟩
  · intro f inside
    obtain ⟨n, noticed, rfl⟩ := List.mem_map.1 inside
    rcases ofName_or_ofEnd_of_mem noticed with ofName | ofEnd
    · obtain ⟨noColon, noEnd⟩ := ofName.expected_ne
      refine ⟨noColon, fun isEnd => absurd isEnd noEnd, fun _ => ⟨ofName.expected, ?_⟩⟩
      rcases ofName.found_cases with found | ⟨sign, ⟨t, suffix, scanned⟩, found⟩
      · exact Or.inl ⟨found, by rw [Diagnostic.foundText, found]⟩
      · refine Or.inr ⟨sign, t, _, suffix, scanned, found, ?_⟩
        rw [Diagnostic.foundText, found]
        rfl
    · rw [ofEnd.fault]
      exact ⟨Expected.noConfusion, fun _ => ⟨rfl, rfl⟩, fun noEnd => absurd rfl noEnd⟩
  · intro f inside
    rw [← List.map_dropLast] at inside
    obtain ⟨n, noticed, rfl⟩ := List.mem_map.1 inside
    exact (ofName_of_mem_dropLast noticed).expected_ne.2
  · intro v visited header link s succeeded
    rw [walk_visits] at visited
    obtain ⟨start, started, rfl⟩ := List.mem_map.1 visited
    have unheld := held_of_mem_starts started
    obtain ⟨t, labelled, done⟩ := exists_done_of_stopped (stopped_of_readHeader unheld succeeded)
    refine ⟨t, labelled, ?_, fun fault u missing => skipToEnd_of_done done missing⟩
    cases done with
    | closing held => exact Or.inl held
    | ended held nothing => exact Or.inr ⟨held, nothing⟩

end Document

end Docblock
