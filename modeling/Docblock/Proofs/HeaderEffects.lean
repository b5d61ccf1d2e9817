import Docblock.Proofs.Operations

/-!
# Headers that are entered while they are read

A header may be entered into a document while it is read: its item is mentioned as soon as the name
is known, when the link is still to be read. This comes to the same as reading the whole header
first and recording it then. So where a header fails nothing has been entered, and where it is read
only its item is touched, with the class that a member brings along. A link that is missing is no
failure of the header.

## Main definitions

* `Desk`, `Filing`: a reader with a document at hand, and a computation on it
* `Filing.enterHeader`: reads a header and enters it piece by piece
* `Desk.start`: the start of a block, with the diagnostic of a header that fails
* `Reader.linkHere?`: the identifier behind a hash sign
* `Desk.Entered`: what a header that is read does to a desk

## Main results

* `Filing.Mirrors.bind`: a filing that reads and enters follows a reading
* `Desk.start_eq`: entering a header piece by piece, and reading it before it is recorded
* `Desk.start_untouched_or_entered`: a header that fails leaves the document as it was, and one that
  is read touches its item alone
-/

namespace Docblock

/-- A reader, the document that blocks are entered into, and the diagnostics so far. -/
structure Desk where
  reader : Reader
  document : Document
  faults : List Diagnostic

/-- A computation on a desk that may stop with a diagnostic. -/
abbrev Filing := EStateM Diagnostic Desk

/-- The diagnostics of what a header says about the link. -/
def LinkMark.faults : LinkMark → List Diagnostic
  | faulty fault => [fault]
  | given _ => []
  | absent => []

/-- The identifier behind a hash sign, if both stand here. -/
def Reader.linkHere? (r : Reader) : Option Text :=
  if r.next.1 = .hash then
    match r.next.2.next.1 with
    | .identifier link => some link
    | .symbol _ => none
    | .endOfSource => none
  else none

namespace Filing

variable {α β γ : Type}

/-- Takes what a reading takes, and leaves the document alone. -/
def read (p : Reading α) : Filing α := fun s =>
  match p s.reader with
  | .ok a r => .ok a { s with reader := r }
  | .error fault r => .error fault { s with reader := r }

/-- Changes the document. -/
def write (f : Document → Document) : Filing Unit := fun s =>
  .ok () { s with document := f s.document }

/-- Adds a diagnostic, and goes on. -/
def report (fault : Diagnostic) : Filing Unit := fun s =>
  .ok () { s with faults := s.faults ++ [fault] }

/-- Reads the name of an item, and enters the item when the name is known. -/
def enterSubject : Filing Subject := do
  match ← read HeaderKind.read with
  | .project =>
    let name ← read (Reading.identifier .projectName)
    write (·.nameProject name)
    return .project
  | .classNamed =>
    let name ← read (Reading.identifier .className)
    write (·.mention (.classNamed name))
    return .classNamed name
  | .member .function =>
    let (owner, name) ← read Header.readMember
    read (Reading.takeIf .parentheses)
    write (·.mention (.member .function owner name))
    return .member .function owner name
  | .member .data =>
    let (owner, name) ← read Header.readMember
    write (·.mention (.member .data owner name))
    return .member .data owner name

/-- Reads what a header says about the link, and enters the link. One that is missing is reported,
and the item has its own name for a link then. -/
def enterLink (s : Subject) : Filing Unit := do
  if (← read Reading.look) = .hash then
    read (discard Reading.take)
    match ← read Reading.look with
    | .identifier link =>
      read (discard Reading.take)
      write (·.setLink s link)
    | found =>
      report (← read (Reading.lack .linkName found))
      write (·.resetLink s)
  else write (·.resetLink s)

/-- Reads a header and enters it. -/
def enterHeader : Filing Subject := do
  let s ← enterSubject
  enterLink s
  return s

/-! ## Filings that follow a reading -/

/-- A filing does what a reading does. Where that succeeds the filing gives a value of its own and
has an effect on the desk, and where that stops it has none. -/
def Mirrors (m : Filing β) (p : Reading α) (value : α → β) (effect : α → Desk → Desk) : Prop :=
  ∀ s, m s = match p s.reader with
    | .ok a r => .ok (value a) (effect a { s with reader := r })
    | .error fault r => .error fault { s with reader := r }

variable {value : α → β} {effect : α → Desk → Desk}

/-- **What is read first** belongs to both. -/
theorem Mirrors.bind {p : Reading γ} {q : γ → Reading α} {m : γ → Filing β}
    (further : ∀ c, Mirrors (m c) (q c) value effect) :
    Mirrors (read p >>= m) (p >>= q) value effect := by
  intro s
  simp only [Bind.bind, EStateM.bind, read]
  cases p s.reader with
  | ok c r => exact further c { s with reader := r }
  | error fault r => rfl

/-- What is entered last is the effect of what has been read. -/
theorem mirrors_pure {m : Filing β} {a : α}
    (entered : ∀ s, m s = .ok (value a) (effect a s)) : Mirrors m (pure a) value effect := by
  intro s
  rw [entered]
  rfl

/-- **Entering the item of a header follows the reading of it.** -/
theorem mirrors_enterSubject : Mirrors enterSubject Header.read Header.subject
    fun header s => { s with document := s.document.meet header } := by
  apply Mirrors.bind
  rintro (- | - | (- | -))
  · apply Mirrors.bind
    intro name
    exact mirrors_pure fun s => rfl
  · apply Mirrors.bind
    intro name
    exact mirrors_pure fun s => rfl
  · apply Mirrors.bind
    rintro ⟨owner, name⟩
    apply Mirrors.bind
    intro _
    exact mirrors_pure fun s => rfl
  · apply Mirrors.bind
    rintro ⟨owner, name⟩
    exact mirrors_pure fun s => rfl

/-- **Entering the link follows the reading of it.** -/
theorem mirrors_enterLink (subject : Subject) :
    Mirrors (enterLink subject) LinkMark.read (fun _ => ()) fun link s =>
      { s with
        document := s.document.recordLink subject link
        faults := s.faults ++ link.faults } := by
  -- Where nothing is reported the diagnostics stay as they are.
  have unreported (s : Desk) (d : Document) :
      ({ s with document := d } : Desk) = { s with document := d, faults := s.faults ++ [] } := by
    rw [List.append_nil]
  apply Mirrors.bind
  intro first
  split
  · apply Mirrors.bind
    intro _
    apply Mirrors.bind
    rintro (link | sign | -)
    · apply Mirrors.bind
      intro _
      exact mirrors_pure fun s => congrArg (EStateM.Result.ok ()) (unreported s _)
    · apply Mirrors.bind
      intro fault
      exact mirrors_pure fun s => rfl
    · apply Mirrors.bind
      intro fault
      exact mirrors_pure fun s => rfl
  · exact mirrors_pure fun s => congrArg (EStateM.Result.ok ()) (unreported s _)

end Filing

/-! ## The start of a block -/

namespace LinkMark

/-- **Reading the link gives the identifier behind a hash sign**, if there is one. A hash sign
without one is the only fault. -/
theorem exists_read_linkHere (r : Reader) : ∃ link r', LinkMark.read r = .ok link r' ∧
    (∀ name, link.linkOf name = r.linkHere?.getD name) ∧
    (link.faults = [] ∨ ∃ fault, fault.expected = .linkName ∧ link.faults = [fault]) := by
  rw [LinkMark.read, Reading.look_bind]
  by_cases hash : r.peek.1 = .hash
  · -- What is looked at behind the hash sign is what would be taken there.
    have here : r.linkHere? = match r.next.2.peek.1 with
        | .identifier link => some link
        | .symbol _ => none
        | .endOfSource => none := by
      rw [Reader.linkHere?, if_pos (r.next_fst.trans hash), Reader.next_fst]
    rw [if_pos hash, Reading.discard_take_bind, Reading.look_bind, Reader.next_peek, here]
    cases r.next.2.peek.1 with
    | identifier link => exact ⟨.given link, _, rfl, fun name => rfl, Or.inl rfl⟩
    | symbol sign => exact ⟨.faulty _, _, rfl, fun name => rfl, Or.inr ⟨_, rfl, rfl⟩⟩
    | endOfSource => exact ⟨.faulty _, _, rfl, fun name => rfl, Or.inr ⟨_, rfl, rfl⟩⟩
  · have here : r.linkHere? = none := by
      rw [Reader.linkHere?, if_neg (by rwa [r.next_fst])]
    rw [if_neg hash, here]
    exact ⟨.absent, _, rfl, fun name => rfl, Or.inl rfl⟩

end LinkMark

/-- A member is not the class that it brings along. -/
theorem Subject.ne_of_class?_eq {s t : Subject} (isClass : s.class? = some t) : t ≠ s := by
  rintro rfl
  cases t with
  | project => cases isClass
  | classNamed name => cases isClass
  | member kind owner name => cases isClass

namespace Document

variable {header : Header} {t : Subject}

/-- **What a header says is one edit of its item**, and a new name where it is about the project. -/
theorem recordLink_meet_eq_edit (d : Document) (header : Header) (link : LinkMark) :
    (d.meet header).recordLink header.subject link =
      (d.rename header).edit header.subject
        fun n => { n with link := link.linkOf header.name } := by
  rw [meet_eq_edit, recordLink_edit, rename_name]
  rfl

/-- The name of an item that a header is not about stays as it is. -/
theorem rename_name_of_ne (different : t ≠ header.subject) (d : Document) :
    (d.rename header).name t = d.name t := by
  cases header with
  | project name =>
    cases t with
    | project => exact absurd rfl different
    | classNamed name' => rfl
    | member kind owner name' => rfl
  | classNamed name => rfl
  | member kind owner name => rfl

/-- **What a header makes of each item**: its own one has another link, the class of a member is
found, and all others stay as they are. -/
theorem item?_recordLink_meet (d : Document) (header : Header) (link : LinkMark) (t : Subject) :
    ((d.meet header).recordLink header.subject link).item? t =
      if t = header.subject then
        some ⟨t, header.name, link.linkOf header.name,
          ((d.notes? t).map (·.attributes)).getD []⟩
      else if header.subject.class? = some t then
        some ((d.item? t).getD ⟨t, d.name t, .named (d.name t)⟩)
      else d.item? t := by
  rw [recordLink_meet_eq_edit, item?, notes?_edit, edit_name]
  by_cases same : t = header.subject
  · subst same
    rw [if_pos rfl, if_pos rfl, rename_name, known, notes?_rename]
    cases d.notes? header.subject <;> rfl
  · rw [if_neg same, if_neg same, rename_name_of_ne same, known, notes?_rename,
      rename_name_of_ne same, item?]
    split
    · cases d.notes? t <;> rfl
    · rfl

end Document

namespace Desk

/-- The start of a block, with the item of its header. A header that fails is reported. -/
def start (s : Desk) : Option Subject × Desk :=
  match Filing.enterHeader s with
  | .ok subject s' => (some subject, s')
  | .error fault s' => (none, { s' with faults := s'.faults ++ [fault] })

/-- **Entering a header while it is read** comes to the same as reading it and recording it then. -/
theorem start_eq (s : Desk) : s.start = match Block.readHeader s.reader with
    | .ok (header, link) r => (some header.subject,
        ⟨r, (s.document.meet header).recordLink header.subject link, s.faults ++ link.faults⟩)
    | .error fault r => (none, ⟨r, s.document, s.faults ++ [fault]⟩) := by
  have subject := Filing.mirrors_enterSubject s
  simp only [start, Filing.enterHeader, Block.readHeader, Bind.bind, EStateM.bind] at subject ⊢
  rw [subject]
  cases Header.read s.reader with
  | error fault r => rfl
  | ok header r =>
    have link := Filing.mirrors_enterLink header.subject
      { s with reader := r, document := s.document.meet header }
    simp only at link ⊢
    rw [link]
    obtain ⟨mark, r', read, -⟩ := LinkMark.exists_read_linkHere r
    rw [read]
    rfl

/-- **What a header that is read does to a desk**, where the reader `r` is the one behind the name.
The document is the one in which the header is recorded once it has been read. The item is found,
with the identifier behind a hash sign for its link, or else with its own name, and with the
attributes that it has had. The class of a member is found as well. No other item is touched, and
the project has another name only if the header names it. A link that is missing is all that may be
reported. -/
structure Entered (s : Desk) (header : Header) (r : Reader) (s' : Desk) : Prop where
  recorded : ∃ link, Block.readHeader s.reader = .ok (header, link) s'.reader ∧
    s'.document = (s.document.meet header).recordLink header.subject link
  item : s'.document.item? header.subject = some ⟨header.subject, header.name,
    r.linkHere?.getD header.name,
    ((s.document.notes? header.subject).map (·.attributes)).getD []⟩
  owner : ∀ t, header.subject.class? = some t → s'.document.item? t =
    some ((s.document.item? t).getD ⟨t, s.document.name t, .named (s.document.name t)⟩)
  others : ∀ t, t ≠ header.subject → header.subject.class? ≠ some t →
    s'.document.item? t = s.document.item? t
  projectName : s'.document.projectName =
    if header.subject = .project then header.name else s.document.projectName
  faults : s'.faults = s.faults ∨
    ∃ fault, fault.expected = .linkName ∧ s'.faults = s.faults ++ [fault]

/-- A header that is recorded once it has been read touches its item alone. -/
theorem entered_of_readHeader {s : Desk} {header : Header} {r r' : Reader} {link : LinkMark}
    (read : Block.readHeader s.reader = .ok (header, link) r')
    (linkOf : ∀ name, link.linkOf name = r.linkHere?.getD name)
    (faults : link.faults = [] ∨ ∃ fault, fault.expected = .linkName ∧ link.faults = [fault]) :
    Entered s header r ⟨r', (s.document.meet header).recordLink header.subject link,
      s.faults ++ link.faults⟩ where
  recorded := ⟨link, read, rfl⟩
  item := by
    rw [Document.item?_recordLink_meet, if_pos rfl, linkOf]
  owner := by
    intro t isClass
    rw [Document.item?_recordLink_meet, if_neg (Subject.ne_of_class?_eq isClass), if_pos isClass]
  others := by
    intro t different noClass
    rw [Document.item?_recordLink_meet, if_neg different, if_neg noClass]
  projectName := by
    rw [Document.recordLink_meet_eq_edit, Document.edit_projectName]
    cases header with
    | project name => exact (if_pos rfl).symm
    | classNamed name => exact (if_neg Subject.noConfusion).symm
    | member kind owner name => exact (if_neg Subject.noConfusion).symm
  faults := by
    rcases faults with none | ⟨fault, isLink, one⟩
    · left
      rw [none, List.append_nil]
    · exact Or.inr ⟨fault, isLink, by rw [one]⟩

/-- **A header that fails leaves the document as it was**, whatever has been read of it, and its
block adds one diagnostic. A header that is read touches its item alone. -/
theorem start_untouched_or_entered (s : Desk) : match Header.read s.reader with
    | .error fault r =>
      s.start = (none, ⟨r, s.document, s.faults ++ [fault]⟩) ∧
        Block.read s.reader = (.broken fault, r)
    | .ok header r => ∃ s', s.start = (some header.subject, s') ∧ Entered s header r s' := by
  rw [start_eq, Block.read]
  cases named : Header.read s.reader with
  | error fault r =>
    have failed : Block.readHeader s.reader = .error fault r :=
      Reading.bind_eq_error_iff.2 (Or.inl named)
    rw [failed]
    exact ⟨rfl, rfl⟩
  | ok header r =>
    obtain ⟨link, r', linked, linkOf, faults⟩ := LinkMark.exists_read_linkHere r
    have read : Block.readHeader s.reader = .ok (header, link) r' :=
      Reading.bind_eq_ok_iff.2 ⟨header, r, named, Reading.bind_eq_ok_iff.2 ⟨link, r', linked, rfl⟩⟩
    rw [read]
    exact ⟨_, rfl, entered_of_readHeader read linkOf faults⟩

end Desk

end Docblock
