import Docblock.Proofs.ClosedTags

/-!
# Paragraphs line by line

Prose is divided into paragraphs character by character, but what the paragraphs are can be told by
lines. The trimmed text is split into lines, each with the line break that ends it. The blank ones
divide the others into groups, and each group is a paragraph: its lines with their own line breaks
between them. All its characters stay, but for the spaces and tabs that lead the group; those in
front of the first group have been trimmed off.

A gap takes a line break, all blank lines behind it and what leads the next line. So reading goes on
in one of two ways: within a line, whatever is left of it, or in a gap, where what leads a line does
not matter. Both are told together, since reading goes from one to the other and back.

## Main definitions

* `Line`, `splitLines`: the lines of a text, each with its line break
* `lineGroups`: the lines between blank ones, group by group
* `groupText`, `outdent`: a group as a text, without what leads it
* `groupTexts`: the groups of a text as texts
* `ReadByLines`: the paragraphs that are read within a line, and in a gap

## Main results

* `break_cases`: a line break starts here, or a character that belongs to a line
* `startsWithBlankLine_eq`: a blank line is told by its characters
* `readByLines`: a text that ends in a visible character is read line by line
* `prose_eq_groupTexts`: prose is the groups of its lines
-/

namespace Docblock.Markup

/-! ## Lines and groups -/

/-- A line with the line break that ends it; the last line has none. -/
structure Line where
  words : Text
  ending : Text

/-- A line with one character more in front. -/
def Line.cons (c : Char) (l : Line) : Line := { l with words := c :: l.words }

/-- The lines of a text. A line break is a line feed, alone or behind a carriage return. -/
def splitLines : Text → List Line
  | [] => [⟨[], []⟩]
  | '\n' :: t => ⟨[], ['\n']⟩ :: splitLines t
  | '\r' :: '\n' :: t => ⟨[], ['\r', '\n']⟩ :: splitLines t
  | c :: t => (splitLines t).modifyHead (Line.cons c)

/-- Spaces and tabs. -/
def isSpacing (c : Char) : Bool := c == ' ' || c == '\t'

/-- Whether a line is made of spaces and tabs only. -/
def Line.isBlank (l : Line) : Bool := l.words.all isSpacing

/-- The groups among some runs of lines: those in which there are lines. -/
def filled (runs : List (List Line)) : List (List Line) := runs.filter (!·.isEmpty)

/-- The lines between blank ones, group by group. -/
def lineGroups (lines : List Line) : List (List Line) := filled (lines.splitOnP Line.isBlank)

/-- A group as a text: its lines with their own line breaks between them. -/
def groupText : List Line → Text
  | [] => []
  | [l] => l.words
  | l :: m :: lines => l.words ++ l.ending ++ groupText (m :: lines)

/-- A group without the spaces and tabs that lead its first line. -/
def outdent (lines : List Line) : List Line :=
  lines.modifyHead fun l => { l with words := l.words.dropWhile isSpacing }

/-- The groups of a text as texts. All but the first lose what leads them. -/
def groupTexts (t : Text) : List Text :=
  match lineGroups (splitLines t) with
  | [] => []
  | first :: others => groupText first :: others.map fun g => groupText (outdent g)

variable {c : Char} {t u : Text} {l : Line} {lines : List Line}

theorem isSpacing_iff : isSpacing c = true ↔ c = ' ' ∨ c = '\t' := by
  simp [isSpacing]

/-! ## One character more -/

theorem splitLines_ne_nil (t : Text) : splitLines t ≠ [] := by
  induction t with
  | nil => exact List.cons_ne_nil _ _
  | cons c t ih =>
    unfold splitLines
    split
    · exact List.cons_ne_nil _ _
    · exact List.cons_ne_nil _ _
    · exact List.cons_ne_nil _ _
    · rename_i same
      obtain ⟨rfl, rfl⟩ := List.cons.inj same
      exact mt List.modifyHead_eq_nil_iff.1 ih

theorem exists_splitLines_eq (t : Text) : ∃ l lines, splitLines t = l :: lines :=
  List.exists_cons_of_ne_nil (splitLines_ne_nil t)

/-- A character that belongs to a line: it is no line feed, and no carriage return in front of
one. -/
def InLine (c : Char) (t : Text) : Prop := c ≠ '\n' ∧ (c = '\r' → t.head? ≠ some '\n')

/-- **A line break starts here, or a character that belongs to a line.** -/
theorem break_cases (c : Char) (t : Text) :
    c = '\n' ∨ (c = '\r' ∧ ∃ u, t = '\n' :: u) ∨ InLine c t := by
  by_cases feed : c = '\n'
  · exact Or.inl feed
  · by_cases pair : c = '\r' ∧ ∃ u, t = '\n' :: u
    · exact Or.inr (Or.inl pair)
    · refine Or.inr (Or.inr ⟨feed, fun isReturn follows => pair ⟨isReturn, ?_⟩⟩)
      exact List.head?_eq_some_iff.1 follows

namespace InLine

theorem splitLines_cons (inLine : InLine c t) (split : splitLines t = l :: lines) :
    splitLines (c :: t) = l.cons c :: lines := by
  rw [splitLines, split, List.modifyHead_cons]
  · rintro rfl
    exact inLine.1 rfl
  · rintro u rfl rfl
    exact inLine.2 rfl rfl

/-- A character of a line, unless it is a space or a tab, is none that a gap goes on with. -/
theorem leavesGap (inLine : InLine c t) (other : isSpacing c = false) :
    (∀ u, c :: t ≠ ' ' :: u) ∧ (∀ u, c :: t ≠ '\t' :: u) ∧ (∀ u, c :: t ≠ '\n' :: u) ∧
      ∀ u, c :: t ≠ '\r' :: '\n' :: u := by
  obtain ⟨space, tab⟩ := not_or.1 (mt isSpacing_iff.2 (Bool.eq_false_iff.1 other))
  refine ⟨fun _ same => space (List.cons.inj same).1, fun _ same => tab (List.cons.inj same).1,
    fun _ same => inLine.1 (List.cons.inj same).1, ?_⟩
  intro u same
  obtain ⟨rfl, rfl⟩ := List.cons.inj same
  exact inLine.2 rfl rfl

theorem startsWithBlankLine_cons (inLine : InLine c t) :
    startsWithBlankLine (c :: t) = (isSpacing c && startsWithBlankLine t) := by
  cases spacing : isSpacing c with
  | true => rcases isSpacing_iff.1 spacing with rfl | rfl <;> rfl
  | false =>
    obtain ⟨space, tab, feed, pair⟩ := inLine.leavesGap spacing
    rw [Bool.false_and, startsWithBlankLine]
    · exact space
    · exact tab
    · exact feed
    · exact pair

theorem startsWithGap_eq (inLine : InLine c t) : startsWithGap (c :: t) = false := by
  rw [Bool.eq_false_iff]
  intro starts
  rcases startsWithGap_cons starts with rfl | ⟨rfl, follows⟩
  · exact inLine.1 rfl
  · exact inLine.2 rfl follows

theorem continuesGap_eq (inLine : InLine c t) : continuesGap (c :: t) = isSpacing c := by
  cases spacing : isSpacing c with
  | true => rcases isSpacing_iff.1 spacing with rfl | rfl <;> rfl
  | false =>
    obtain ⟨space, tab, feed, pair⟩ := inLine.leavesGap spacing
    rw [continuesGap]
    · exact space
    · exact tab
    · exact feed
    · exact pair

end InLine

/-! ## Texts that end in a visible character -/

/-- The last character of a text, if it has one, is no white space. -/
def EndsVisibly (t : Text) : Prop := ∀ c ∈ t.getLast?, Text.isWhite c = false

theorem EndsVisibly.tail (visible : EndsVisibly (c :: t)) : EndsVisibly t := by
  intro d last
  refine visible d ?_
  rw [List.getLast?_cons, Option.mem_def.1 last]
  rfl

/-- White space is followed by something. -/
theorem EndsVisibly.ne_nil (visible : EndsVisibly (c :: t)) (white : Text.isWhite c = true) :
    t ≠ [] := by
  rintro rfl
  exact absurd white (by simp [visible c rfl])

theorem isWhite_of_isSpacing (spacing : isSpacing c = true) : Text.isWhite c = true := by
  rcases isSpacing_iff.1 spacing with rfl | rfl <;> decide

/-- **A line is blank exactly if it is read as a blank line**, unless the text ends there. -/
theorem startsWithBlankLine_eq (visible : EndsVisibly t) (nonempty : t ≠ [])
    (split : splitLines t = l :: lines) : startsWithBlankLine t = l.isBlank := by
  -- Spaces and tabs at the end are not read as a blank line, but here something follows them.
  induction t generalizing l lines with
  | nil => exact absurd rfl nonempty
  | cons c t ih =>
    rcases break_cases c t with rfl | ⟨rfl, u, rfl⟩ | inLine
    · obtain ⟨rfl, -⟩ := List.cons.inj split
      rfl
    · obtain ⟨rfl, -⟩ := List.cons.inj split
      rfl
    · obtain ⟨l', lines', others⟩ := exists_splitLines_eq t
      rw [inLine.splitLines_cons others] at split
      obtain ⟨rfl, rfl⟩ := List.cons.inj split
      rw [inLine.startsWithBlankLine_cons]
      cases spacing : isSpacing c with
      | false => simp [Line.isBlank, Line.cons, spacing]
      | true =>
        have more := visible.ne_nil (isWhite_of_isSpacing spacing)
        rw [ih visible.tail more others]
        simp [Line.isBlank, Line.cons, spacing]

/-! ## Runs of lines -/

/-- The texts of groups that stand behind a gap. -/
def laterTexts (runs : List (List Line)) : List Text :=
  (filled runs).map fun g => groupText (outdent g)

/-- The texts of the groups where reading is within a line, whatever is left of it. -/
def openTexts (l : Line) (lines : List Line) : List Text :=
  match lines.splitOnP Line.isBlank with
  | [] => []
  | run :: runs => groupText (l :: run) :: laterTexts runs

theorem exists_runs (lines : List Line) :
    ∃ run runs, lines.splitOnP Line.isBlank = run :: runs :=
  List.exists_cons_of_ne_nil (List.splitOnP_ne_nil Line.isBlank lines)

theorem openTexts_eq {run : List Line} {runs : List (List Line)}
    (split : lines.splitOnP Line.isBlank = run :: runs) :
    openTexts l lines = groupText (l :: run) :: laterTexts runs := by
  rw [openTexts, split]

theorem splitOnP_of_blank (blank : l.isBlank = true) (lines : List Line) :
    (l :: lines).splitOnP Line.isBlank = [] :: lines.splitOnP Line.isBlank := by
  rw [List.splitOnP_cons_eq_if_modifyHead, if_pos blank]

/-- A line without words belongs to no group. -/
theorem laterTexts_of_noWords (ending : Text) (lines : List Line) :
    laterTexts ((⟨[], ending⟩ :: lines).splitOnP Line.isBlank) =
      laterTexts (lines.splitOnP Line.isBlank) := by
  rw [splitOnP_of_blank rfl]
  rfl

/-- A line that is not blank is the first of its group. -/
theorem splitOnP_of_visible {run : List Line} {runs : List (List Line)}
    (visible : l.isBlank = false) (split : lines.splitOnP Line.isBlank = run :: runs) :
    (l :: lines).splitOnP Line.isBlank = (l :: run) :: runs := by
  rw [List.splitOnP_cons_eq_if_modifyHead, visible, split]
  rfl

/-- A character belongs to the text of its line. -/
theorem openTexts_cons (c : Char) (l : Line) (lines : List Line) :
    openTexts (l.cons c) lines = consFirst c (openTexts l lines) := by
  obtain ⟨run, runs, split⟩ := exists_runs lines
  rw [openTexts_eq split, openTexts_eq split]
  cases run <;> rfl

theorem foldr_consFirst (front p : Text) (others : List Text) :
    front.foldr consFirst (p :: others) = (front ++ p) :: others := by
  induction front with
  | nil => rfl
  | cons c front ih =>
    rw [List.foldr_cons, ih]
    rfl

/-- Where a group goes on, the line break stands between its lines. -/
theorem openTexts_of_visible (visible : l.isBlank = false) (ending : Text) :
    openTexts ⟨[], ending⟩ (l :: lines) = ending.foldr consFirst (openTexts l lines) := by
  obtain ⟨run, runs, split⟩ := exists_runs lines
  rw [openTexts_eq (splitOnP_of_visible visible split), openTexts_eq split, foldr_consFirst]
  rfl

/-- In front of a blank line a group ends, and its last line break is left out. -/
theorem openTexts_of_blank (blank : l.isBlank = true) (ending : Text) :
    openTexts ⟨[], ending⟩ (l :: lines) =
      [] :: laterTexts ((l :: lines).splitOnP Line.isBlank) := by
  rw [splitOnP_of_blank blank, openTexts_eq (splitOnP_of_blank blank lines)]
  rfl

/-- What leads a line behind a gap does not matter. -/
theorem laterTexts_of_isSpacing (spacing : isSpacing c = true) (l : Line) (lines : List Line) :
    laterTexts ((l.cons c :: lines).splitOnP Line.isBlank) =
      laterTexts ((l :: lines).splitOnP Line.isBlank) := by
  have same : (l.cons c).isBlank = l.isBlank := by simp [Line.isBlank, Line.cons, spacing]
  cases blank : l.isBlank with
  | true => rw [splitOnP_of_blank (same.trans blank), splitOnP_of_blank blank]
  | false =>
    obtain ⟨run, runs, split⟩ := exists_runs lines
    have led : outdent (l.cons c :: run) = outdent (l :: run) := by
      simp [outdent, Line.cons, spacing]
    rw [splitOnP_of_visible (same.trans blank) split, splitOnP_of_visible blank split, laterTexts,
      laterTexts, filled, filled, List.filter_cons_of_pos rfl, List.filter_cons_of_pos rfl,
      List.map_cons, List.map_cons, led]

/-- Any other character leads the first line of a group. -/
theorem laterTexts_of_not_isSpacing (other : isSpacing c = false) (l : Line) (lines : List Line) :
    laterTexts ((l.cons c :: lines).splitOnP Line.isBlank) = openTexts (l.cons c) lines := by
  have visible : (l.cons c).isBlank = false := by simp [Line.isBlank, Line.cons, other]
  obtain ⟨run, runs, split⟩ := exists_runs lines
  have led : outdent (l.cons c :: run) = l.cons c :: run := by simp [outdent, Line.cons, other]
  rw [splitOnP_of_visible visible split, openTexts_eq split, laterTexts, filled,
    List.filter_cons_of_pos rfl, List.map_cons, led]
  rfl

/-! ## Reading within a line and in a gap -/

theorem paragraphsFrom_of_gap (starts : startsWithGap (c :: t) = true) :
    paragraphsFrom false (c :: t) = [] :: paragraphsFrom true t := by
  rw [paragraphsFrom, if_neg Bool.false_ne_true, if_pos starts]

theorem paragraphsFrom_of_noGap (within : startsWithGap (c :: t) = false) :
    paragraphsFrom false (c :: t) = consFirst c (paragraphsFrom false t) := by
  rw [paragraphsFrom, if_neg Bool.false_ne_true, within, if_neg Bool.false_ne_true]

theorem paragraphsFrom_of_continues (continues : continuesGap (c :: t) = true) :
    paragraphsFrom true (c :: t) = paragraphsFrom true t := by
  rw [paragraphsFrom, if_pos rfl, if_pos continues]

theorem paragraphsFrom_of_leaves (leaves : continuesGap (c :: t) = false) :
    paragraphsFrom true (c :: t) = consFirst c (paragraphsFrom false t) := by
  rw [paragraphsFrom, if_pos rfl, leaves, if_neg Bool.false_ne_true]

/-- A line break that starts here, with `ending` left of it, ends a group in front of a blank line
and stands in the group otherwise. -/
theorem paragraphsFrom_of_break {ending : Text} (starts : startsWithGap (c :: t) = l.isBlank)
    (inGap : paragraphsFrom true t = laterTexts ((l :: lines).splitOnP Line.isBlank))
    (goesOn : l.isBlank = false →
      paragraphsFrom false t = ending.foldr consFirst (openTexts l lines)) :
    paragraphsFrom false (c :: t) = openTexts ⟨[], c :: ending⟩ (l :: lines) := by
  cases blank : l.isBlank with
  | true => rw [paragraphsFrom_of_gap (starts.trans blank), inGap, openTexts_of_blank blank]
  | false =>
    rw [paragraphsFrom_of_noGap (starts.trans blank), goesOn blank, openTexts_of_visible blank,
      List.foldr_cons]

/-- **The paragraphs that are read from a place**: within a line they are what is left of the line
with its group, and the groups behind it; in a gap they are the groups that follow. -/
structure ReadByLines (t : Text) : Prop where
  within : ∀ l lines, splitLines t = l :: lines → paragraphsFrom false t = openTexts l lines
  inGap : t ≠ [] → paragraphsFrom true t = laterTexts ((splitLines t).splitOnP Line.isBlank)

namespace ReadByLines

theorem nil : ReadByLines [] where
  within := by
    rintro l lines split
    obtain ⟨rfl, rfl⟩ := List.cons.inj split
    rfl
  inGap := fun nonempty => absurd rfl nonempty

theorem lineFeed (read : ReadByLines t) (visible : EndsVisibly ('\n' :: t)) :
    ReadByLines ('\n' :: t) := by
  have nonempty : t ≠ [] := visible.ne_nil (by decide)
  obtain ⟨l, lines, others⟩ := exists_splitLines_eq t
  have starts : startsWithGap ('\n' :: t) = l.isBlank :=
    startsWithBlankLine_eq visible.tail nonempty others
  have behind := others ▸ read.inGap nonempty
  constructor
  · rw [splitLines, others]
    rintro _ _ ⟨⟩
    exact paragraphsFrom_of_break starts behind fun _ => read.within l lines others
  · intro _
    rw [splitLines, others, paragraphsFrom_of_continues rfl, behind, laterTexts_of_noWords]

/-- What is left of a line break behind its carriage return is read like a line feed, of a line that
has no words left. -/
theorem carriageReturn (read : ReadByLines ('\n' :: u))
    (visible : EndsVisibly ('\r' :: '\n' :: u)) : ReadByLines ('\r' :: '\n' :: u) := by
  have nonempty : u ≠ [] := visible.tail.ne_nil (by decide)
  obtain ⟨l, lines, others⟩ := exists_splitLines_eq u
  have starts : startsWithGap ('\r' :: '\n' :: u) = l.isBlank :=
    startsWithBlankLine_eq visible.tail.tail nonempty others
  have feed : splitLines ('\n' :: u) = ⟨[], ['\n']⟩ :: l :: lines := by rw [splitLines, others]
  have behind : paragraphsFrom true ('\n' :: u) =
      laterTexts ((l :: lines).splitOnP Line.isBlank) := by
    rw [read.inGap (List.cons_ne_nil _ _), feed, laterTexts_of_noWords]
  constructor
  · rw [splitLines, others]
    rintro _ _ ⟨⟩
    refine paragraphsFrom_of_break starts behind fun notBlank => ?_
    rw [read.within _ _ feed, openTexts_of_visible notBlank]
  · intro _
    rw [splitLines, others, paragraphsFrom_of_continues rfl, behind, laterTexts_of_noWords]

theorem cons (read : ReadByLines t) (inLine : InLine c t) (visible : EndsVisibly (c :: t)) :
    ReadByLines (c :: t) := by
  obtain ⟨l, lines, others⟩ := exists_splitLines_eq t
  have goesOn := read.within l lines others
  constructor
  · rw [inLine.splitLines_cons others]
    rintro _ _ ⟨⟩
    rw [paragraphsFrom_of_noGap inLine.startsWithGap_eq, goesOn, openTexts_cons]
  · intro _
    rw [inLine.splitLines_cons others]
    cases spacing : isSpacing c with
    | true =>
      have nonempty := visible.ne_nil (isWhite_of_isSpacing spacing)
      rw [paragraphsFrom_of_continues (inLine.continuesGap_eq.trans spacing),
        read.inGap nonempty, others, laterTexts_of_isSpacing spacing]
    | false =>
      rw [paragraphsFrom_of_leaves (inLine.continuesGap_eq.trans spacing), goesOn,
        laterTexts_of_not_isSpacing spacing, openTexts_cons]

end ReadByLines

/-- **A text that ends in a visible character is read line by line.** -/
theorem readByLines (visible : EndsVisibly t) : ReadByLines t := by
  -- Within a line and in a gap at once: reading goes from one to the other and back.
  induction t with
  | nil => exact .nil
  | cons c t ih =>
    have read := ih visible.tail
    rcases break_cases c t with rfl | ⟨rfl, u, rfl⟩ | inLine
    · exact read.lineFeed visible
    · exact read.carriageReturn visible
    · exact read.cons inLine visible

/-! ## Prose -/

theorem endsVisibly_trim (t : Text) : EndsVisibly t.trim := by
  intro c last
  have first : (t.trimLeft.reverse.dropWhile Text.isWhite).head? = some c := by
    rw [← List.getLast?_reverse]
    exact last
  simpa [first] using List.head?_dropWhile_not Text.isWhite t.trimLeft.reverse

/-- What has been trimmed starts with a line that is not blank. -/
theorem startsWithBlankLine_of_trimmed (trimmed : t.trimLeft = t) :
    startsWithBlankLine t = false := by
  rw [Bool.eq_false_iff]
  intro blank
  have white : ∃ c u, t = c :: u ∧ Text.isWhite c = true := by
    unfold startsWithBlankLine at blank
    split at blank
    · exact ⟨_, _, rfl, by decide⟩
    · exact ⟨_, _, rfl, by decide⟩
    · exact ⟨_, _, rfl, by decide⟩
    · exact ⟨_, _, rfl, by decide⟩
    · exact nomatch blank
  obtain ⟨c, u, rfl, white⟩ := white
  have visible := List.head?_dropWhile_not Text.isWhite (c :: u)
  have same : (c :: u).dropWhile Text.isWhite = c :: u := trimmed
  rw [same, List.head?_cons] at visible
  exact absurd white (Bool.eq_false_iff.1 visible)

/-- A text whose first line is not blank starts within its first group. -/
theorem groupTexts_of_visible (visible : l.isBlank = false) (split : splitLines t = l :: lines) :
    groupTexts t = openTexts l lines := by
  obtain ⟨run, runs, parted⟩ := exists_runs lines
  have groups : lineGroups (splitLines t) = (l :: run) :: filled runs := by
    rw [split, lineGroups, splitOnP_of_visible visible parted]
    rfl
  rw [groupTexts, groups, openTexts_eq parted]
  rfl

/-- **Prose is the groups of its lines.** The text is trimmed, its lines between blank ones are
written as they are with their own line breaks, but for the spaces and tabs that lead a group, and a
paragraph mark stands between each group and the next one. -/
theorem prose_eq_groupTexts (t : Text) :
    prose t = List.intercalate "\n<p>\n".toList (groupTexts t.trim) := by
  rw [prose]
  rcases List.eq_nil_or_concat' t.trim with empty | ⟨u, c, concat⟩
  · rw [empty]
    rfl
  · have nonempty : t.trim ≠ [] := concat ▸ List.concat_ne_nil c u
    have visible := endsVisibly_trim t
    obtain ⟨l, lines, split⟩ := exists_splitLines_eq t.trim
    have notBlank : l.isBlank = false := by
      rw [← startsWithBlankLine_eq visible nonempty split]
      exact startsWithBlankLine_of_trimmed (Text.trimLeft_trim t)
    rw [paragraphs, (readByLines visible).within l lines split,
      groupTexts_of_visible notBlank split]

/-- A blank line may hold spaces and tabs, and the line breaks need not be alike. -/
example : groupTexts "one\n two\r\n \t\r\n  three\nfour".toList =
    ["one\n two".toList, "three\nfour".toList] := by decide

end Docblock.Markup
