import Docblock.Markup
import Docblock.Proofs.Occurrence
import Mathlib.Data.List.Infix
import Mathlib.Order.Bounds.Basic

/-!
# Tags in a text

A tag starts with `<` and ends with the next `>`. A text that is put together from pieces has the
tags of its pieces and no others, as long as no tag can reach from one piece into the next: in front
of a piece that starts with `<` this holds of any text, and behind a text whose tags are closed it
holds of any piece.

## Main definitions

* `Closes`: a tag that is open in front of a text is closed by it
* `TagClosed`: every tag that starts in a text is closed in it
* `IsTag`: a text that is one tag

## Main results

* `TagClosed.append_iff`, `tagClosed_append_iff_of_head`: the tags of two texts put together
* `notMem_escape`: text that stands literally has no characters of tags
* `tag_isInfix_append_iff`: a tag of two texts is a tag of one of them
* `isLeast_length_iff`: where a sign stands first
-/

namespace Docblock.Markup

variable {s t u : Text} {c : Char}

/-! ## Closed tags -/

/-- A tag that is open in front of a text is closed by it: there is a `>`, and no `<` in front of
it. -/
def Closes (t : Text) : Prop := ∃ inner rest, t = inner ++ '>' :: rest ∧ '<' ∉ inner

/-- **Every `<` is followed by a `>`** before the next `<` and before the end. -/
def TagClosed (t : Text) : Prop := ∀ front behind, t = front ++ '<' :: behind → Closes behind

theorem not_closes_nil : ¬ Closes [] := by
  rintro ⟨inner, rest, whole, -⟩
  simp at whole

theorem closes_cons_iff : Closes (c :: t) ↔ c = '>' ∨ c ≠ '<' ∧ Closes t := by
  constructor
  · rintro ⟨inner, rest, whole, outside⟩
    cases inner with
    | nil => exact Or.inl (List.cons.inj whole).1
    | cons d inner =>
      obtain ⟨rfl, rfl⟩ := List.cons.inj whole
      rw [List.mem_cons, not_or] at outside
      exact Or.inr ⟨Ne.symm outside.1, inner, rest, rfl, outside.2⟩
  · rintro (rfl | ⟨first, inner, rest, rfl, outside⟩)
    · exact ⟨[], t, rfl, List.not_mem_nil⟩
    · refine ⟨c :: inner, rest, rfl, ?_⟩
      rw [List.mem_cons, not_or]
      exact ⟨Ne.symm first, outside⟩

theorem closes_append_iff : Closes (s ++ t) ↔ Closes s ∨ '<' ∉ s ∧ Closes t := by
  induction s with
  | nil => simp [not_closes_nil]
  | cons c s ih =>
    rw [List.cons_append, closes_cons_iff, closes_cons_iff, ih, List.mem_cons, not_or]
    by_cases isEnd : c = '>'
    · simp [isEnd]
    · simp only [isEnd, false_or, ne_comm (a := '<')]
      tauto

/-- A text with a `>` closes a tag unless it starts one before. -/
theorem closes_of_mem (inside : '>' ∈ t) (outside : '<' ∉ t) : Closes t := by
  obtain ⟨inner, rest, rfl⟩ := List.append_of_mem inside
  exact ⟨inner, rest, rfl, fun start => outside (List.mem_append_left _ start)⟩

theorem Closes.mem (closes : Closes t) : '>' ∈ t := by
  obtain ⟨inner, rest, rfl, -⟩ := closes
  exact List.mem_append_right _ List.mem_cons_self

theorem tagClosed_nil : TagClosed [] := by
  intro front behind whole
  simp at whole

theorem tagClosed_cons_iff : TagClosed (c :: t) ↔ (c = '<' → Closes t) ∧ TagClosed t := by
  constructor
  · intro closed
    refine ⟨?_, ?_⟩
    · rintro rfl
      exact closed [] t rfl
    · rintro front behind rfl
      exact closed (c :: front) behind rfl
  · rintro ⟨first, others⟩ front behind whole
    cases front with
    | nil =>
      obtain ⟨rfl, rfl⟩ := List.cons.inj whole
      exact first rfl
    | cons d front => exact others front behind (List.cons.inj whole).2

instance decidableCloses : DecidablePred Closes
  | [] => isFalse not_closes_nil
  | _ :: t =>
    have := decidableCloses t
    decidable_of_iff' _ closes_cons_iff

instance decidableTagClosed : DecidablePred TagClosed
  | [] => isTrue tagClosed_nil
  | _ :: t =>
    have := decidableTagClosed t
    decidable_of_iff' _ tagClosed_cons_iff

/-- Behind closed tags the tags of a text are closed exactly if its own are. -/
theorem TagClosed.append_iff (closed : TagClosed s) : TagClosed (s ++ t) ↔ TagClosed t := by
  induction s with
  | nil => rfl
  | cons c s ih =>
    obtain ⟨first, others⟩ := tagClosed_cons_iff.1 closed
    have stays (start : c = '<') : Closes (s ++ t) := closes_append_iff.2 (Or.inl (first start))
    rw [List.cons_append, tagClosed_cons_iff, ih others]
    exact and_iff_right stays

theorem TagClosed.append (first : TagClosed s) (second : TagClosed t) : TagClosed (s ++ t) :=
  first.append_iff.2 second

/-- **A tag is not closed behind the start of the next one**, so both texts close their own. -/
theorem tagClosed_append_iff_of_head (starts : t.head? = some '<') :
    TagClosed (s ++ t) ↔ TagClosed s ∧ TagClosed t := by
  have noMore : ¬ Closes t := by
    obtain ⟨u, rfl⟩ := List.head?_eq_some_iff.1 starts
    simp [closes_cons_iff]
  induction s with
  | nil => simp [tagClosed_nil]
  | cons c s ih =>
    have first : Closes (s ++ t) ↔ Closes s := by
      rw [closes_append_iff, or_iff_left fun both => noMore both.2]
    rw [List.cons_append, tagClosed_cons_iff, tagClosed_cons_iff, first, and_assoc]
    exact and_congr_right fun _ => ih

theorem tagClosed_of_notMem (outside : '<' ∉ t) : TagClosed t := by
  rintro front behind rfl
  exact absurd (List.mem_append_right _ List.mem_cons_self) outside

/-! ## Text that stands literally -/

/-- Escaped text has no characters of tags. -/
theorem notMem_escape (mark : c = '<' ∨ c = '>' ∨ c = '\"') (t : Text) : c ∉ escape t := by
  intro inside
  obtain ⟨d, -, written⟩ := List.mem_flatMap.1 inside
  have outside : c ∉ entity d := by
    unfold entity
    split
    · rcases mark with rfl | rfl | rfl <;> decide
    · rcases mark with rfl | rfl | rfl <;> decide
    · rcases mark with rfl | rfl | rfl <;> decide
    · rcases mark with rfl | rfl | rfl <;> decide
    · -- Any other character stands for itself, and these three do not.
      rename_i notLess notGreater notQuote
      rw [List.mem_singleton]
      rintro rfl
      rcases mark with rfl | rfl | rfl
      · exact notLess rfl
      · exact notGreater rfl
      · exact notQuote rfl
  exact outside written

/-! ## Tags -/

/-- A text that is one tag. -/
def IsTag (tag : Text) : Prop := ∃ inner, tag = '<' :: (inner ++ ['>']) ∧ '<' ∉ inner ∧ '>' ∉ inner

section Tags

variable {tag : Text}

theorem IsTag.ne_nil (isTag : IsTag tag) : tag ≠ [] := by
  obtain ⟨inner, rfl, -⟩ := isTag
  exact List.cons_ne_nil _ _

theorem IsTag.tagClosed (isTag : IsTag tag) : TagClosed tag := by
  obtain ⟨inner, rfl, noStart, -⟩ := isTag
  refine tagClosed_cons_iff.2 ⟨fun _ => ⟨inner, [], rfl, noStart⟩, tagClosed_of_notMem ?_⟩
  simp [noStart]

/-- A tag with a value between quotation marks. -/
theorem isTag_of_value {start value : Text} (word : Text) (starts : start = '<' :: word)
    (plain : '<' ∉ word ∧ '>' ∉ word) (plainValue : '<' ∉ value ∧ '>' ∉ value) :
    IsTag (start ++ value ++ "\">".toList) := by
  have ending : "\">".toList = ['\"', '>'] := rfl
  refine ⟨word ++ value ++ ['\"'], ?_, ?_, ?_⟩
  · rw [starts, ending]
    simp
  · simp [plain.1, plainValue.1]
  · simp [plain.2, plainValue.2]

/-- **A tag does not reach from one text into the next** if the tags of the first one are closed, or
the second one starts a tag. -/
theorem begins_tag_iff (isTag : IsTag tag) (apart : TagClosed s ∨ t.head? = some '<') :
    Begins tag s t ↔ tag <:+: s := by
  refine ⟨?_, fun inside => begins_of_isInfix isTag.ne_nil inside t⟩
  rintro ⟨u, nonempty, ⟨front, rfl⟩, here⟩
  have start : u <+: u ++ t := List.prefix_append u t
  rcases Nat.lt_or_ge u.length tag.length with reaches | fits
  · -- The tag starts with `u`, and what is left of it starts the second text.
    obtain ⟨v, whole⟩ := List.prefix_of_prefix_length_le start here reaches.le
    have left : v ≠ [] := by
      rintro rfl
      rw [← whole, List.append_nil] at reaches
      exact Nat.lt_irrefl _ reaches
    have behind : v <+: t := by rwa [← whole, List.prefix_append_right_inj] at here
    obtain ⟨inner, rfl, noStart, noEnd⟩ := isTag
    obtain ⟨c, u, rfl⟩ := List.exists_cons_of_ne_nil nonempty
    obtain ⟨rfl, rest⟩ := List.cons.inj (whole : c :: (u ++ v) = _)
    have cut : u ++ v.dropLast = inner := by
      have rest : u ++ v = inner ++ ['>'] := rest
      rw [← List.dropLast_append_of_ne_nil left, rest, List.dropLast_concat]
    rcases apart with closed | starts
    · have ends := (closed front u rfl).mem
      exact absurd (cut ▸ List.mem_append_left _ ends) noEnd
    · obtain ⟨d, v, rfl⟩ := List.exists_cons_of_ne_nil left
      have again : '<' ∈ inner ++ ['>'] := by
        obtain ⟨w, rfl⟩ := behind
        obtain rfl : d = '<' := Option.some.inj starts
        exact rest ▸ List.mem_append_right u List.mem_cons_self
      simp [noStart] at again
  · exact (List.prefix_of_prefix_length_le here start fits).isInfix.trans
      (List.suffix_append front u).isInfix

/-- So a tag of two texts is a tag of one of them. -/
theorem tag_isInfix_append_iff (isTag : IsTag tag) (apart : TagClosed s ∨ t.head? = some '<') :
    tag <:+: s ++ t ↔ tag <:+: s ∨ tag <:+: t := by
  have begins {u : Text} : tag <:+: u ↔ Begins tag u [] :=
    ⟨fun inside => begins_of_isInfix isTag.ne_nil inside [], infix_of_begins⟩
  rw [begins, begins_append, List.append_nil, begins_tag_iff isTag apart, ← begins]

/-- A tag holds no other one. -/
theorem tag_isInfix_tag_iff {other : Text} (isTag : IsTag tag) (isOther : IsTag other) :
    tag <:+: other ↔ tag = other := by
  refine ⟨?_, fun same => same ▸ List.infix_rfl⟩
  obtain ⟨inner, rfl, -, -⟩ := isTag
  obtain ⟨inner', rfl, noStart, noEnd⟩ := isOther
  intro inside
  rcases List.infix_cons_iff.1 inside with here | later
  · -- Both start here, and the first `>` ends both.
    rcases List.prefix_concat_iff.1 (List.cons_prefix_cons.1 here).2 with same | short
    · rw [same]
    · have ends : '>' ∈ inner' := short.subset (List.mem_append_right inner List.mem_cons_self)
      exact absurd ends noEnd
  · have again : '<' ∈ inner' ++ ['>'] := later.subset List.mem_cons_self
    simp [noStart] at again

end Tags

/-! ## The first occurrence -/

/-- **A sign that stands behind a text stands there first** exactly if none begins in the text. -/
theorem isLeast_length_iff {sign : Text} (here : sign <+: t) :
    IsLeast {n | sign <+: (s ++ t).drop n} s.length ↔ ¬ Begins sign s t := by
  have stands : sign <+: (s ++ t).drop s.length := by rwa [List.drop_left]
  constructor
  · rintro ⟨-, least⟩ ⟨u, nonempty, ⟨front, rfl⟩, earlier⟩
    have early : front.length ∈ {n | sign <+: (front ++ u ++ t).drop n} := by
      show sign <+: (front ++ u ++ t).drop front.length
      rwa [List.append_assoc, List.drop_left]
    have short := least early
    have some := List.length_pos_iff.2 nonempty
    rw [List.length_append] at short
    omega
  · intro first
    refine ⟨stands, fun n earlier => Nat.not_lt.1 fun short => first ?_⟩
    -- What is left of the first text behind the earlier place is not empty.
    refine ⟨s.drop n, by simpa using short, List.drop_suffix n s, ?_⟩
    rwa [← List.drop_append_of_le_length short.le]

end Docblock.Markup
