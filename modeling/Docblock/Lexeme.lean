import Docblock.Text
import Docblock.Text.Numeric

/-!
# Lexemes

The header of a block is read as lexemes: identifiers, symbols, and the end of the source. Blanks
and line breaks stand between lexemes, and so does the margin of a comment: after a line break, a
star that does not close the block and any slash are decoration.

## Main definitions

* `Lexeme`: an identifier, a symbol, or the end of the source
* `Lexeme.scan`: the first lexeme of a text, and the text behind it

## Main results

* `scan_rest_suffix`: scanning leaves an end of the text
* `length_scan_rest_lt`: a lexeme other than the end of the source takes a character
-/

namespace Docblock

/-- What stands between two lexemes of a line. -/
def isBlank (c : Char) : Bool := c == ' ' || c == '\t' || c == '\x0c' || c == '\x0b'

/-- What ends a line. -/
def isLineBreak (c : Char) : Bool := c == '\n' || c == '\r'

/-- What an identifier starts with; the tilde is for destructors. -/
def startsIdentifier (c : Char) : Bool := Text.isAlphabetic c || c == '_' || c == '~'

/-- What an identifier goes on with. -/
def continuesIdentifier (c : Char) : Bool := Text.isAlphanumeric c || c == '_'

/-- What the name of an operator may be made of, behind the word `operator`. -/
def isOperatorSign (c : Char) : Bool := "+-*/%^&|~!=<>[]".toList.contains c

/-- What may stand between the parentheses of an operator that converts to a type. -/
def isConversionChar (c : Char) : Bool := continuesIdentifier c || c == '*' || c == '&'

/-- A piece of a header. -/
inductive Lexeme where
  /-- A word, or an operator's name. -/
  | identifier (word : Text)
  /-- A sign that is no identifier: one character, or one of `*/`, `::` and `()`. -/
  | symbol (sign : Text)
  /-- Nothing is left. -/
  | endOfSource
  deriving DecidableEq

namespace Lexeme

/-- The characters of a lexeme. -/
def text : Lexeme → Text
  | identifier word => word
  | symbol sign => sign
  | endOfSource => []

/-- The star and the slash that close a block. -/
def closing : Lexeme := symbol ['*', '/']

/-- The two colons that join the name of a class and the name of its member. -/
def scope : Lexeme := symbol [':', ':']

/-- The colon that follows a label. -/
def colon : Lexeme := symbol [':']

/-- The empty parentheses that may follow the name of a function. -/
def parentheses : Lexeme := symbol ['(', ')']

/-- The sign that stands before the link of an item. -/
def hash : Lexeme := symbol ['#']

/-! ## Scanning -/

/-- Whether a text starts with a mark of the margin: a slash, or a star that does not close the
block. -/
def startsWithMarginMark : Text → Bool
  | '*' :: '/' :: _ => false
  | '*' :: _ => true
  | '/' :: _ => true
  | _ => false

/-- A text from its first lexeme on. Marks of the margin are left out where a line break has been
passed and no lexeme has followed it; `fresh` says that this is so. -/
def skipMargin (fresh : Bool) : Text → Text
  | [] => []
  | c :: t =>
    if isBlank c then skipMargin fresh t
    else if isLineBreak c then skipMargin true t
    else if fresh && startsWithMarginMark (c :: t) then skipMargin fresh t
    -- Within a line a star and a slash are lexemes.
    else c :: t

/-- What belongs to an operator's name behind the word `operator`, and the text behind it: an
opening parenthesis, a type and the closing parenthesis, or a run of signs. -/
def scanOperator : Text → Text × Text
  | '(' :: t =>
    let type := t.takeWhile isConversionChar
    match t.dropWhile isConversionChar with
    | ')' :: rest => ('(' :: type ++ [')'], rest)
    -- What has been taken for a type stays in the name, also where it is not closed.
    | rest => ('(' :: type, rest)
  | t => (t.takeWhile isOperatorSign, t.dropWhile isOperatorSign)

/-- A word and the text behind it, where the word `operator` takes an operator's name along. -/
def extendOperator (word rest : Text) : Text × Text :=
  if word = "operator".toList then (word ++ (scanOperator rest).1, (scanOperator rest).2)
  else (word, rest)

/-- The identifier that starts with a character, and the text behind it. -/
def scanIdentifier (c : Char) (t : Text) : Text × Text :=
  extendOperator (c :: t.takeWhile continuesIdentifier) (t.dropWhile continuesIdentifier)

/-- The symbol that starts with a character, and the text behind it. -/
def scanSymbol : Char → Text → Text × Text
  | '*', '/' :: t => (['*', '/'], t)
  | ':', ':' :: t => ([':', ':'], t)
  | '(', ')' :: t => (['(', ')'], t)
  | c, t => ([c], t)

/-- The lexeme that a text without a margin starts with, and the text behind it. -/
def scanHere : Text → Lexeme × Text
  | [] => (endOfSource, [])
  | c :: t =>
    if startsIdentifier c then (identifier (scanIdentifier c t).1, (scanIdentifier c t).2)
    else (symbol (scanSymbol c t).1, (scanSymbol c t).2)

/-- The first lexeme of a text, and the text behind it. -/
def scan (t : Text) : Lexeme × Text := scanHere (skipMargin false t)

/-! ## What scanning leaves -/

theorem skipMargin_suffix (fresh : Bool) (t : Text) : skipMargin fresh t <:+ t := by
  induction t generalizing fresh with
  | nil => exact List.suffix_rfl
  | cons c t ih =>
    simp only [skipMargin]
    split
    · exact (ih fresh).trans (List.suffix_cons c t)
    · split
      · exact (ih true).trans (List.suffix_cons c t)
      · split
        · exact (ih fresh).trans (List.suffix_cons c t)
        · exact List.suffix_rfl

/-- The parts of an operator's name are what the text starts with. -/
theorem scanOperator_append (t : Text) : (scanOperator t).1 ++ (scanOperator t).2 = t := by
  unfold scanOperator
  split
  · rename_i t
    have whole := List.takeWhile_append_dropWhile (p := isConversionChar) (l := t)
    split
    · rename_i rest h
      rw [h] at whole
      simp [whole]
    · simp [whole]
  · exact List.takeWhile_append_dropWhile

theorem extendOperator_append (word rest : Text) :
    (extendOperator word rest).1 ++ (extendOperator word rest).2 = word ++ rest := by
  unfold extendOperator
  split
  · rw [List.append_assoc, scanOperator_append]
  · rfl

/-- An identifier is what the text starts with. -/
theorem scanIdentifier_append (c : Char) (t : Text) :
    (scanIdentifier c t).1 ++ (scanIdentifier c t).2 = c :: t :=
  (extendOperator_append _ _).trans (congrArg (c :: ·) List.takeWhile_append_dropWhile)

/-- A symbol is what the text starts with. -/
theorem scanSymbol_append (c : Char) (t : Text) :
    (scanSymbol c t).1 ++ (scanSymbol c t).2 = c :: t := by
  unfold scanSymbol
  split <;> rfl

theorem extendOperator_ne_nil {word : Text} (rest : Text) (h : word ≠ []) :
    (extendOperator word rest).1 ≠ [] := by
  unfold extendOperator
  split
  · exact List.append_ne_nil_of_left_ne_nil h _
  · exact h

theorem scanIdentifier_ne_nil (c : Char) (t : Text) : (scanIdentifier c t).1 ≠ [] :=
  extendOperator_ne_nil _ (List.cons_ne_nil _ _)

theorem scanSymbol_ne_nil (c : Char) (t : Text) : (scanSymbol c t).1 ≠ [] := by
  unfold scanSymbol
  split <;> simp

/-- **A lexeme is what the text starts with**, once the margin has been left out. -/
theorem scanHere_append (t : Text) : (scanHere t).1.text ++ (scanHere t).2 = t := by
  cases t with
  | nil => rfl
  | cons c t =>
    simp only [scanHere]
    split
    · exact scanIdentifier_append c t
    · exact scanSymbol_append c t

theorem scanHere_eq_endOfSource_iff {t : Text} : (scanHere t).1 = endOfSource ↔ t = [] := by
  cases t with
  | nil => simp [scanHere]
  | cons c t => simp only [scanHere]; split <;> simp

/-- **Scanning leaves an end of the text.** -/
theorem scan_rest_suffix (t : Text) : (scan t).2 <:+ t :=
  List.IsSuffix.trans ⟨_, scanHere_append _⟩ (skipMargin_suffix false t)

/-- **A lexeme takes a character**, unless it is the end of the source. -/
theorem length_scan_rest_lt {t : Text} (h : (scan t).1 ≠ endOfSource) :
    (scan t).2.length < t.length := by
  have whole := congrArg List.length (scanHere_append (skipMargin false t))
  have short := (skipMargin_suffix false t).length_le
  have taken : 0 < (scanHere (skipMargin false t)).1.text.length := by
    unfold scan at h
    generalize skipMargin false t = u at h
    cases u with
    | nil => exact absurd rfl h
    | cons c u =>
      simp only [scanHere]
      split
      · exact List.length_pos_iff.2 (scanIdentifier_ne_nil c u)
      · exact List.length_pos_iff.2 (scanSymbol_ne_nil c u)
  simp only [scan, List.length_append] at whole ⊢
  omega

end Lexeme

end Docblock
