import Docblock.Text

/-!
# Patterns for names

A pattern stands for the names of files: a question mark for any character, a star for any
characters, and a class in brackets for one character of a set. Two stars stand for directories at
any depth, and only between slashes.

## Main definitions

* `Glob.Token`: a part of a pattern
* `Glob.Fault`: what is wrong with a pattern, and where
* `Glob.tokens`: the parts of a pattern
* `Glob.accepts`: whether parts stand for a name
-/

namespace Docblock.Glob

/-- The characters of a class: one character, or all from one to another. -/
inductive Range where
  | single (c : Char)
  | span (first last : Char)
  deriving DecidableEq

/-- A part of a pattern. -/
inductive Token where
  | char (c : Char)
  | anyChar
  | anyText
  | anyDepth
  | within (ranges : List Range)
  | except (ranges : List Range)
  deriving DecidableEq

/-- What can be wrong with a pattern. -/
inductive FaultKind where
  | tooManyStars
  | misplacedDepth
  | invalidRange
  deriving DecidableEq

/-- What is wrong with a pattern, and at which character. -/
structure Fault where
  position : Nat
  kind : FaultKind
  deriving DecidableEq

/-- What is wrong with a pattern, in words. -/
def FaultKind.words : FaultKind → Text
  | tooManyStars => "wildcards are either regular `*` or recursive `**`".toList
  | misplacedDepth => "recursive wildcards must form a single path component".toList
  | invalidRange => "invalid range pattern".toList

/-- A fault in words. -/
def Fault.message (f : Fault) : Text :=
  "Pattern syntax error near position ".toList ++ Text.decimal f.position ++ ": ".toList ++
    f.kind.words

/-! ## Reading patterns -/

/-- The ranges between brackets. A dash between two characters stands for those between them. -/
def ranges : Text → List Range
  | a :: '-' :: b :: t => .span a b :: ranges t
  | a :: t => .single a :: ranges t
  | [] => []

/-- What stands up to a closing bracket, and what is behind it. The first character always belongs
to it. -/
def takeClass : Text → Option (Text × Text)
  | [] => none
  | c :: t =>
    match t.dropWhile (· ≠ ']') with
    | [] => none
    | _ :: rest => some (c :: t.takeWhile (· ≠ ']'), rest)

theorem length_takeClass_lt {t chars rest : Text} (h : takeClass t = some (chars, rest)) :
    rest.length < t.length := by
  cases t with
  | nil => simp [takeClass] at h
  | cons c t =>
    have short := (List.dropWhile_suffix (l := t) (· ≠ ']')).length_le
    simp only [takeClass] at h
    split at h
    · simp at h
    · rename_i d u found
      rw [found] at short
      simp only [Option.some.injEq, Prod.mk.injEq] at h
      obtain ⟨_, rfl⟩ := h
      simp only [List.length_cons] at short ⊢
      omega

/-- The class behind an opening bracket, and what is behind it. -/
def bracketToken : Text → Option (Token × Text)
  | '!' :: t => (takeClass t).map fun (chars, rest) => (.except (ranges chars), rest)
  | t => (takeClass t).map fun (chars, rest) => (.within (ranges chars), rest)

theorem length_bracketToken_lt {t rest : Text} {token : Token}
    (h : bracketToken t = some (token, rest)) : rest.length < t.length := by
  unfold bracketToken at h
  split at h
  · rename_i u
    obtain ⟨⟨chars, rest'⟩, found, same⟩ := Option.map_eq_some_iff.1 h
    obtain ⟨_, rfl⟩ := Prod.mk.inj same
    have := length_takeClass_lt found
    simp only [List.length_cons]
    omega
  · obtain ⟨⟨chars, rest'⟩, found, same⟩ := Option.map_eq_some_iff.1 h
    obtain ⟨_, rfl⟩ := Prod.mk.inj same
    exact length_takeClass_lt found

/-- The number of stars that a text starts with. -/
def starCount (t : Text) : Nat := (t.takeWhile (· = '*')).length

/-- The parts of a pattern that starts at a position behind a character. -/
def tokensFrom (before : Option Char) (position : Nat) (t : Text) :
    Except Fault (List Token) :=
  match t with
  | [] => .ok []
  | '?' :: t => (tokensFrom (some '?') (position + 1) t).map (.anyChar :: ·)
  | '*' :: '*' :: t =>
    if starCount t ≠ 0 then .error ⟨position + 2, .tooManyStars⟩
    else if before = none ∨ before = some '/' then
      match t with
      | [] => .ok [.anyDepth]
      | '/' :: t => (tokensFrom (some '/') (position + 3) t).map (.anyDepth :: ·)
      | _ :: _ => .error ⟨position + 2, .misplacedDepth⟩
    else .error ⟨position - 1, .misplacedDepth⟩
  | '*' :: t => (tokensFrom (some '*') (position + 1) t).map (.anyText :: ·)
  | '[' :: t =>
    match _ : bracketToken t with
    | some (token, rest) =>
      (tokensFrom (some ']') (position + 1 + (t.length - rest.length)) rest).map (token :: ·)
    | none => .error ⟨position, .invalidRange⟩
  | c :: t => (tokensFrom (some c) (position + 1) t).map (.char c :: ·)
termination_by t.length
decreasing_by
  all_goals simp only [List.length_cons]
  all_goals try have := length_bracketToken_lt ‹_›
  all_goals omega

/-- The parts of a pattern. -/
def tokens (pattern : Text) : Except Fault (List Token) := tokensFrom none 0 pattern

/-! ## Names that a pattern stands for -/

/-- Whether a character is in a range. -/
def Range.contains (c : Char) : Range → Bool
  | single d => c == d
  | span first last => first.toNat ≤ c.toNat && c.toNat ≤ last.toNat

/-- Whether a part of a pattern stands for any number of characters. -/
def Token.isStar : Token → Bool
  | anyText => true
  | anyDepth => true
  | _ => false

/-- Whether a part of a pattern that stands for one character stands for this one. -/
def Token.acceptsChar (c : Char) : Token → Bool
  | char d => c == d
  | anyChar => true
  | within ranges => ranges.any (·.contains c)
  | except ranges => !ranges.any (·.contains c)
  | _ => false

/-- The ends of a text, the longest first. -/
def ends : Text → List Text
  | [] => [[]]
  | c :: t => (c :: t) :: ends t

/-- What is left of a text when a part of a pattern that stands for one character has taken its
first one. -/
def Token.leaveOne? (token : Token) : Text → Option Text
  | [] => none
  | c :: t => if token.acceptsChar c then some t else none

/-- What a part of a pattern can leave of a name, given all that the parts before it can leave. Each
of these texts is an end of those listed before it, so a star can leave of all of them what it can
leave of the first; no text has to be looked at twice. -/
def Token.leave (token : Token) (left : List Text) : List Text :=
  if token.isStar then
    match left with
    | [] => []
    | longest :: _ => ends longest
  else left.filterMap token.leaveOne?

/-- Whether parts of a pattern stand for a name: they can leave nothing of it. -/
def accepts (tokens : List Token) (name : Text) : Bool :=
  (tokens.foldl (fun left token => token.leave left) [name]).contains []

/-! ## Parts that are characters -/

/-- The name that parts of a pattern spell out, if they are characters only. -/
def literal? : List Token → Option Text
  | [] => some []
  | .char c :: tokens => (literal? tokens).map (c :: ·)
  | _ => none

end Docblock.Glob
