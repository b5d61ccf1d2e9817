import Docblock.Json

/-!
# Reading JSON

The text of a value can be read back. The reader of JSON goes through a text one character at a
time. It knows what it is in the middle of and where in the value it stands: the lists and objects
that are open, with what has been read of them. Reading a piece of text leads it from one state to
another one, and pieces are read one after the other, so the text of a value is read as it is put
together.

Values are made of strings, truth values, lists and objects. The reader takes all texts of such
values as the standard has them: any blanks between tokens, every escape, and pairs of escapes for
characters behind the first plane.

## Main definitions

* `Mode`, `next`: what the reader is in the middle of, and what one character makes of it
* `Place`, `step`: where the reader stands in the value, and what one token makes of it
* `read`: the value that a text stands for
* `Leads`: a piece of text leads the reader from one state to another one

## Main results

* `leads_escapeChar`: an escaped character is read as it was
* `leads_enclose`: parts between brackets are read one after the other
* `isRead`: the text of a value is read as the value, wherever a value may stand
* `read_render`: reading undoes writing
-/

namespace Docblock.Json

/-! ## Tokens -/

/-- The tokens of JSON. -/
inductive Token where
  | text (t : Text)
  | truth (b : Bool)
  | openList
  | closeList
  | openObject
  | closeObject
  | colon
  | comma

/-- What a reader is in the middle of. In a string it has read a text, and perhaps the first unit of
a pair of escapes behind it. -/
inductive Mode where
  | between
  | word (letters : Text)
  | quoted (t : Text) (high : Option Nat)
  | escaped (t : Text) (high : Option Nat)
  | coded (t : Text) (high : Option Nat) (left n : Nat)

/-- Blanks between tokens. -/
def isSpace (c : Char) : Bool := c == ' ' || c == '\n' || c == '\r' || c == '\t'

/-- The token that is one character. -/
def mark? : Char → Option Token
  | '[' => some .openList
  | ']' => some .closeList
  | '{' => some .openObject
  | '}' => some .closeObject
  | ':' => some .colon
  | ',' => some .comma
  | _ => none

/-- The character that a letter behind a backslash stands for. -/
def escape? : Char → Option Char
  | '\"' => some '\"'
  | '\\' => some '\\'
  | '/' => some '/'
  | 'b' => some '\x08'
  | 'f' => some '\x0c'
  | 'n' => some '\n'
  | 'r' => some '\r'
  | 't' => some '\t'
  | _ => none

/-- The value of a digit of base sixteen. -/
def hexValue? (c : Char) : Option Nat :=
  if '0' ≤ c ∧ c ≤ '9' then some (c.toNat - '0'.toNat)
  else if 'a' ≤ c ∧ c ≤ 'f' then some (c.toNat - 'a'.toNat + 10)
  else if 'A' ≤ c ∧ c ≤ 'F' then some (c.toNat - 'A'.toNat + 10)
  else none

/-- What is made of letters: one of the two words, or the start of one. -/
def readWord (letters : Text) : Option (Mode × Option Token) :=
  if letters = "true".toList then some (.between, some (.truth true))
  else if letters = "false".toList then some (.between, some (.truth false))
  else if letters.isPrefixOf "true".toList || letters.isPrefixOf "false".toList then
    some (.word letters, none)
  else none

/-- What is made of a unit of four digits: a character, or one half of a pair. -/
def readUnit (t : Text) (high : Option Nat) (n : Nat) : Option Mode :=
  let isHigh := 0xD800 ≤ n ∧ n < 0xDC00
  let isLow := 0xDC00 ≤ n ∧ n < 0xE000
  match high with
  | none =>
    if isHigh then some (.quoted t (some n))
    else if isLow then none
    else some (.quoted (t ++ [Char.ofNat n]) none)
  | some first =>
    let c := Char.ofNat (0x10000 + (first - 0xD800) * 0x400 + (n - 0xDC00))
    if isLow then some (.quoted (t ++ [c]) none) else none

/-- What one character makes of a mode, and the token that it completes, if it completes one. -/
def next : Mode → Char → Option (Mode × Option Token)
  | .between, c =>
    if isSpace c then some (.between, none)
    else if c = '\"' then some (.quoted [] none, none)
    else
      match mark? c with
      | some token => some (.between, some token)
      | none => readWord [c]
  | .word letters, c => readWord (letters ++ [c])
  | .quoted t high, c =>
    if c = '\\' then some (.escaped t high, none)
    else if high.isSome || c.toNat < 0x20 then none
    else if c = '\"' then some (.between, some (.text t))
    else some (.quoted (t ++ [c]) none, none)
  | .escaped t high, c =>
    if c = 'u' then some (.coded t high 3 0, none)
    else if high.isSome then none
    else (escape? c).map fun meant => (.quoted (t ++ [meant]) none, none)
  | .coded t high left n, c =>
    (hexValue? c).bind fun digit =>
      match left with
      | 0 => (readUnit t high (16 * n + digit)).map (·, none)
      | left + 1 => some (.coded t high left (16 * n + digit), none)

/-! ## Values -/

/-- A list or an object that is open: what has been read of it, and the key of the field that is
being read. -/
inductive Frame where
  | items (done : List Json)
  | field (done : List (Text × Json)) (key : Text)

/-- Where a reader stands in a value, inside of the frames that are open: in front of a value, of
the first item or field, of a key or of the colon behind it, or behind an item, a field or the
value. -/
inductive Place where
  | value (frames : List Frame)
  | firstItem (frames : List Frame)
  | firstField (frames : List Frame)
  | key (done : List (Text × Json)) (frames : List Frame)
  | colon (done : List (Text × Json)) (key : Text) (frames : List Frame)
  | behindItem (done : List Json) (frames : List Frame)
  | behindField (done : List (Text × Json)) (frames : List Frame)
  | behind (v : Json)

/-- The place behind a value that has been read. -/
def complete (v : Json) : List Frame → Place
  | [] => .behind v
  | .items done :: others => .behindItem (done ++ [v]) others
  | .field done key :: others => .behindField (done ++ [(key, v)]) others

/-- What the first token of a value makes of the place in front of it. -/
def start (frames : List Frame) : Token → Option Place
  | .text t => some (complete (text t) frames)
  | .truth b => some (complete (truth b) frames)
  | .openList => some (.firstItem frames)
  | .openObject => some (.firstField frames)
  | _ => none

/-- What one token makes of a place. -/
def step : Place → Token → Option Place
  | .value frames, token => start frames token
  | .firstItem frames, .closeList => some (complete (list []) frames)
  | .firstItem frames, token => start (.items [] :: frames) token
  | .firstField frames, .closeObject => some (complete (object []) frames)
  | .firstField frames, .text key => some (.colon [] key frames)
  | .key done frames, .text key => some (.colon done key frames)
  | .colon done key frames, .colon => some (.value (.field done key :: frames))
  | .behindItem done frames, .comma => some (.value (.items done :: frames))
  | .behindItem done frames, .closeList => some (complete (list done) frames)
  | .behindField done frames, .comma => some (.key done frames)
  | .behindField done frames, .closeObject => some (complete (object done) frames)
  | _, _ => none

/-- What one character makes of the state of a reader. -/
def advance (s : Mode × Place) (c : Char) : Option (Mode × Place) :=
  (next s.1 c).bind fun (mode, token?) =>
    match token? with
    | none => some (mode, s.2)
    | some token => (step s.2 token).map (mode, ·)

/-- The value that a text stands for, if it is the text of one. -/
def read (t : Text) : Option Json :=
  match t.foldlM advance (.between, .value []) with
  | some (.between, .behind v) => some v
  | _ => none

/-! ## Reading pieces of text -/

/-- Reading a text leads from one state to another one. -/
def Leads (t : Text) (s s' : Mode × Place) : Prop := t.foldlM advance s = some s'

variable {t t' : Text} {s s' s'' : Mode × Place} {mode mode' : Mode} {p p' : Place} {c : Char}
  {token : Token} {frames : List Frame}

theorem leads_nil (s : Mode × Place) : Leads [] s s := rfl

theorem Leads.append (first : Leads t s s') (second : Leads t' s' s'') : Leads (t ++ t') s s'' := by
  rw [Leads, List.foldlM_append, show t.foldlM advance s = some s' from first]
  exact second

/-- A character that completes no token changes nothing but the mode. -/
theorem Leads.cons (here : next mode c = some (mode', none)) (behind : Leads t (mode', p) s') :
    Leads (c :: t) (mode, p) s' := by
  rw [Leads, List.foldlM_cons, advance, here]
  exact behind

/-- A character that completes a token makes a step. -/
theorem leads_token (here : next mode c = some (mode', some token))
    (stepped : step p token = some p') : Leads [c] (mode, p) (mode', p') := by
  have advanced : advance (mode, p) c = some (mode', p') := by
    rw [advance, here]
    show (step p token).map (mode', ·) = some (mode', p')
    rw [stepped, Option.map_some]
  rw [Leads, List.foldlM_cons, advanced]
  rfl

theorem leads_spaces (p : Place) (n : Nat) :
    Leads (List.replicate n ' ') (.between, p) (.between, p) := by
  induction n with
  | zero => exact leads_nil _
  | succ n ih => exact Leads.cons rfl ih

theorem leads_indent (p : Place) (level : Nat) :
    Leads (indent level) (.between, p) (.between, p) :=
  Leads.cons rfl (leads_spaces p _)

/-! ## Strings -/

theorem hexValue?_hexDigit (n : Nat) : hexValue? (hexDigit n) = some (n % 16) := by
  have digits : ∀ k < 16, hexValue? (Nat.digitChar k) = some k := by decide
  exact digits (n % 16) (Nat.mod_lt n (by decide))

/-- A control character is read by its number. -/
theorem leads_coded (control : c.toNat < 0x20) (t : Text) (p : Place) :
    Leads ("\\u00".toList ++ [hexDigit (c.toNat / 16), hexDigit c.toNat])
      (.quoted t none, p) (.quoted (t ++ [c]) none, p) := by
  -- The first two digits are zeros, so the number is that of the third and the fourth one.
  have third : next (.coded t none 1 0) (hexDigit (c.toNat / 16)) =
      some (.coded t none 0 (c.toNat / 16), none) := by
    have small : c.toNat / 16 % 16 = c.toNat / 16 := by omega
    rw [next, hexValue?_hexDigit, small]
    exact congrArg (fun n => some (Mode.coded t none 0 n, none)) (Nat.zero_add _)
  have isUnit : readUnit t none c.toNat = some (.quoted (t ++ [c]) none) := by
    have notHigh : ¬ (0xD800 ≤ c.toNat ∧ c.toNat < 0xDC00) := by omega
    have notLow : ¬ (0xDC00 ≤ c.toNat ∧ c.toNat < 0xE000) := by omega
    rw [readUnit, if_neg notHigh, if_neg notLow, Char.ofNat_toNat]
  have fourth : next (.coded t none 0 (c.toNat / 16)) (hexDigit c.toNat) =
      some (.quoted (t ++ [c]) none, none) := by
    have number : 16 * (c.toNat / 16) + c.toNat % 16 = c.toNat := Nat.div_add_mod _ _
    rw [next, hexValue?_hexDigit, Option.bind_some, number, isUnit, Option.map_some]
  have digits : Leads [hexDigit (c.toNat / 16), hexDigit c.toNat]
      (.coded t none 1 0, p) (.quoted (t ++ [c]) none, p) :=
    Leads.cons third (Leads.cons fourth (leads_nil _))
  have opened : Leads "\\u00".toList (.quoted t none, p) (.coded t none 1 0, p) := rfl
  exact opened.append digits

/-- **An escaped character is read as it was.** -/
theorem leads_escapeChar (c : Char) (t : Text) (p : Place) :
    Leads (escapeChar c) (.quoted t none, p) (.quoted (t ++ [c]) none, p) := by
  unfold escapeChar
  split
  case h_8 noQuote noBackslash _ _ _ _ _ =>
    split
    · rename_i control
      exact leads_coded control t p
    · rename_i noControl
      have plain : next (.quoted t none) c = some (.quoted (t ++ [c]) none, none) := by
        rw [next, if_neg noBackslash, if_neg (by simpa using noControl), if_neg noQuote]
      exact Leads.cons plain (leads_nil _)
  all_goals rfl

theorem leads_escaped (t before : Text) (p : Place) :
    Leads (t.flatMap escapeChar) (.quoted before none, p) (.quoted (before ++ t) none, p) := by
  induction t generalizing before with
  | nil => rw [List.append_nil]; exact leads_nil _
  | cons c t ih =>
    have others := ih (before ++ [c])
    rw [List.append_assoc] at others
    exact (leads_escapeChar c before p).append others

/-- **A string is read as the text that was quoted.** -/
theorem leads_quote (t : Text) (stepped : step p (.text t) = some p') :
    Leads (quote t) (.between, p) (.between, p') := by
  have escaped : Leads (t.flatMap escapeChar) (.quoted [] none, p) (.quoted t none, p) :=
    leads_escaped t [] p
  have closed : Leads ['\"'] (.quoted t none, p) (.between, p') := leads_token rfl stepped
  exact Leads.cons rfl (escaped.append closed)

/-! ## Lists and objects -/

/-- Every value is made of strings, truth values, lists and objects. -/
@[elab_as_elim]
theorem induction {motive : Json → Prop} (text : ∀ t, motive (text t))
    (truth : ∀ b, motive (truth b)) (list : ∀ items, (∀ v ∈ items, motive v) → motive (list items))
    (object : ∀ fields, (∀ field ∈ fields, motive field.2) → motive (object fields)) (v : Json) :
    motive v := by
  refine @Json.rec motive (fun items => ∀ v ∈ items, motive v)
    (fun fields => ∀ field ∈ fields, motive field.2) (fun field => motive field.2)
    text truth list object ?_ ?_ ?_ ?_ ?_ v
  · simp
  · exact fun v items first others => List.forall_mem_cons.2 ⟨first, others⟩
  · simp
  · exact fun field fields first others => List.forall_mem_cons.2 ⟨first, others⟩
  · exact fun key value read => read

theorem renderItems_eq (level : Nat) (items : List Json) :
    renderItems level items = items.map (renderAt level) := by
  induction items with
  | nil => rw [renderItems, List.map_nil]
  | cons v items ih => rw [renderItems, ih, List.map_cons]

theorem renderFields_eq (level : Nat) (fields : List (Text × Json)) :
    renderFields level fields = fields.map (renderField level) := by
  induction fields with
  | nil => rw [renderFields, List.map_nil]
  | cons field fields ih => rw [renderFields, ih, List.map_cons]

theorem intercalate_cons (separator t : Text) (others : List Text) :
    List.intercalate separator (t :: others) = t ++ others.flatMap (separator ++ ·) := by
  induction others generalizing t with
  | nil => simp [List.intercalate]
  | cons t' others ih =>
    rw [List.intercalate_cons_cons, ih, List.flatMap_cons, List.append_assoc, List.append_assoc]

/-- Parts between brackets are read one after the other: the first one behind the bracket, the
others behind commas. -/
theorem leads_enclose {α : Type} {opened closed : Char} {level : Nat} {render : α → Text}
    {parts : List α} {first last : Place} (inside : List α → Place)
    (opens : Leads [opened] (.between, p) (.between, first))
    (none : parts = [] → Leads [closed] (.between, first) (.between, last))
    (one : ∀ a ∈ parts, Leads (render a) (.between, first) (.between, inside [a]))
    (more : ∀ a ∈ parts, ∀ done,
      Leads (',' :: (indent (level + 1) ++ render a)) (.between, inside done)
        (.between, inside (done ++ [a])))
    (closes : Leads [closed] (.between, inside parts) (.between, last)) :
    Leads (enclose opened closed level (parts.map render)) (.between, p) (.between, last) := by
  -- By induction on the parts that are left; `done` are those in front of them.
  have others (rest : List α) (among : ∀ a ∈ rest, a ∈ parts) (done : List α) :
      Leads (rest.flatMap fun a => ',' :: (indent (level + 1) ++ render a))
        (.between, inside done) (.between, inside (done ++ rest)) := by
    induction rest generalizing done with
    | nil => rw [List.append_nil]; exact leads_nil _
    | cons a rest ih =>
      obtain ⟨here, later⟩ := List.forall_mem_cons.1 among
      have behind := ih later (done ++ [a])
      rw [List.append_assoc] at behind
      exact (more a here done).append behind
  cases parts with
  | nil => exact opens.append (none rfl)
  | cons a rest =>
    have lines : enclose opened closed level ((a :: rest).map render) =
        [opened] ++ (indent (level + 1) ++ render a ++
          (rest.flatMap fun a => ',' :: (indent (level + 1) ++ render a)) ++
            indent level ++ [closed]) := by
      rw [enclose, if_neg (by simp), List.map_cons, List.map_cons, intercalate_cons,
        List.flatMap_map, List.flatMap_map]
      rfl
    rw [lines]
    refine opens.append ?_
    refine Leads.append ?_ closes
    refine Leads.append ?_ (leads_indent _ level)
    refine Leads.append ?_ (others rest (fun a => List.mem_cons_of_mem _) [a])
    exact (leads_indent _ _).append (one a List.mem_cons_self)

/-! ## Values -/

/-- A place where a value may stand, inside of some frames. -/
def Awaits (p : Place) (frames : List Frame) : Prop :=
  ∀ token p', start frames token = some p' → step p token = some p'

theorem awaits_value (frames : List Frame) : Awaits (.value frames) frames :=
  fun _ _ started => started

theorem awaits_firstItem (frames : List Frame) :
    Awaits (.firstItem frames) (.items [] :: frames) := by
  intro token p' started
  cases token with
  | closeList => cases started
  | _ => exact started

/-- The text of a value is read as the value, wherever a value may stand. -/
def IsRead (v : Json) : Prop :=
  ∀ level p frames, Awaits p frames →
    Leads (renderAt level v) (.between, p) (.between, complete v frames)

theorem leads_truth {b : Bool} (stepped : step p (.truth b) = some p') :
    Leads (if b then "true".toList else "false".toList) (.between, p) (.between, p') := by
  cases b with
  | true =>
    have letters : Leads "tru".toList (.between, p) (.word "tru".toList, p) := rfl
    exact letters.append (leads_token (c := 'e') rfl stepped)
  | false =>
    have letters : Leads "fals".toList (.between, p) (.word "fals".toList, p) := rfl
    exact letters.append (leads_token (c := 'e') rfl stepped)

theorem isRead_list {items : List Json} (read : ∀ v ∈ items, IsRead v) : IsRead (list items) := by
  intro level p frames awaits
  rw [renderAt, renderItems_eq]
  refine leads_enclose (.behindItem · frames) (leads_token rfl (awaits .openList _ rfl)) ?_ ?_ ?_ ?_
  · rintro rfl
    exact leads_token rfl rfl
  · exact fun v inside => read v inside _ _ _ (awaits_firstItem frames)
  · intro v inside done
    have comma : Leads [','] (.between, .behindItem done frames)
        (.between, .value (.items done :: frames)) := leads_token rfl rfl
    have value := read v inside (level + 1) _ _ (awaits_value (.items done :: frames))
    exact comma.append ((leads_indent _ _).append value)
  · exact leads_token rfl rfl

/-- A field is read behind its key. -/
theorem leads_field {field : Text × Json} (read : IsRead field.2) (level : Nat)
    (done : List (Text × Json)) (key : step p (.text field.1) = some (.colon done field.1 frames)) :
    Leads (renderField level field) (.between, p)
      (.between, .behindField (done ++ [field]) frames) := by
  obtain ⟨name, v⟩ := field
  have colon : Leads ": ".toList (.between, .colon done name frames)
      (.between, .value (.field done name :: frames)) := rfl
  have value := read level _ _ (awaits_value (.field done name :: frames))
  rw [renderField]
  exact ((leads_quote name key).append colon).append value

theorem isRead_object {fields : List (Text × Json)} (read : ∀ field ∈ fields, IsRead field.2) :
    IsRead (object fields) := by
  intro level p frames awaits
  rw [renderAt, renderFields_eq]
  refine leads_enclose (.behindField · frames) (leads_token rfl (awaits .openObject _ rfl))
    ?_ ?_ ?_ ?_
  · rintro rfl
    exact leads_token rfl rfl
  · exact fun field inside => leads_field (read field inside) _ [] rfl
  · intro field inside done
    have comma : Leads [','] (.between, .behindField done frames) (.between, .key done frames) :=
      leads_token rfl rfl
    exact comma.append ((leads_indent _ _).append (leads_field (read field inside) _ done rfl))
  · exact leads_token rfl rfl

/-- **The text of a value is read as the value**, wherever a value may stand. -/
theorem isRead (v : Json) : IsRead v := by
  induction v using induction with
  | text t =>
    intro level p frames awaits
    rw [renderAt]
    exact leads_quote t (awaits (.text t) _ rfl)
  | truth b =>
    intro level p frames awaits
    rw [renderAt]
    exact leads_truth (awaits (.truth b) _ rfl)
  | list items read => exact isRead_list read
  | object fields read => exact isRead_object read

/-- **Reading undoes writing**, also with a line feed behind the text. -/
theorem read_render (v : Json) : read (v.render ++ ['\n']) = some v := by
  have value : Leads (renderAt 0 v) (.between, .value []) (.between, .behind v) :=
    isRead v 0 _ _ (awaits_value [])
  have whole : Leads (v.render ++ ['\n']) (.between, .value []) (.between, .behind v) :=
    value.append (leads_indent _ 0)
  rw [read, show List.foldlM advance _ _ = _ from whole]

/-- Other spellings are read as well: here blanks, escapes that need not be, and a pair of them. -/
example : read " [\"\\/\\u00e9\",\t\"\\ud83d\\ude00\" ]".toList =
    some (list [text ['/', Char.ofNat 0xe9], text [Char.ofNat 0x1f600]]) := by
  rfl

end Docblock.Json
