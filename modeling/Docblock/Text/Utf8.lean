import Docblock.Text

/-!
# UTF-8

A text is written as bytes in UTF-8. Reading accepts any bytes: a sequence that is not UTF-8 is
replaced, each longest piece that could still have become a character by one replacement character.

## Main definitions

* `Utf8.encode`: the bytes of a text
* `Utf8.decode`: the text of any bytes
-/

namespace Docblock.Utf8

/-- A byte behind the first one: it carries the last six bits of a number. -/
def following (n : Nat) : UInt8 := UInt8.ofNat (0x80 + n % 0x40)

/-- The bytes of one character. -/
def encodeChar (c : Char) : List UInt8 :=
  let n := c.toNat
  if n < 0x80 then [UInt8.ofNat n]
  else if n < 0x800 then [UInt8.ofNat (0xC0 + n / 0x40), following n]
  else if n < 0x10000 then
    [UInt8.ofNat (0xE0 + n / 0x1000), following (n / 0x40), following n]
  else
    [UInt8.ofNat (0xF0 + n / 0x40000), following (n / 0x1000), following (n / 0x40), following n]

/-- The bytes of a text. -/
def encode (t : Text) : List UInt8 := t.flatMap encodeChar

/-- Stands for bytes that are not UTF-8. -/
def replacement : Char := Char.ofNat 0xFFFD

/-- A character whose bytes have been read in part: the bits read so far, the number of bytes that
follow, and the bounds of the next one. -/
structure Partial where
  bits : Nat
  missing : Nat
  low : UInt8
  high : UInt8

/-- Reads the first byte of a character: the text it completes, and the character it begins. The
bounds of the second byte leave out overlong forms, surrogates and numbers that are too large. -/
def first (b : UInt8) : Text × Option Partial :=
  if b < 0x80 then ([Char.ofNat b.toNat], none)
  else if 0xC2 ≤ b ∧ b ≤ 0xDF then ([], some ⟨b.toNat - 0xC0, 1, 0x80, 0xBF⟩)
  else if b = 0xE0 then ([], some ⟨0, 2, 0xA0, 0xBF⟩)
  else if b = 0xED then ([], some ⟨0xD, 2, 0x80, 0x9F⟩)
  else if 0xE1 ≤ b ∧ b ≤ 0xEF then ([], some ⟨b.toNat - 0xE0, 2, 0x80, 0xBF⟩)
  else if b = 0xF0 then ([], some ⟨0, 3, 0x90, 0xBF⟩)
  else if 0xF1 ≤ b ∧ b ≤ 0xF3 then ([], some ⟨b.toNat - 0xF0, 3, 0x80, 0xBF⟩)
  else if b = 0xF4 then ([], some ⟨4, 3, 0x80, 0x8F⟩)
  else ([replacement], none)

/-- Reads one byte: the text it completes, and the character that is then incomplete. A byte that
cannot go on with the incomplete character ends it and is read as a first byte. -/
def step : Option Partial → UInt8 → Text × Option Partial
  | none, b => first b
  | some p, b =>
    if p.low ≤ b ∧ b ≤ p.high then
      let bits := p.bits * 64 + b.toNat % 64
      if p.missing ≤ 1 then ([Char.ofNat bits], none)
      else ([], some ⟨bits, p.missing - 1, 0x80, 0xBF⟩)
    else (replacement :: (first b).1, (first b).2)

/-- Reads bytes after an incomplete character. -/
def decodeFrom : Option Partial → List UInt8 → Text
  | none, [] => []
  | some _, [] => [replacement]
  | p, b :: bs => (step p b).1 ++ decodeFrom (step p b).2 bs

/-- The text of any bytes. -/
def decode (bytes : List UInt8) : Text := decodeFrom none bytes

@[simp] theorem encode_nil : encode [] = [] := rfl

@[simp] theorem encode_append (s t : Text) : encode (s ++ t) = encode s ++ encode t :=
  List.flatMap_append

end Docblock.Utf8
