import Docblock.Text.Utf8
import Mathlib.Tactic.IntervalCases

/-!
# Encoded text

A text that is written as bytes is read back from them. The first byte of a character tells how many
bytes follow it and holds the first bits of its number, and each byte that follows adds six more.
The bounds that a reader sets for the second byte leave out numbers that belong to no character, and
no others.

## Main results

* `first_two`, `first_three`, `first_four`: what the first byte of a longer character announces
* `step_following`: a byte that follows adds its bits to the incomplete character
* `second_three`, `second_four`: the second byte of a character is within its bounds
* `decodeFrom_encodeChar`: a character is read back, whatever bytes follow it
* `decode_encode`: a text is read back
-/

namespace Docblock.Utf8

variable {n : Nat} {p : Partial}

/-! ## Single bytes -/

theorem toNat_following (n : Nat) : (following n).toNat = 0x80 + n % 0x40 := by
  rw [following, UInt8.toNat_ofNat_of_lt']
  have : UInt8.size = 256 := rfl
  omega

/-- The bounds of a byte that follows, as numbers. -/
theorem following_within {low high : UInt8} (above : low.toNat ≤ 0x80 + n % 0x40)
    (below : 0x80 + n % 0x40 ≤ high.toNat) : low ≤ following n ∧ following n ≤ high := by
  rw [UInt8.le_iff_toNat_le, UInt8.le_iff_toNat_le, toNat_following]
  exact ⟨above, below⟩

/-- A byte that follows the second one is within the usual bounds. -/
theorem following_usual (n : Nat) : 0x80 ≤ following n ∧ following n ≤ 0xBF :=
  following_within (Nat.le_add_right _ _) (by show _ ≤ 0xBF; omega)

/-- **A byte that follows adds its bits** to the incomplete character, if its bounds allow it. -/
theorem step_following {low high : UInt8} (within : low ≤ following n ∧ following n ≤ high)
    (bits missing : Nat) :
    step (some ⟨bits, missing, low, high⟩) (following n) =
      if missing ≤ 1 then ([Char.ofNat (bits * 64 + n % 64)], none)
      else ([], some ⟨bits * 64 + n % 64, missing - 1, 0x80, 0xBF⟩) := by
  have added : (following n).toNat % 64 = n % 64 := by
    rw [toNat_following]
    omega
  rw [step, if_pos within, added]

theorem decodeFrom_last (bits n : Nat) (bytes : List UInt8) :
    decodeFrom (some ⟨bits, 1, 0x80, 0xBF⟩) (following n :: bytes) =
      Char.ofNat (bits * 64 + n % 64) :: decodeFrom none bytes := by
  rw [decodeFrom, step_following (following_usual n), if_pos le_rfl, List.singleton_append]

theorem decodeFrom_following {low high : UInt8} (within : low ≤ following n ∧ following n ≤ high)
    (bits missing : Nat) (bytes : List UInt8) :
    decodeFrom (some ⟨bits, missing + 2, low, high⟩) (following n :: bytes) =
      decodeFrom (some ⟨bits * 64 + n % 64, missing + 1, 0x80, 0xBF⟩) bytes := by
  rw [decodeFrom, step_following within, if_neg (by omega)]
  rfl

/-- A small number is its own byte. -/
theorem first_one (small : n < 0x80) : first (UInt8.ofNat n) = ([Char.ofNat n], none) := by
  have each : ∀ n < 0x80, (UInt8.ofNat n).toNat = n ∧ UInt8.ofNat n < 0x80 := by decide
  rw [first, if_pos (each n small).2, (each n small).1]

/-- The first of two bytes. -/
theorem first_two (above : 2 ≤ n) (below : n < 0x20) :
    first (UInt8.ofNat (0xC0 + n)) = ([], some ⟨n, 1, 0x80, 0xBF⟩) := by
  interval_cases n <;> rfl

/-- The first of three bytes. Numbers that are too small would have been written with fewer bytes,
and those from 0xD800 up to 0xDFFF belong to no character. -/
theorem first_three (below : n < 0x10) :
    first (UInt8.ofNat (0xE0 + n)) =
      ([], some ⟨n, 2, if n = 0 then 0xA0 else 0x80, if n = 0xD then 0x9F else 0xBF⟩) := by
  interval_cases n <;> rfl

/-- The first of four bytes. -/
theorem first_four (below : n < 5) :
    first (UInt8.ofNat (0xF0 + n)) =
      ([], some ⟨n, 3, if n = 0 then 0x90 else 0x80, if n = 4 then 0x8F else 0xBF⟩) := by
  interval_cases n <;> rfl

theorem decodeFrom_first {b : UInt8} (announced : first b = ([], some p)) (bytes : List UInt8) :
    decodeFrom none (b :: bytes) = decodeFrom (some p) bytes := by
  rw [decodeFrom, step, announced, List.nil_append]

/-! ## Characters -/

/-- The number of a character is below the surrogates or above them. -/
theorem toNat_cases (c : Char) : c.toNat < 0xD800 ∨ 0xDFFF < c.toNat ∧ c.toNat < 0x110000 := c.valid

/-- The second of three bytes is within its bounds: the number takes three bytes, and it is none of
the surrogates. -/
theorem second_three (large : 0x800 ≤ n) (noSurrogate : n < 0xD800 ∨ 0xDFFF < n) :
    (if n / 0x1000 = 0 then 0xA0 else 0x80) ≤ following (n / 0x40) ∧
      following (n / 0x40) ≤ if n / 0x1000 = 0xD then 0x9F else 0xBF := by
  apply following_within
  · split <;> simp only [UInt8.reduceToNat] <;> omega
  · split <;> simp only [UInt8.reduceToNat] <;> omega

/-- The second of four bytes is within its bounds: the number takes four bytes, and it is not too
large. -/
theorem second_four (large : 0x10000 ≤ n) (small : n < 0x110000) :
    (if n / 0x40000 = 0 then 0x90 else 0x80) ≤ following (n / 0x1000) ∧
      following (n / 0x1000) ≤ if n / 0x40000 = 4 then 0x8F else 0xBF := by
  apply following_within
  · split <;> simp only [UInt8.reduceToNat] <;> omega
  · split <;> simp only [UInt8.reduceToNat] <;> omega

/-- **A character is read back**, whatever bytes follow it. -/
theorem decodeFrom_encodeChar (c : Char) (bytes : List UInt8) :
    decodeFrom none (encodeChar c ++ bytes) = c :: decodeFrom none bytes := by
  have valid := toNat_cases c
  have number := Char.ofNat_toNat c
  simp only [encodeChar]
  generalize c.toNat = n at valid number ⊢
  split
  · rename_i one
    rw [List.singleton_append, decodeFrom, step, first_one one, number, List.singleton_append]
  · rename_i notOne
    split
    · rename_i two
      have bits : n / 0x40 * 64 + n % 64 = n := by omega
      rw [List.cons_append, List.singleton_append,
        decodeFrom_first (first_two (by omega) (by omega)), decodeFrom_last, bits, number]
    · rename_i notTwo
      split
      · rename_i three
        have bits : (n / 0x1000 * 64 + n / 0x40 % 64) * 64 + n % 64 = n := by omega
        rw [List.cons_append, List.cons_append, List.singleton_append,
          decodeFrom_first (first_three (by omega)),
          decodeFrom_following (second_three (by omega) (by omega)), decodeFrom_last, bits, number]
      · rename_i notThree
        have bits :
            ((n / 0x40000 * 64 + n / 0x1000 % 64) * 64 + n / 0x40 % 64) * 64 + n % 64 = n := by
          omega
        rw [List.cons_append, List.cons_append, List.cons_append, List.singleton_append,
          decodeFrom_first (first_four (by omega)),
          decodeFrom_following (second_four (by omega) (by omega)),
          decodeFrom_following (following_usual _), decodeFrom_last, bits, number]

/-! ## Texts -/

/-- **A text is read back** from its bytes. -/
theorem decode_encode (t : Text) : decode (encode t) = t := by
  induction t with
  | nil => rfl
  | cons c t ih =>
    rw [decode, encode, List.flatMap_cons, decodeFrom_encodeChar]
    exact congrArg (c :: ·) ih

end Docblock.Utf8
