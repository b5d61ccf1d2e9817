import Docblock.Proofs.EncodedText
import Docblock.Proofs.JsonReader
import Docblock.Proofs.PageNames

/-!
# What an anchor stands for

An anchor is made of characters that stand for themselves, so making an anchor of an anchor changes
nothing. The number of a byte is written without leading zeros, so one digit or two may stand behind
an underscore, and an underscore may also stand for itself. Where a link has no underscore, and no
character whose byte is written with one digit, each underscore of its anchor announces two digits,
and the link can be read back: first its bytes, and from them its characters.

## Main definitions

* `anchorBytes`: the bytes that the characters of an anchor stand for
* `ReadsBack`: no character of a link makes its anchor ambiguous

## Main results

* `anchor_eq_self_iff`: which links are their own anchors
* `anchorBytes_anchorChar`: what is written for a character is read as its bytes
* `decode_anchorBytes_anchor`: a link is read back from its anchor
* `anchor_fixed_and_read_back`: anchors, their characters, and what they stand for
-/

namespace Docblock

variable {c : Char} {link : Text}

/-! ## Characters that stand for themselves -/

theorem isAnchorChar_iff :
    isAnchorChar c = true ↔ c.isAlphanum = true ∨ c ∈ ['_', '~', '.', '-'] := by
  simp [isAnchorChar, or_assoc]

/-- **A link is its own anchor** if all of its characters stand for themselves. -/
theorem anchor_eq_self_iff : anchor link = link ↔ ∀ c ∈ link, isAnchorChar c = true := by
  constructor
  · intro same c inside
    rw [← same] at inside
    exact isAnchorChar_of_mem_anchor inside
  · intro plain
    refine (List.flatMap_congr ?_).trans (List.flatMap_singleton' link)
    intro c inside
    rw [anchorChar, if_pos (plain c inside)]

/-! ## Reading bytes back -/

/-- The value of a digit of base sixteen; any other character has none, and counts as zero. -/
def digitValue (c : Char) : Nat := (Json.hexValue? c).getD 0

/-- The bytes that the characters of an anchor stand for. An underscore is read together with the
two digits behind it; any other character is its own byte. -/
def anchorBytes : Text → List UInt8
  | '_' :: high :: low :: t =>
    UInt8.ofNat (16 * digitValue high + digitValue low) :: anchorBytes t
  | c :: t => UInt8.ofNat c.toNat :: anchorBytes t
  | [] => []

/-- No character of a link makes its anchor ambiguous: none is an underscore, and none has a byte
that is written with one digit. -/
def ReadsBack (link : Text) : Prop := ∀ c ∈ link, c ≠ '_' ∧ 0x10 ≤ c.toNat

instance : DecidablePred ReadsBack := fun link =>
  List.decidableBAll (fun c => c ≠ '_' ∧ 0x10 ≤ c.toNat) link

theorem anchorBytes_cons_of_ne (noMark : c ≠ '_') (t : Text) :
    anchorBytes (c :: t) = UInt8.ofNat c.toNat :: anchorBytes t := by
  rw [anchorBytes]
  rintro _ _ _ rfl
  exact absurd rfl noMark

/-- A byte with two digits. -/
theorem hexadecimal_of_le {n : Nat} (large : 0x10 ≤ n) (small : n < 0x100) :
    Text.hexadecimal n = [Nat.digitChar (n / 16), Nat.digitChar (n % 16)] := by
  rw [Text.hexadecimal, Nat.toDigits_eq_if (by decide), if_neg (by omega),
    Nat.toDigits_eq_if (by decide), if_pos (by omega)]
  rfl

theorem digitValue_digitChar {n : Nat} (small : n < 16) : digitValue (Nat.digitChar n) = n := by
  have digit := Json.hexValue?_hexDigit n
  rw [Json.hexDigit, Nat.mod_eq_of_lt small] at digit
  rw [digitValue, digit, Option.getD_some]

/-- **A byte with two digits is read back.** -/
theorem anchorBytes_byte {b : UInt8} (large : 0x10 ≤ b.toNat) (t : Text) :
    anchorBytes ('_' :: Text.hexadecimal b.toNat ++ t) = b :: anchorBytes t := by
  have small : b.toNat < 0x100 := b.toNat_lt
  have number : 16 * (b.toNat / 16) + b.toNat % 16 = b.toNat := Nat.div_add_mod _ _
  rw [hexadecimal_of_le large small]
  show UInt8.ofNat (16 * digitValue _ + digitValue _) :: anchorBytes t = b :: anchorBytes t
  rw [digitValue_digitChar (by omega), digitValue_digitChar (by omega), number, UInt8.ofNat_toNat]

theorem anchorBytes_bytes {bytes : List UInt8} (large : ∀ b ∈ bytes, 0x10 ≤ b.toNat) (t : Text) :
    anchorBytes (bytes.flatMap (fun b => '_' :: Text.hexadecimal b.toNat) ++ t) =
      bytes ++ anchorBytes t := by
  induction bytes with
  | nil => rfl
  | cons b bytes ih =>
    obtain ⟨first, others⟩ := List.forall_mem_cons.1 large
    rw [List.flatMap_cons, List.append_assoc, anchorBytes_byte first, ih others, List.cons_append]

/-! ## Reading characters back -/

/-- No byte of a character from U+0010 on is written with one digit. -/
theorem le_toNat_of_mem_encodeChar (large : 0x10 ≤ c.toNat) :
    ∀ b ∈ Utf8.encodeChar c, 0x10 ≤ b.toNat := by
  have valid := Utf8.toNat_cases c
  have first {n : Nat} (above : 0x10 ≤ n) (below : n < 0x100) : 0x10 ≤ (UInt8.ofNat n).toNat := by
    rwa [UInt8.toNat_ofNat_of_lt' below]
  have others (n : Nat) : 0x10 ≤ (Utf8.following n).toNat := by
    rw [Utf8.toNat_following]
    omega
  simp only [Utf8.encodeChar]
  generalize c.toNat = n at valid large ⊢
  split
  · rename_i one
    exact List.forall_mem_singleton.2 (first large (by omega))
  · split
    · simp only [List.forall_mem_cons]
      exact ⟨first (by omega) (by omega), others _, List.forall_mem_nil _⟩
    · split
      · simp only [List.forall_mem_cons]
        exact ⟨first (by omega) (by omega), others _, others _, List.forall_mem_nil _⟩
      · simp only [List.forall_mem_cons]
        exact ⟨first (by omega) (by omega), others _, others _, others _, List.forall_mem_nil _⟩

theorem toNat_lt_of_isAnchorChar (plain : isAnchorChar c = true) : c.toNat < 0x80 := by
  rcases isAnchorChar_iff.1 plain with letter | mark
  · have value : c.val.toNat = c.toNat := rfl
    delta Char.isAlphanum Char.isAlpha Char.isUpper Char.isLower Char.isDigit at letter
    simp only [ge_iff_le, Bool.or_eq_true, Bool.and_eq_true, decide_eq_true_eq,
      UInt32.le_iff_toNat_le, value, Char.reduceVal, UInt32.reduceToNat] at letter
    omega
  · simp only [List.mem_cons, List.not_mem_nil, or_false] at mark
    rcases mark with rfl | rfl | rfl | rfl <;> decide

/-- A character that stands for itself is its own byte. -/
theorem encodeChar_of_isAnchorChar (plain : isAnchorChar c = true) :
    Utf8.encodeChar c = [UInt8.ofNat c.toNat] :=
  if_pos (toNat_lt_of_isAnchorChar plain)

/-- **What is written for a character is read as its bytes**, whatever follows it. -/
theorem anchorBytes_anchorChar (noMark : c ≠ '_') (large : 0x10 ≤ c.toNat) (t : Text) :
    anchorBytes (anchorChar c ++ t) = Utf8.encodeChar c ++ anchorBytes t := by
  rw [anchorChar]
  split
  · rename_i plain
    rw [List.singleton_append, anchorBytes_cons_of_ne noMark, encodeChar_of_isAnchorChar plain,
      List.singleton_append]
  · exact anchorBytes_bytes (le_toNat_of_mem_encodeChar large) t

theorem anchorBytes_anchor (readsBack : ReadsBack link) :
    anchorBytes (anchor link) = Utf8.encode link := by
  induction link with
  | nil => rfl
  | cons c link ih =>
    obtain ⟨⟨noMark, large⟩, others⟩ := List.forall_mem_cons.1 readsBack
    rw [anchor, List.flatMap_cons, anchorBytes_anchorChar noMark large, Utf8.encode,
      List.flatMap_cons]
    exact congrArg (Utf8.encodeChar c ++ ·) (ih others)

/-- **A link is read back from its anchor.** -/
theorem decode_anchorBytes_anchor (readsBack : ReadsBack link) :
    Utf8.decode (anchorBytes (anchor link)) = link := by
  rw [anchorBytes_anchor readsBack, Utf8.decode_encode]

/-- **Anchors identify links.** An anchor is made of ASCII letters, digits and four marks. A link is
its own anchor exactly if it is made of these as well, so the anchor of an anchor is that anchor. A
link without underscores and without characters below U+0010 is read back from its anchor, by bytes,
so two such links with the same anchor are the same link. -/
theorem anchor_fixed_and_read_back (x y : Text) :
    (∀ c ∈ anchor x, c.isAlphanum = true ∨ c ∈ ['_', '~', '.', '-']) ∧
      (anchor x = x ↔ ∀ c ∈ x, c.isAlphanum = true ∨ c ∈ ['_', '~', '.', '-']) ∧
      anchor (anchor x) = anchor x ∧
      (ReadsBack x → Utf8.decode (anchorBytes (anchor x)) = x) ∧
      (ReadsBack x → ReadsBack y → anchor x = anchor y → x = y) := by
  have plain (x : Text) : ∀ c ∈ anchor x, isAnchorChar c = true :=
    fun _ => isAnchorChar_of_mem_anchor
  simp only [← isAnchorChar_iff]
  refine ⟨plain x, anchor_eq_self_iff, anchor_eq_self_iff.2 (plain x), ?readBack, ?injective⟩
  case readBack => exact decode_anchorBytes_anchor
  case injective =>
    intro readsBack readsBack' same
    rw [← decode_anchorBytes_anchor readsBack, ← decode_anchorBytes_anchor readsBack', same]

/-- Operators whose names have signs and characters of several bytes have anchors of their own. -/
theorem anchor_ne_arrow :
    ReadsBack "operator->".toList ∧ ReadsBack "operator→".toList ∧
      anchor "operator->".toList ≠ anchor "operator→".toList := by
  have signs : ReadsBack "operator->".toList := by decide
  have arrow : ReadsBack "operator→".toList := by decide
  refine ⟨signs, arrow, fun same => ?_⟩
  have equal := (anchor_fixed_and_read_back "operator->".toList "operator→".toList).2.2.2.2
    signs arrow same
  exact absurd equal (by decide)

/-- With an underscore, or a character below U+0010, two links may have one anchor. -/
example : anchor "=".toList = anchor "_3d".toList ∧
    anchor ['\x12'] = anchor ['\x01', '2'] := by decide

end Docblock
