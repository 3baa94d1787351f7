/-!
# Code points

A text is made of characters and of halves of surrogate pairs that stand alone.  An
escape in JSON can name such a half.  It is no character: it has no octets and is
never shown as it is.

Every code point has its own number (`CodePoint.toNat_inj`), and code points are
ordered by their numbers, halves among the characters.
-/

namespace SyntaxRepair

/-- A character, or half of a surrogate pair that stands alone. -/
inductive CodePoint
  | char (c : Char)
  /-- The half at a place among all halves, whose numbers begin with `0xD800`. -/
  | half (place : Fin 0x800)
deriving Repr, DecidableEq

namespace CodePoint

instance : Coe Char CodePoint := ⟨char⟩

/-- The number of a code point. -/
def toNat : CodePoint → Nat
  | char c => c.toNat
  | half place => 0xD800 + place

@[simp] theorem toNat_char (c : Char) : (char c).toNat = c.toNat := rfl

@[simp] theorem toNat_half (place : Fin 0x800) : (half place).toNat = 0xD800 + place := rfl

theorem toNat_inj {first second : CodePoint} :
    first.toNat = second.toNat ↔ first = second := by
  refine ⟨fun hnumber => ?_, fun hsame => hsame ▸ rfl⟩
  cases first with
  | char c =>
    cases second with
    | char d => simpa [Char.toNat_inj] using hnumber
    | half place =>
      have hvalid : c.toNat < 0xD800 ∨ 0xDFFF < c.toNat ∧ c.toNat < 0x110000 := c.valid
      simp only [toNat_char, toNat_half] at hnumber
      omega
  | half place =>
    cases second with
    | char d =>
      have hvalid : d.toNat < 0xD800 ∨ 0xDFFF < d.toNat ∧ d.toNat < 0x110000 := d.valid
      simp only [toNat_char, toNat_half] at hnumber
      omega
    | half other =>
      simp only [toNat_half] at hnumber
      exact congrArg half (Fin.ext (by omega))

/-! ## Order -/

instance : LT CodePoint := ⟨fun first second => first.toNat < second.toNat⟩

theorem lt_iff {first second : CodePoint} : first < second ↔ first.toNat < second.toNat :=
  Iff.rfl

instance : DecidableLT CodePoint := fun first second =>
  inferInstanceAs (Decidable (first.toNat < second.toNat))

/-! ## Classes -/

/-- Whether a code point is a character that passes a test. -/
def satisfies (test : Char → Bool) : CodePoint → Bool
  | char c => test c
  | half _ => false

/-- Whether a code point is half of a surrogate pair. -/
def isHalf : CodePoint → Bool
  | char _ => false
  | half _ => true

/-- Whether a code point is a digit of ASCII. -/
def isDigit : CodePoint → Bool := satisfies Char.isDigit

/-! ## Code units -/

/-- Whether a code unit is the first half of a surrogate pair. -/
def isHighSurrogate (unit : Nat) : Bool := 0xD800 ≤ unit && unit < 0xDC00

/-- Whether a code unit is the second half of a surrogate pair. -/
def isLowSurrogate (unit : Nat) : Bool := 0xDC00 ≤ unit && unit < 0xE000

/-- The code point of a code unit that stands alone. -/
def ofUnit (unit : Nat) : CodePoint :=
  if hhalf : 0xD800 ≤ unit ∧ unit < 0xE000 then half ⟨unit - 0xD800, by omega⟩
  else char (Char.ofNat unit)

/-- The character of a surrogate pair. -/
def ofPair (high low : Nat) : CodePoint :=
  char (Char.ofNat (0x10000 + (high - 0xD800) * 0x400 + (low - 0xDC00)))

theorem toNat_ofUnit {unit : Nat} (hunit : unit < 0x10000) : (ofUnit unit).toNat = unit := by
  unfold ofUnit
  split
  · simp only [toNat_half]
    omega
  · have hvalid : unit.isValidChar := by
      unfold Nat.isValidChar
      omega
    rw [toNat_char, Char.ofNat, dif_pos hvalid]
    rfl

end CodePoint

end SyntaxRepair
