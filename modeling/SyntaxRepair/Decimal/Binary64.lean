/-!
# Binary floating point numbers of 64 bits, exactly

A `Binary64` is the value a double stands for, as a sign, a whole mantissa and
an exponent of two.  Decimal numbers (`ofDecimal`), whole numbers (`ofInt`) and sums
(`add`) are rounded to the nearest value, with ties to the even mantissa, in exact
arithmetic.
-/

namespace SyntaxRepair

/-- The value of a 64-bit float: `± mantissa * 2 ^ exponent`, an infinity or not
a number. -/
inductive Binary64
  | notNumber
  | infinite (negative : Bool)
  | finite (negative : Bool) (mantissa : Nat) (exponent : Int)
deriving Repr, DecidableEq

namespace Binary64

/-- The least exponent: that of the subnormal values. -/
def leastExponent : Int := -1074

/-- The greatest exponent of a finite value. -/
def greatestExponent : Int := 971

/-- The least mantissa that fills all 53 bits. -/
def fullMantissa : Nat := Nat.pow 2 52

/-- The zero of a sign. -/
def zero (negative : Bool) : Binary64 := .finite negative 0 leastExponent

/-- `num / den` to the nearest whole number, a half to the even one. -/
def roundHalfEven (num den : Nat) : Nat :=
  let quotient := num / den
  let rest := num % den
  if 2 * rest < den then quotient
  else if den < 2 * rest then quotient + 1
  else quotient + quotient % 2

/-- The fraction `num / den` divided by `2 ^ exponent`, as a fraction. -/
def scaleDown (num den : Nat) (exponent : Int) : Nat × Nat :=
  if 0 ≤ exponent then (num, den * Nat.pow 2 exponent.toNat)
  else (num * Nat.pow 2 (-exponent).toNat, den)

/-- The exponent at which the mantissa of `num / den` fills 53 bits, or the least
one if it never does. -/
def exponentOf (num den : Nat) : Int :=
  -- The binary lengths fix the exponent up to one: with the guess the quotient has
  -- 53 or 54 bits.
  let guess : Int := (Nat.log2 num : Int) - Nat.log2 den - 53
  let scaled := scaleDown num den guess
  let exponent := if 2 * fullMantissa ≤ scaled.1 / scaled.2 then guess + 1 else guess
  max leastExponent exponent

/-- The value nearest to the positive fraction `num / den`. -/
def ofFraction (negative : Bool) (num den : Nat) : Binary64 :=
  let exponent := exponentOf num den
  let scaled := scaleDown num den exponent
  let mantissa := roundHalfEven scaled.1 scaled.2
  -- Rounding up may fill the mantissa to the next power of two.
  let carried := mantissa = 2 * fullMantissa
  let mantissa := if carried then fullMantissa else mantissa
  let exponent := if carried then exponent + 1 else exponent
  if greatestExponent < exponent then .infinite negative else .finite negative mantissa exponent

/-- The value nearest to `± digits * 10 ^ exponent`.  Beyond four hundred places
on either side every number is an infinity or a zero. -/
def ofDecimal (negative : Bool) (digits : Nat) (exponent : Int) : Binary64 :=
  let places : Int := (Nat.toDigits 10 digits).length
  if digits = 0 || places + exponent < -400 then zero negative
  else if 400 < places + exponent then .infinite negative
  else if 0 ≤ exponent then ofFraction negative (digits * Nat.pow 10 exponent.toNat) 1
  else ofFraction negative digits (Nat.pow 10 (-exponent).toNat)

/-- The whole number that a value is, if it is one. -/
def toInt? : Binary64 → Option Int
  | .notNumber => none
  | .infinite _ => none
  | .finite negative mantissa exponent =>
    let magnitude? : Option Nat :=
      if 0 ≤ exponent then some (mantissa * Nat.pow 2 exponent.toNat)
      else if mantissa % Nat.pow 2 (-exponent).toNat = 0 then
        some (mantissa / Nat.pow 2 (-exponent).toNat)
      else none
    magnitude?.map fun magnitude => if negative then -(magnitude : Int) else magnitude

/-- The value with the other sign. -/
def neg : Binary64 → Binary64
  | .notNumber => .notNumber
  | .infinite negative => .infinite !negative
  | .finite negative mantissa exponent => .finite (!negative) mantissa exponent

/-- A mantissa with its sign. -/
def signed (negative : Bool) (mantissa : Nat) : Int :=
  if negative then -(mantissa : Int) else mantissa

/-- Whether a value is less than a whole number; not a number is less than none. -/
def ltInt : Binary64 → Int → Bool
  | .notNumber, _ => false
  | .infinite negative, _ => negative
  | .finite negative mantissa exponent, bound =>
    if 0 ≤ exponent then signed negative mantissa * Int.pow 2 exponent.toNat < bound
    else signed negative mantissa < bound * Int.pow 2 (-exponent).toNat

/-- Whether a value is greater than a whole number; not a number is greater than
none. -/
def gtInt (value : Binary64) (bound : Int) : Bool := value.neg.ltInt (-bound)

/-! ## Sums -/

/-- The value nearest to `number * 2 ^ exponent`, where a zero has the sign
`negativeZero`. -/
def ofScaled (negativeZero : Bool) (number exponent : Int) : Binary64 :=
  if number = 0 then zero negativeZero
  else if 0 ≤ exponent then ofFraction (number < 0) (number.natAbs * Nat.pow 2 exponent.toNat) 1
  else ofFraction (number < 0) number.natAbs (Nat.pow 2 (-exponent).toNat)

/-- The value nearest to a whole number. -/
def ofInt (number : Int) : Binary64 := ofScaled false number 0

/-- The value nearest to the sum of two values. -/
def add : Binary64 → Binary64 → Binary64
  | .notNumber, _ => .notNumber
  | _, .notNumber => .notNumber
  | .infinite first, .infinite second => if first = second then .infinite first else .notNumber
  | .infinite negative, .finite _ _ _ => .infinite negative
  | .finite _ _ _, .infinite negative => .infinite negative
  | .finite negative₁ mantissa₁ exponent₁, .finite negative₂ mantissa₂ exponent₂ =>
    -- In units of the smaller exponent both values are whole, and so is their sum.
    let unit := min exponent₁ exponent₂
    let sum :=
      signed negative₁ mantissa₁ * Int.pow 2 (exponent₁ - unit).toNat +
        signed negative₂ mantissa₂ * Int.pow 2 (exponent₂ - unit).toNat
    -- Only two negative zeros add up to one.
    ofScaled (negative₁ && negative₂) sum unit

end Binary64

end SyntaxRepair
