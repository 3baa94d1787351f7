import SyntaxRepair.Decimal.Binary64

/-!
# The shortest decimal that reads back

A finite float is written with the fewest digits that round to it again; of two
such decimals of one length the nearer is taken.  Between 10⁻⁴ and 10¹⁶ the
digits are written out around a point, and a whole number keeps one zero behind
it; outside that range an exponent of at least two digits follows.
-/

namespace SyntaxRepair.Binary64

/-- A decimal number `digits * 10 ^ exponent`. -/
structure Decimal where
  digits : Nat
  exponent : Int
deriving Repr, DecidableEq

/-- The reals that round to a positive value, as multiples of `2 ^ unit`: those
between `low` and `high`, with the two ends if `closed`. -/
structure Interval where
  low : Nat
  middle : Nat
  high : Nat
  unit : Int
  closed : Bool
deriving Repr, DecidableEq

/-- The reals that round to `mantissa * 2 ^ exponent`.  Below a power of two the
neighbour is half as far as above it. -/
def intervalOf (mantissa : Nat) (exponent : Int) : Interval where
  -- In quarters of a unit, the halves towards both neighbours are whole.
  low :=
    if mantissa = fullMantissa ∧ leastExponent < exponent then 4 * mantissa - 1
    else 4 * mantissa - 2
  middle := 4 * mantissa
  high := 4 * mantissa + 2
  unit := exponent - 2
  closed := mantissa % 2 = 0

/-- `value * 2 ^ unit / 10 ^ grid` as a fraction. -/
def onGrid (value : Nat) (unit grid : Int) : Nat × Nat :=
  (value * Nat.pow 2 unit.toNat * Nat.pow 10 (-grid).toNat,
    Nat.pow 2 (-unit).toNat * Nat.pow 10 grid.toNat)

/-- Whether `digits * 10 ^ grid` lies in the interval. -/
def Interval.holds (interval : Interval) (grid : Int) (digits : Nat) : Bool :=
  let low := onGrid interval.low interval.unit grid
  let high := onGrid interval.high interval.unit grid
  if interval.closed then low.1 ≤ digits * low.2 && digits * high.2 ≤ high.1
  else low.1 < digits * low.2 && digits * high.2 < high.1

/-- The multiple of `10 ^ grid` in the interval that is nearest to its middle, if
there is one. -/
def Interval.nearest? (interval : Interval) (grid : Int) : Option Nat :=
  let middle := onGrid interval.middle interval.unit grid
  let below := middle.1 / middle.2
  let above := below + 1
  match interval.holds grid below, interval.holds grid above with
  | true, true => some (roundHalfEven middle.1 middle.2)
  | true, false => some below
  | false, true => some above
  | false, false => none

/-- The greatest power of ten that is not above `num / den`. -/
def leadingPower (num den : Nat) : Int :=
  let places (number : Nat) : Nat := (Nat.toDigits 10 number).length
  if den ≤ num then places (num / den) - 1
  else
    let shift := places den - places num
    if den ≤ num * Nat.pow 10 shift then -(shift : Int) else -(shift + 1 : Int)

/-- The shortest decimal that rounds to the positive value
`mantissa * 2 ^ exponent`.  Seventeen digits always suffice. -/
def shortest (mantissa : Nat) (exponent : Int) : Decimal :=
  let interval := intervalOf mantissa exponent
  let value := onGrid interval.middle interval.unit 0
  let power := leadingPower value.1 value.2
  let found := (List.range 17).findSome? fun (more : Nat) =>
    (interval.nearest? (power - more)).map fun digits => (⟨digits, power - more⟩ : Decimal)
  found.getD ⟨0, 0⟩

/-! ## Layout -/

/-- The least power of ten that is written out behind the point. -/
def leastPositional : Int := -4

/-- The first power of ten that is written with an exponent. -/
def firstScientific : Int := 16

/-- An exponent with its sign and at least two digits. -/
def exponentText (power : Int) : List Char :=
  let digits := Nat.toDigits 10 power.natAbs
  (if power < 0 then '-' else '+') :: (if digits.length < 2 then '0' :: digits else digits)

/-- The digits with a point behind the first `before` of them. -/
def pointed (digits : List Char) (before : Int) : List Char :=
  if before ≤ 0 then '0' :: '.' :: (List.replicate (-before).toNat '0' ++ digits)
  else if digits.length ≤ before.toNat then
    digits ++ List.replicate (before.toNat - digits.length) '0' ++ ['.', '0']
  else digits.take before.toNat ++ '.' :: digits.drop before.toNat

/-- A decimal written out, without zeros at the end of its digits. -/
def Decimal.layout (decimal : Decimal) : List Char :=
  let all := Nat.toDigits 10 decimal.digits
  let digits := (all.reverse.dropWhile (· = '0')).reverse
  let power := decimal.exponent + all.length - 1
  if leastPositional ≤ power ∧ power < firstScientific then pointed digits (power + 1)
  else
    match digits with
    | [] => ['0']
    | [digit] => digit :: 'e' :: exponentText power
    | digit :: others => digit :: '.' :: others ++ 'e' :: exponentText power

/-- The text of a value. -/
def toText : Binary64 → List Char
  | .notNumber => ['n', 'a', 'n']
  | .infinite negative => if negative then ['-', 'i', 'n', 'f'] else ['i', 'n', 'f']
  | .finite negative mantissa exponent =>
    let magnitude :=
      if mantissa = 0 then ['0', '.', '0'] else (shortest mantissa exponent).layout
    if negative then '-' :: magnitude else magnitude

end SyntaxRepair.Binary64
