import SyntaxRepair.Decimal.Shortest
import SyntaxRepair.Misfit

/-!
# JSON numbers

A number remembers whether it was written as a whole number or with a fraction or
an exponent, because messages and settings show both.  Numbers are compared by
value, whichever way they were written (`Number.whole`), but a sum with a float in
it is a float, rounded to the nearest.
-/

namespace SyntaxRepair.Json

/-- A number as it was written: a whole number of any size, or the float nearest
to a number with a fraction or an exponent. -/
inductive Number
  | int (value : Int)
  | float (value : Binary64)
deriving Repr, DecidableEq

namespace Number

instance : Inhabited Number := ⟨.int 0⟩

instance : Coe Int Number := ⟨.int⟩

instance (value : Nat) : OfNat Number value := ⟨.int value⟩

/-- A number in writing. -/
def toString : Number → String
  | .int value => ToString.toString value
  | .float value => String.ofList value.toText

instance : ToString Number := ⟨toString⟩

/-! ## Values -/

/-- The whole number that a number is, if it is one. -/
def whole? : Number → Option Int
  | .int value => some value
  | .float value => value.toInt?

/-- The value of a number that is known to be whole. -/
def whole (number : Number) : Int := number.whole?.getD 0

@[simp] theorem whole_int (value : Int) : whole (.int value) = value := rfl

/-- Whether a number is less than a whole number. -/
def ltInt : Number → Int → Bool
  | .int value, bound => value < bound
  | .float value, bound => value.ltInt bound

/-- Whether a number is greater than a whole number. -/
def gtInt : Number → Int → Bool
  | .int value, bound => bound < value
  | .float value, bound => value.gtInt bound

/-- Whether a number is equal to a whole number. -/
def eqInt (number : Number) (value : Int) : Bool := number.whole? = some value

/-- The first of the numbers with the greatest value. -/
def firstGreatest : List Number → Option Number
  | [] => none
  | first :: rest =>
    some (rest.foldl (fun best next => if best.whole < next.whole then next else best) first)

/-! ## Sums -/

/-- The float nearest to a number; a whole number beyond the greatest float has
none. -/
def toFloat : Number → Except Misfit Binary64
  | .float value => .ok value
  | .int value =>
    match Binary64.ofInt value with
    | .infinite _ => .error .wholePastFloat
    | nearest => .ok nearest

/-- The sum of two numbers. -/
def add : Number → Number → Except Misfit Number
  | .int first, .int second => .ok (.int (first + second))
  | first, second => do return .float ((← first.toFloat).add (← second.toFloat))

/-- The difference of two numbers. -/
def sub : Number → Number → Except Misfit Number
  | .int first, .int second => .ok (.int (first - second))
  | first, second => do return .float ((← first.toFloat).add (← second.toFloat).neg)

@[simp] theorem add_int (first second : Int) :
    add (.int first) (.int second) = .ok (.int (first + second)) := rfl

@[simp] theorem sub_int (first second : Int) :
    sub (.int first) (.int second) = .ok (.int (first - second)) := rfl

end Number

end SyntaxRepair.Json
