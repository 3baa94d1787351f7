/-!
# Misfits

A number can be well formed and still be of no use where it stands: a float
cannot bound a slice, and a count beyond the machine word cannot be counted to.
A document can have more digits or more brackets inside one another than its
reader goes through.  A `Misfit` says which of these it was.
-/

namespace SyntaxRepair

/-- Why a number or a document is of no use where it stands. -/
inductive Misfit
  /-- The bound of a slice is a float. -/
  | floatBound
  /-- The index of a list is a float. -/
  | floatIndex
  /-- A count of repetitions is a float. -/
  | floatCount
  /-- The index of a list is outside the machine word. -/
  | indexPastWord
  /-- A count of repetitions is outside the machine word. -/
  | countPastWord
  /-- A count of repetitions asks for a text that gets no memory. -/
  | textPastMemory
  /-- A whole number is to be added to a float and is beyond the greatest float. -/
  | wholePastFloat
  /-- A whole number is written with more digits than are read. -/
  | longNumber (digits : Nat)
  /-- An array stands inside too many others. -/
  | deepArray
  /-- An object stands inside too many others. -/
  | deepObject
deriving Repr, DecidableEq

/-- The most digits with which a whole number is read. -/
def digitLimit : Nat := 4300

/-- The wording of a misfit. -/
def Misfit.message : Misfit → String
  | .floatBound => "slice indices must be integers or None or have an __index__ method"
  | .floatIndex => "list indices must be integers or slices, not float"
  | .floatCount => "can't multiply sequence by non-int of type 'float'"
  | .indexPastWord => "cannot fit 'int' into an index-sized integer"
  | .countPastWord => "cannot fit 'int' into an index-sized integer"
  | .textPastMemory => ""
  | .wholePastFloat => "int too large to convert to float"
  | .longNumber digits =>
    "Exceeds the limit (" ++ toString digitLimit ++
      " digits) for integer string conversion: value has " ++ toString digits ++
      " digits; use sys.set_int_max_str_digits() to increase the limit"
  | .deepArray =>
    "maximum recursion depth exceeded while decoding a JSON array from a unicode string"
  | .deepObject =>
    "maximum recursion depth exceeded while decoding a JSON object from a unicode string"

end SyntaxRepair
