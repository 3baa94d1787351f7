/-!
# Ranges

The offsets from one place of a text up to another, and when two ranges that are
written in one pass meet.
-/

namespace SyntaxRepair

/-- The offsets from `start` up to `stop`. -/
structure Range where
  start : Int
  stop : Int
deriving Repr, DecidableEq

namespace Range

/-- The number of offsets in a range. -/
def length (range : Range) : Int := range.stop - range.start

/-- The wording of a range: closed at its start and open at its end. -/
def message (range : Range) : String :=
  "[" ++ toString range.start ++ ", " ++ toString range.stop ++ ")"

/-- Whether a new range meets an earlier one.  An empty range meets another only
strictly inside it, and two empty ranges never meet. -/
def meets (range earlier : Range) : Bool :=
  if range.start = range.stop ∧ earlier.start = earlier.stop then false
  else if range.start = range.stop then
    earlier.start < range.start && range.start < earlier.stop
  else if earlier.start = earlier.stop then
    range.start < earlier.start && earlier.start < range.stop
  else range.start < earlier.stop && earlier.start < range.stop

end Range

end SyntaxRepair
