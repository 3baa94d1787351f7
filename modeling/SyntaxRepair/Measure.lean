import SyntaxRepair.Json.Number
import SyntaxRepair.Text.Lines

/-!
# Numbers as measures

What a number may be used for.  A number written as a float bounds no slice, picks
no item of a list and counts no repetitions, whatever its value.  A whole number
bounds any slice; as an index or a count it must fit into a machine word.
-/

namespace SyntaxRepair

namespace Json.Number

/-- The first whole number above a machine word of 64 bits with a sign. -/
def wordLimit : Int := Int.pow 2 63

/-- The first count of characters that a text gets no memory for. -/
def memoryLimit : Int := Int.pow 2 30

/-- Whether a whole number fits into a machine word. -/
def fitsWord (value : Int) : Bool := -wordLimit ≤ value && value < wordLimit

/-- A number as the bound of a slice. -/
def bound : Number → Except Misfit Int
  | .int value => .ok value
  | .float _ => .error .floatBound

/-- A number as the index of a list. -/
def index : Number → Except Misfit Int
  | .int value => if fitsWord value then .ok value else .error .indexPastWord
  | .float _ => .error .floatIndex

/-- A number as a count of repetitions; one that is not positive counts none. -/
def count : Number → Except Misfit Int
  | .int value =>
    if !fitsWord value then .error .countPastWord
    else if memoryLimit ≤ value then .error .textPastMemory
    else .ok value
  | .float _ => .error .floatCount

@[simp] theorem bound_int (value : Int) : bound (.int value) = .ok value := rfl

theorem index_int {value : Int} (hfits : fitsWord value = true) :
    index (.int value) = .ok value := by
  simp [index, hfits]

theorem count_int {value : Int} (hfits : fitsWord value = true) (hsmall : value < memoryLimit) :
    count (.int value) = .ok value := by
  simp [count, hfits, Int.not_le.mpr hsmall]

end Json.Number

namespace Text

open Json (Number)

/-- Line number `line`, counted from one; empty when there is no such line. -/
def lineNumbered (text : Text) (line : Number) : Except Misfit Text :=
  -- A line that there is not is noticed by comparing, which a float allows.
  if line.ltInt 1 || line.gtInt (lines text).length then .ok []
  else do
    let line ← line.index
    return text.lineAt line

/-- The text with its pieces behind `indent` spaces; an indent that is not positive
changes nothing. -/
def indentBy (text : Text) (indent : Number) : Except Misfit Text :=
  if indent.gtInt 0 then do
    let indent ← indent.count
    return text.indent indent
  else .ok text

end Text

end SyntaxRepair
