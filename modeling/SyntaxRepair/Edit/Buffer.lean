import SyntaxRepair.Edit.History
import SyntaxRepair.Measure
import SyntaxRepair.Violation

/-!
# The text under repair

A buffer is written in the coordinates of the text as it was when the pass began.
Each write is carried over by the history before it touches the text, so writes
may come in any order as long as their ranges do not meet.  A write that is
refused leaves no trace.
-/

namespace SyntaxRepair

open Json (Number)

/-- A text with the edits made to it since the pass began. -/
structure Buffer where
  text : Text
  history : History := {}
  /-- The ranges written in this pass, in the order of the writes. -/
  written : List Range := []
deriving Repr, DecidableEq

namespace Buffer

/-- Where an offset of the text as it was stands in the text as it is. -/
def carry (buffer : Buffer) (offset : Int) : Int := buffer.history.carry offset

/-- What stands now between two offsets of the text as it was. -/
def slice (buffer : Buffer) (start stop : Int) : Text :=
  buffer.text.slice (buffer.carry start) (buffer.carry stop)

/-- What stands now between two offsets as they were written.  Both are carried over
before a float turns out to bound no slice. -/
def sliceNumbers (buffer : Buffer) (start stop : Number) : Except Misfit Text := do
  let start ← buffer.history.carryNumber start
  let stop ← buffer.history.carryNumber stop
  return buffer.text.slice (← start.bound) (← stop.bound)

@[simp] theorem sliceNumbers_int (buffer : Buffer) (start stop : Int) :
    buffer.sliceNumbers (.int start) (.int stop) = .ok (buffer.slice start stop) := by
  simp only [sliceNumbers, History.carryNumber_int]
  rfl

/-- Puts `inserted` in place of `length` characters at `offset`. -/
def replace (buffer : Buffer) (offset length : Int) (inserted : Text) :
    Except Violation Buffer :=
  let range : Range := ⟨offset, offset + length⟩
  if offset < 0 ∨ length < 0 then .error (.invalidRange offset length)
  else
    match buffer.written.find? range.meets with
    | some earlier => .error (.overlap range.start range.stop earlier)
    | none =>
      -- The removed characters are counted in the text as it is: no earlier edit
      -- lies among them.
      let start := buffer.carry offset
      .ok
        { text := buffer.text.splice start (start + length) inserted
          history := buffer.history.add offset (inserted.length - length)
          written := buffer.written ++ [range] }

/-- Puts `inserted` in front of what stands at `offset`. -/
def insert (buffer : Buffer) (offset : Int) (inserted : Text) : Except Violation Buffer :=
  buffer.replace offset 0 inserted

/-- Removes `length` characters at `offset`. -/
def delete (buffer : Buffer) (offset length : Int) : Except Violation Buffer :=
  buffer.replace offset length []

/-- Begins a new pass: the text as it is becomes the text as it was. -/
def reset (buffer : Buffer) : Buffer := { text := buffer.text }

end Buffer

end SyntaxRepair
