import SyntaxRepair.Anchor
import SyntaxRepair.Json.Number

/-!
# The edits of a pass

Edits are recorded in the coordinates of the text as it was when the pass began.
`History.carry` carries such an offset over to the text as it is now: it adds up
the changes in length in the order of their anchors and stops at the first edit
that lies beyond the offset.  At the offset itself an insertion moves it and a
removal does not, and nothing behind such a removal counts any more.

`History.carryNumber` carries an offset over that may have been written as a float.
On whole numbers it is `History.carry` (`carryNumber_int`).
-/

namespace SyntaxRepair

open Json (Number)

/-- A change of length at an offset. -/
structure Edit extends Anchor where
  delta : Int
deriving Repr, DecidableEq

/-- The edits of a pass in the order of their anchors. -/
structure History where
  edits : List Edit := []
  /-- The sequence number of the next edit. -/
  next : Nat := 0
deriving Repr, DecidableEq

namespace History

/-- A history without edits. -/
def empty : History := {}

/-- The edit that is recorded next. -/
def nextEdit (history : History) (offset delta : Int) : Edit := ⟨⟨offset, history.next⟩, delta⟩

/-- Records a change of length at an offset. -/
def add (history : History) (offset delta : Int) : History where
  edits := Anchor.insert Edit.toAnchor (history.nextEdit offset delta) history.edits
  next := history.next + 1

/-- How far some edits, in their order, move what stands at `offset`. -/
def shift (offset : Int) : List Edit → Int
  | [] => 0
  | edit :: rest =>
    if offset < edit.offset then 0
    -- What is removed at the offset lies behind it, and so does all that follows.
    else if edit.offset = offset ∧ edit.delta < 0 then 0
    else edit.delta + shift offset rest

/-- Where an offset of the text as it was stands in the text as it is. -/
def carry (history : History) (offset : Int) : Int := offset + shift offset history.edits

@[simp] theorem carry_empty (offset : Int) : empty.carry offset = offset := by
  simp [carry, empty, shift]

/-! ## Offsets as they were written -/

/-- Where some edits, in their order, move what stood at `offset` and stands at
`place` by now.  A change of length is added to a float as a float. -/
def moveNumber (offset place : Number) : List Edit → Except Misfit Number
  | [] => .ok place
  | edit :: rest =>
    if offset.ltInt edit.offset then .ok place
    else if offset.eqInt edit.offset ∧ edit.delta < 0 then .ok place
    else do moveNumber offset (← place.add edit.delta) rest

/-- Where an offset of the text as it was stands in the text as it is, for an offset
as it was written. -/
def carryNumber (history : History) (offset : Number) : Except Misfit Number :=
  moveNumber offset offset history.edits

theorem moveNumber_int (offset place : Int) (edits : List Edit) :
    moveNumber (.int offset) (.int place) edits =
      .ok (.int (place + shift offset edits)) := by
  induction edits generalizing place with
  | nil => simp [moveNumber, shift]
  | cons edit rest ih =>
    simp only [moveNumber, shift, Number.ltInt, Number.eqInt, Number.whole?,
      Option.some.injEq, decide_eq_true_eq, eq_comm (a := offset)]
    by_cases hbeyond : offset < edit.offset
    · simp [hbeyond]
    · by_cases hremoved : edit.offset = offset ∧ edit.delta < 0
      · simp [hremoved]
      · rw [if_neg hbeyond, if_neg hbeyond, if_neg hremoved, if_neg hremoved, Number.add_int,
          ← Int.add_assoc]
        exact ih (place + edit.delta)

/-- A whole number is carried over exactly. -/
@[simp] theorem carryNumber_int (history : History) (offset : Int) :
    history.carryNumber (.int offset) = .ok (.int (history.carry offset)) :=
  moveNumber_int offset offset history.edits

end History

end SyntaxRepair
