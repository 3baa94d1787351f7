import SyntaxRepair.Anchor
import SyntaxRepair.Text.Basic

/-!
# Missions

Some lines can only be placed once the text parses cleanly: where the body of a
definition begins is not known while its signature is broken.  Such a line waits
in a queue as a mission, anchored at an offset that moves along with the edits of
every pass.
-/

namespace SyntaxRepair

/-- What a mission adds. -/
inductive Purpose
  /-- A statement at the top of the body of the definition around the anchor. -/
  | assignment
  /-- A comment above the definition with the type of the parameter at the anchor. -/
  | typeComment
deriving Repr, DecidableEq

namespace Purpose

/-- The name of a purpose in the journal. -/
def name : Purpose → String
  | assignment => "ivar_assign"
  | typeComment => "type_annotation"

/-- The purpose with a name. -/
def ofName? (name : Text) : Option Purpose :=
  [assignment, typeComment].find? fun purpose => purpose.name = name

@[simp] theorem ofName?_name (purpose : Purpose) : ofName? purpose.name = some purpose := by
  cases purpose <;> decide

end Purpose

/-- A line that waits for a clean parse: the statement of an assignment, or the
type of a type comment. -/
structure Mission extends Anchor where
  purpose : Purpose
  payload : Text
deriving Repr, DecidableEq

/-- The waiting missions in the order of their anchors. -/
structure Queue where
  missions : List Mission := []
  /-- The sequence number of the next mission. -/
  next : Nat := 0
deriving Repr, DecidableEq

namespace Queue

/-- A queue that never held a mission. -/
def empty : Queue := {}

/-- The mission that is added next. -/
def nextMission (queue : Queue) (offset : Int) (purpose : Purpose) (payload : Text) :
    Mission :=
  ⟨⟨offset, queue.next⟩, purpose, payload⟩

/-- Adds a mission behind those with an anchor at the same offset. -/
def add (queue : Queue) (offset : Int) (purpose : Purpose) (payload : Text) : Queue where
  missions :=
    Anchor.insert Mission.toAnchor (queue.nextMission offset purpose payload) queue.missions
  next := queue.next + 1

/-- Drops the mission with an anchor; `none` if there is none. -/
def remove? (queue : Queue) (anchor : Anchor) : Option Queue :=
  if queue.missions.any fun mission => mission.toAnchor = anchor then
    some { queue with
      missions := queue.missions.eraseP fun mission => mission.toAnchor = anchor }
  else none

/-- Moves every anchor and puts the missions into their new order. -/
def relocate (queue : Queue) (carry : Int → Int) : Queue :=
  { queue with
    missions :=
      Anchor.sort Mission.toAnchor
        (queue.missions.map fun mission =>
          { mission with offset := carry mission.offset }) }

/-- The queue without its missions; later ones go on counting. -/
def cleared (queue : Queue) : Queue := { queue with missions := [] }

end Queue

end SyntaxRepair
