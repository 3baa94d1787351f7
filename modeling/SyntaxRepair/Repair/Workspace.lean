import SyntaxRepair.Edit.Buffer
import SyntaxRepair.Event
import SyntaxRepair.Failure

/-!
# The workspace of a repair

What every stage of a repair works on: the text, the missions that wait, and the
journal.
-/

namespace SyntaxRepair

open Json (Number)

/-- The text under repair, the waiting missions and the journal. -/
structure Workspace where
  buffer : Buffer
  queue : Queue := {}
  /-- The entries of the journal, the oldest first. -/
  journal : List Event := []
deriving Repr, DecidableEq

/-- Whether a write from `start` up to `stop` meets an earlier one, all as they were
written.  The length says whether anything is removed: with a float in it, the sum
`stop` may be rounded to `start` or past it. -/
def Range.metBy (earlier : Range) (start length stop : Number) : Bool :=
  if length.eqInt 0 then start.gtInt earlier.start && start.ltInt earlier.stop
  else if earlier.start = earlier.stop then
    start.ltInt earlier.start && stop.gtInt earlier.start
  else start.ltInt earlier.stop && stop.gtInt earlier.start

/-- On whole numbers a write meets an earlier one where their ranges meet. -/
theorem Range.metBy_int (earlier : Range) (start length : Int) :
    earlier.metBy (.int start) (.int length) (.int (start + length)) =
      Range.meets ⟨start, start + length⟩ earlier := by
  have hempty : start = start + length ↔ length = 0 := by omega
  by_cases hlength : length = 0 <;> by_cases hearlier : earlier.start = earlier.stop <;>
    simp only [metBy, meets, Number.eqInt, Number.whole?, Number.ltInt, Number.gtInt, hempty,
      hlength, hearlier, Option.some.injEq, decide_true, decide_false, Bool.false_eq_true,
      if_true, if_false]
  all_goals grind

/-- Why a write does not fit whose offset or length is a float and which meets no
earlier one.  The text in front of it is cut off first. -/
def Buffer.misfit (buffer : Buffer) (offset length : Number) : Misfit :=
  let ends : Except Misfit Int := do
    let place ← buffer.history.carryNumber offset
    let _ ← place.bound
    (← place.add length).bound
  match ends with
  | .error cause => cause
  | .ok _ => .floatBound

/-- Why a write is refused whose offset or length is a float. -/
def Buffer.refusal (buffer : Buffer) (offset length : Number) : Failure :=
  if offset.ltInt 0 || length.ltInt 0 then .violation (.invalidRange offset length)
  else
    match offset.add length with
    | .error cause => .misfit cause
    | .ok stop =>
      match buffer.written.find? fun earlier => earlier.metBy offset length stop with
      | some earlier => .violation (.overlap offset stop earlier)
      | none => .misfit (buffer.misfit offset length)

namespace Workspace

/-- Writes an entry into the journal. -/
def note (event : Event) : Step Workspace Unit :=
  modify fun workspace => { workspace with journal := workspace.journal ++ [event] }

/-- Edits the text; a refused edit is a failure. -/
def edit (change : Buffer → Except Violation Buffer) : Step Workspace Unit := do
  match change (← get).buffer with
  | .ok buffer => modify fun workspace => { workspace with buffer }
  | .error violation => throw (.violation violation)

/-- Puts `inserted` in place of `length` characters at `offset`, numbers as the parser
wrote them.  The checks of an edit come before a float turns out to be of no use. -/
def replaceAt (offset length : Number) (inserted : Text) : Step Workspace Unit := do
  match offset, length with
  | .int offset, .int length => edit fun buffer => buffer.replace offset length inserted
  | offset, length => throw ((← get).buffer.refusal offset length)

/-- Adds a mission to the queue and returns it. -/
def addMission (offset : Int) (purpose : Purpose) (payload : Text) : Step Workspace Mission := do
  let queue := (← get).queue
  modify fun workspace => { workspace with queue := queue.add offset purpose payload }
  return queue.nextMission offset purpose payload

/-- Drops a mission from the queue. -/
def removeMission (mission : Mission) : Step Workspace Unit := do
  match (← get).queue.remove? mission.toAnchor with
  | some queue => modify fun workspace => { workspace with queue }
  | none => throw .notQueued

/-- Drops several missions from the queue. -/
def removeMissions : List Mission → Step Workspace Unit
  | [] => pure ()
  | mission :: rest => do
    removeMission mission
    removeMissions rest

/-- Begins a new coordinate space for the text. -/
def reset : Step Workspace Unit :=
  modify fun workspace => { workspace with buffer := workspace.buffer.reset }

/-- Moves the waiting missions along with the edits of the pass. -/
def relocate : Step Workspace Unit :=
  modify fun workspace =>
    { workspace with queue := workspace.queue.relocate workspace.buffer.carry }

end Workspace

end SyntaxRepair
