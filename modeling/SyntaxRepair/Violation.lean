import SyntaxRepair.Json.Number
import SyntaxRepair.Range
import SyntaxRepair.Text.Quoted

/-!
# Violated assumptions

What the repair takes for granted about a parser's report and about the order of
its own edits, and how each way of breaking it is worded.
-/

namespace SyntaxRepair

open Json (Number)

/-- An assumption that does not hold. -/
inductive Violation
  /-- An edit begins before the text or removes less than nothing. -/
  | invalidRange (offset length : Number)
  /-- Two edits of one pass meet: one from `start` up to `stop` and an earlier one. -/
  | overlap (start stop : Number) (earlier : Range)
  /-- No definition contains the anchor of a mission. -/
  | noDefinition (offset : Int)
  /-- The definition at an offset shows no place for a statement. -/
  | noBody (offset : Number)
  /-- No named parameter stands at the anchor of a mission. -/
  | noParameter (offset : Int)
  /-- A mission is of a kind that is not known. -/
  | unknownMission (kind : Text)
  /-- A token that was reported as a field carries no field name. -/
  | notField (token : Text)
  /-- A definition that takes a typed parameter has no name. -/
  | unnamedDefinition (offset : Number)
  /-- It is not known where the name of an overloaded definition stands. -/
  | noNameLocation (name : Text)
deriving Repr, DecidableEq

/-- The wording of a violation. -/
def Violation.message : Violation → Text
  | .invalidRange offset length =>
    "Invalid edit range (" ++ toString offset ++ ", " ++ toString length ++ ")"
  | .overlap start stop earlier =>
    "Overlapping edits in one pass: [" ++ toString start ++ ", " ++ toString stop ++ ") and " ++
      earlier.message
  | .noDefinition offset => "Definition not found for mission at offset " ++ toString offset
  | .noBody offset =>
    "Definition at offset " ++ toString offset ++ " has neither body nor end keyword"
  | .noParameter offset => "Parameter not found at offset " ++ toString offset
  | .unknownMission kind => "Unexpected mission kind " ++ Text.quoted kind
  | .notField token => "Expected ivar but " ++ Text.quoted token
  | .unnamedDefinition offset => "Definition at offset " ++ toString offset ++ " has no name"
  | .noNameLocation name =>
    "Definition " ++ Text.quoted name ++ " has no name location"

end SyntaxRepair
