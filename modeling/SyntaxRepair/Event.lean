import SyntaxRepair.Mission.Queue
import SyntaxRepair.Text.Quoted

/-!
# The journal of a repair

What a repair writes down while it works, and how an entry reads.
-/

namespace SyntaxRepair

/-- An entry of the journal. -/
inductive Event
  /-- A pass begins with some diagnostics and some missions waiting. -/
  | passBegins (pass diagnostics pending : Nat)
  /-- A pass has resolved some of its diagnostics. -/
  | passEnds (pass resolved diagnostics : Nat)
  /-- The greatest number of passes has been made. -/
  | givesUp (passes : Int)
  /-- A dispatcher stands above the definitions with a name. -/
  | dispatches (name : Text) (definitions : Nat)
  /-- A mission is about to be carried out. -/
  | executes (mission : Mission)
deriving Repr, DecidableEq

namespace Event

/-- How much an entry matters. -/
def level : Event → String
  | .givesUp _ => "INFO"
  | _ => "DEBUG"

/-- The part of the program that writes an entry. -/
def source : Event → String
  | .dispatches _ _ => "modkit.overload"
  | .executes _ => "modkit.missions"
  | _ => "modkit.correct"

/-- The wording of an entry. -/
def message : Event → Text
  | .passBegins pass diagnostics pending =>
    "pass " ++ toString pass ++ ": " ++ toString diagnostics ++ " diagnostics, " ++
      toString pending ++ " missions pending"
  | .passEnds pass resolved diagnostics =>
    "pass " ++ toString pass ++ ": rewrote " ++ toString resolved ++ " of " ++
      toString diagnostics ++ " diagnostics"
  | .givesUp passes => "giving up after " ++ toString passes ++ " passes"
  | .dispatches name definitions =>
    "synthesized dispatcher " ++ Text.quoted name ++ " over " ++ toString definitions ++
      " definitions"
  | .executes mission =>
    "mission " ++ mission.purpose.name ++ " at " ++ toString mission.offset ++ ": " ++
      Text.quoted mission.payload

/-- An entry as a line of the journal. -/
def line (event : Event) : Text := event.level ++ " " ++ event.source ++ " " ++ event.message

end Event

end SyntaxRepair
