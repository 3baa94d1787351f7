import SyntaxRepair.Json.Value

/-!
# Parser commands that fail

The ways in which an external parser can fail to give a report.
-/

namespace SyntaxRepair

/-- Why there is no report. -/
inductive ParserFault
  /-- The command does not exist. -/
  | notFound (command : Text)
  /-- The command did not end in time. -/
  | timedOut (limit : Json.Number)
  /-- The command ended with a status other than zero. -/
  | failed (status : Int) (stderr : Text)
  /-- What the command printed is not JSON. -/
  | notJson (problem : Text)
  /-- What the command printed is JSON of another form than a report. -/
  | notReport (problems : Text)
deriving Repr, DecidableEq

/-- The wording of a fault. -/
def ParserFault.message : ParserFault → Text
  | .notFound command => "Parser command not found: " ++ command
  | .timedOut limit => "Parser command timed out after " ++ limit.toString ++ "s"
  | .failed status stderr =>
    "Parser command failed: rc=" ++ toString status ++ " stderr=" ++ stderr
  | .notJson problem => "Parser command printed invalid JSON: " ++ problem
  | .notReport problems => "Parser output does not match schema: " ++ problems

end SyntaxRepair
