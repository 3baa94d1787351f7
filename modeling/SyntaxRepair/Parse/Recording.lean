import SyntaxRepair.Parse.Command

/-!
# Recorded answers

A parser and a runner of processes that give recorded answers, one for each call
and whatever they are asked.  One call too many is a failure.
-/

namespace SyntaxRepair

/-- A recorded answer of a parser, which may depend on the text after all. -/
abbrev RecordedParse := Text → Except Failure Parse

/-- A parser that gives recorded answers. -/
def Parser.replay : Parser (List RecordedParse) := fun text =>
  Step.of fun
    | [] => (.error .recordingEnded, [])
    | answer :: rest => (answer text, rest)

/-- A runner that gives recorded outcomes. -/
def Runner.replay : Runner (List ProcessOutcome) := fun _ =>
  Step.of fun
    | [] => (.error .recordingEnded, [])
    | outcome :: rest => (.ok outcome, rest)

end SyntaxRepair
