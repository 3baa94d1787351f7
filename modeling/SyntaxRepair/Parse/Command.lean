import SyntaxRepair.Json.Parser
import SyntaxRepair.Parse.Document
import SyntaxRepair.Repair.Loop
import SyntaxRepair.Settings
import SyntaxRepair.Text.LowerCase
import SyntaxRepair.Text.Utf8

/-!
# External parsers

A parser is a command that gets the text on its standard input and prints a report
of it.  How a process is run is left to a `Runner`, so that the same parser works
on recorded outcomes.
-/

namespace SyntaxRepair

open Json (Number)
open Utf8 (Octets)

/-- A process to be run: its command, what it gets to read and how many seconds it
may take. -/
structure Call where
  command : List Text
  input : Text
  limit : Number
deriving Repr, DecidableEq

/-- What became of a process. -/
inductive ProcessOutcome
  | ended (status : Int) (stdout stderr : Octets)
  | notFound
  | timedOut
  | permissionDenied
deriving Repr, DecidableEq

/-- A way of running processes, with a state of its own. -/
abbrev Runner (σ : Type) := Call → Step σ ProcessOutcome

/-- A parser that is a command. -/
structure CommandParser where
  choice : ParserChoice
  command : List Text
  limit : Number
deriving Repr, DecidableEq

/-- The place of the script that makes Prism print its report, in the command that
runs it. -/
def prismScript : Text := "<prism script>"

/-- The command that runs Prism. -/
def prismCommand : List Text := ["ruby", "-e", prismScript]

/-- Why there is no parser for some settings. -/
inductive ParserRefusal
  /-- A command parser needs a command. -/
  | noCommand
  /-- There is no parser with a name. -/
  | unknown (name : Text)
deriving Repr, DecidableEq

/-- The wording of a refusal. -/
def ParserRefusal.message : ParserRefusal → Text
  | .noCommand => "cmd oracle requires --cmd"
  | .unknown name => "Unknown oracle kind: " ++ name

namespace CommandParser

/-- The parser of a choice.  The words of a command are separated by blanks. -/
def ofChoice (choice : ParserChoice) (command : Option Text) (limit : Number) :
    Except ParserRefusal CommandParser :=
  match choice with
  | .prism => .ok ⟨.prism, prismCommand, limit⟩
  | .command =>
    match command.getD [] with
    | [] => .error .noCommand
    | line => .ok ⟨.command, Text.words line, limit⟩

/-- The parser with a name, in which case and blanks at the ends do not count. -/
def ofName (name : Text) (command : Option Text) (limit : Number) :
    Except ParserRefusal CommandParser :=
  let plain := Text.trim (Text.lowerCase name)
  match ParserChoice.ofName? plain with
  | some choice => ofChoice choice command limit
  | none => .error (.unknown plain)

/-- The report in what a command printed for a text. -/
def readReport (text : Text) (stdout : Octets) : Except Failure Parse :=
  let printed := Utf8.decodeLossy stdout
  match Json.parse printed with
  | .error (.malformed fault) => .error (.parser (.notJson (fault.message printed)))
  -- What is beyond the reader is not told as a fault of the parser.
  | .error (.misfit cause) => .error (.misfit cause)
  | .ok value => (Parse.ofDocument text value).mapError Failure.parser

/-- The report of a text from the outcome of a command. -/
def report (parser : CommandParser) (text : Text) (outcome : ProcessOutcome) :
    Except Failure Parse :=
  match outcome with
  | .notFound =>
    match parser.command with
    | [] => .error .outOfRange
    | command :: _ => .error (.parser (.notFound command))
  | .timedOut => .error (.parser (.timedOut parser.limit))
  | .permissionDenied =>
    match parser.command with
    | [] => .error .outOfRange
    | command :: _ => .error (.permissionDenied command)
  | .ended status stdout stderr =>
    if status ≠ 0 then .error (.parser (.failed status (Utf8.decodeLossy stderr)))
    else readReport text stdout

/-- The parser as the repair uses it. -/
def parse {σ : Type} (parser : CommandParser) (run : Runner σ) : Parser σ := fun text => do
  -- A process is only run for a text that can be sent to it.
  let _ ← Step.ofExcept ((Utf8.encode text).mapError Failure.unencodable)
  let outcome ← run ⟨parser.command, text, parser.limit⟩
  match parser.report text outcome with
  | .ok result => return result
  | .error failure => throw failure

end CommandParser

end SyntaxRepair
