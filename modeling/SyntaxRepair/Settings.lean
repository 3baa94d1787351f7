import SyntaxRepair.Json.Parser
import SyntaxRepair.Repair.Pass
import SyntaxRepair.Schema.Rule

/-!
# Settings

The settings of a repair are a small JSON object in which every member may be
absent.  `Settings.form` is its form and `Settings.ofValue` reads it.
-/

namespace SyntaxRepair

open Json (Value Number)

/-- Which parser makes the reports. -/
inductive ParserChoice
  | prism
  | command
deriving Repr, DecidableEq

/-- The name of a choice. -/
def ParserChoice.name : ParserChoice → String
  | prism => "prism"
  | command => "cmd"

/-- The choice with a name. -/
def ParserChoice.ofName? (name : Text) : Option ParserChoice :=
  [prism, command].find? fun choice => choice.name = name

/-- Methods whose names are no identifiers and that are often overloaded. -/
def NameTable.default : NameTable := [("*", "_mul")]

/-- The settings of a repair.  Numbers stay as they were written. -/
structure Settings where
  names : NameTable := NameTable.default
  parser : ParserChoice := .prism
  /-- The command of a parser that is not Prism. -/
  command : Option Text := none
  /-- How many seconds the parser may take. -/
  limit : Number := .int 60
  /-- The greatest number of passes. -/
  maxPasses : Option Number := none
deriving Repr, DecidableEq

/-- What the settings tell the repair. -/
def Settings.options (settings : Settings) : Options where
  names := settings.names
  maxPasses := settings.maxPasses.bind Number.whole?

/-- Why settings can not be used. -/
inductive SettingsFault
  /-- The document has another form. -/
  | mismatch (problems : Text)
  /-- A command parser is chosen, but no command is given. -/
  | noCommand
  /-- The file can not be read or is not JSON. -/
  | unreadable (path problem : Text)
deriving Repr, DecidableEq

/-- The wording of a fault. -/
def SettingsFault.message : SettingsFault → Text
  | .mismatch problems => "Invalid config: " ++ problems
  | .noCommand => "Invalid config: /oracle_cmd: required when oracle is 'cmd'"
  | .unreadable path problem => "Failed to read config " ++ path ++ ": " ++ problem

namespace Settings

/-! ## The form of a document -/

/-- A letter or an underscore. -/
def isNameStart : CodePoint → Bool := CodePoint.satisfies fun c => c.isAlpha || c = '_'

/-- A letter, a digit or an underscore. -/
def isNameRest : CodePoint → Bool := CodePoint.satisfies fun c => c.isAlphanum || c = '_'

/-- Whether a text is an identifier. -/
def isIdentifier : Text → Bool
  | [] => false
  | c :: rest => isNameStart c && rest.all isNameRest

/-- The form of a new name: an identifier, with or without a newline behind it. -/
def identifierForm : Schema.Form where
  shown := "^[A-Za-z_][A-Za-z0-9_]*$"
  accepts := fun text =>
    isIdentifier text || (text.getLast? = some (.char '\n') && isIdentifier text.dropLast)

open Schema in
/-- The form of the settings. -/
def form : Rule :=
  all [ofType [.object],
    closed ["overload_names", "oracle", "oracle_cmd", "timeout_s", "max_passes"],
    memberRule "overload_names"
      (all [ofType [.object], eachMember (all [ofType [.string], ofForm identifierForm])]),
    memberRule "oracle" (all [ofType [.string], oneOf ["prism", "cmd"]]),
    memberRule "oracle_cmd" (ofType [.string, .null]),
    memberRule "timeout_s" (all [ofType [.integer], atLeast 1]),
    memberRule "max_passes" (all [ofType [.integer, .null], atLeast 1])]

/-! ## Reading a document that has the form -/

/-- A table with one more name; an earlier entry for the name is replaced. -/
def addName (table : NameTable) (name stem : Text) : NameTable :=
  if table.any (·.1 = name) then
    table.map fun entry => if entry.1 = name then (name, stem) else entry
  else table ++ [(name, stem)]

/-- The default names, overridden by the members of an object. -/
def readNames : Option Value → NameTable
  | some (.object members) =>
    members.foldl
      (fun table member =>
        match member.2 with
        | .string stem => addName table member.1 stem
        | _ => table)
      NameTable.default
  | _ => NameTable.default

/-- The settings that a value stands for. -/
def read (value : Value) : Settings where
  names := readNames (value.get? "overload_names")
  parser :=
    match value.get? "oracle" with
    | some (.string name) => (ParserChoice.ofName? name).getD .prism
    | _ => .prism
  command :=
    match value.get? "oracle_cmd" with
    | some (.string command) => some command
    | _ => none
  limit :=
    match value.get? "timeout_s" with
    | some (.number limit) => limit
    | _ => .int 60
  maxPasses :=
    match value.get? "max_passes" with
    | some (.number limit) => some limit
    | _ => none

/-- Whether a command is given; an empty one is none. -/
def hasCommand (command : Option Text) : Bool := command.getD [] ≠ []

/-- Reads the settings from a JSON value. -/
def ofValue (value : Value) : Except SettingsFault Settings :=
  match Schema.check form value with
  | [] =>
    let settings := read value
    if settings.parser = .command && !hasCommand settings.command then .error .noCommand
    else .ok settings
  | mismatches => .error (.mismatch (Schema.describe mismatches))

end Settings

end SyntaxRepair
