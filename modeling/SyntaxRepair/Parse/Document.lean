import SyntaxRepair.Parse.Fault
import SyntaxRepair.Parse.Result
import SyntaxRepair.Schema.Rule

/-!
# The report of an external parser

A parser command reports its tree and diagnostics as a JSON document.
`Document.form` is the form of that document, and `Parse.ofDocument` reads a
document that has it.

    {"tree": {"kind": …, "location": …, "children": […]},
     "diagnostics": [{"kind": …, "location": …, "message": …}]}

A location has the members `start`, `end` (exclusive), `line` (from one) and
`column` (from zero).  Members that the form does not name are ignored.
-/

namespace SyntaxRepair

open Json (Number Value)

namespace Document

open Schema

/-! ## The form of a document -/

/-- A whole number that is not less than a bound. -/
def wholeFrom (bound : Int) : Rule := all [ofType [.integer], atLeast bound]

/-- A location. -/
def location : Rule :=
  all [ofType [.object], required ["start", "end", "line", "column"],
    memberRule "start" (wholeFrom 0), memberRule "end" (wholeFrom 0),
    memberRule "line" (wholeFrom 1), memberRule "column" (wholeFrom 0)]

/-- A location or nothing. -/
def optionalLocation : Rule := anyOf [ofType [.null], location]

/-- A kind. -/
def kind : Rule := all [ofType [.string], nonEmpty]

/-- A node, looked at down to some depth of its document. -/
def nodeTo : Nat → Rule
  | 0 => fun _ => []
  | depth + 1 =>
    all [ofType [.object], required ["kind", "location"],
      memberRule "kind" kind, memberRule "location" location,
      memberRule "name" (ofType [.string, .null]),
      memberRule "name_location" optionalLocation,
      memberRule "body_location" optionalLocation,
      memberRule "end_keyword_location" optionalLocation,
      memberRule "children" (all [ofType [.array], eachItem (nodeTo depth)])]

/-- A node, looked at down to its last descendant. -/
def node : Rule := fun value => nodeTo value.depth value

/-- A diagnostic. -/
def diagnostic : Rule :=
  all [ofType [.object], required ["kind", "location"],
    memberRule "kind" kind, memberRule "location" location,
    memberRule "message" (ofType [.string])]

/-- A whole document. -/
def form : Rule :=
  all [ofType [.object], required ["tree", "diagnostics"],
    memberRule "tree" node,
    memberRule "diagnostics" (all [ofType [.array], eachItem diagnostic])]

/-! ## Reading a document that has the form -/

/-- The number in a member. -/
def readNumber (value : Value) (name : Text) : Number :=
  match value.get? name with
  | some (.number number) => number
  | _ => 0

/-- The text in a member, if it holds one. -/
def readText? (value : Value) (name : Text) : Option Text :=
  match value.get? name with
  | some (.string text) => some text
  | _ => none

/-- The location that a value stands for. -/
def readLocation (value : Value) : Location where
  start := readNumber value "start"
  stop := readNumber value "end"
  line := readNumber value "line"
  column := readNumber value "column"

/-- The location in a member; `null` is none. -/
def readLocation? (value : Value) (name : Text) : Option Location :=
  match value.get? name with
  | none => none
  | some .null => none
  | some found => some (readLocation found)

/-- What a node says about itself. -/
def readLabel (value : Value) : Label where
  kind := (readText? value "kind").getD []
  location := ((value.get? "location").map readLocation).getD default
  name := readText? value "name"
  nameLocation := readLocation? value "name_location"
  bodyLocation := readLocation? value "body_location"
  endLocation := readLocation? value "end_keyword_location"

mutual

/-- The node that a value stands for. -/
def readNode : Value → Node
  | .object members => .mk (readLabel (.object members)) (readChildren members)
  | value => .mk (readLabel value) []

/-- The children of a node, from its members. -/
def readChildren : List (Text × Value) → List (Option Node)
  | [] => []
  | (name, member) :: rest =>
    if name = "children" then readNodes member else readChildren rest

/-- The nodes in an array. -/
def readNodes : Value → List (Option Node)
  | .array items => readItems items
  | _ => []

/-- The nodes that some values stand for. -/
def readItems : List Value → List (Option Node)
  | [] => []
  | item :: rest => some (readNode item) :: readItems rest

end

/-- The diagnostic that a value stands for. -/
def readDiagnostic (value : Value) : Diagnostic where
  kind := (readText? value "kind").getD []
  location := ((value.get? "location").map readLocation).getD default
  message := (readText? value "message").getD []

/-- The diagnostics of a document. -/
def readDiagnostics (value : Value) : List Diagnostic :=
  match value.get? "diagnostics" with
  | some (.array items) => items.map readDiagnostic
  | _ => []

/-- How many mismatches a message names. -/
def shownMismatches : Nat := 5

end Document

/-- Reads the document that a parser reported for a text. -/
def Parse.ofDocument (text : Text) (value : Value) : Except ParserFault Parse :=
  match Schema.check Document.form value with
  | [] =>
    .ok
      { text
        tree := Document.readNode ((value.get? "tree").getD .null)
        diagnostics := Document.readDiagnostics value }
  | mismatches => .error (.notReport (Schema.describe (mismatches.take Document.shownMismatches)))

end SyntaxRepair
