import SyntaxRepair.Json.Value
import SyntaxRepair.Schema.Pointer

/-!
# Rules for documents

A rule looks at a JSON value and lists what does not match.  Each rule concerns
values of its own type and accepts all others, so that a document is described by
several rules for one value, one of which fixes its type.

Mismatches come out in the order of the rules; `check` sorts them by their place
in the document, and those of one place keep their order.
-/

namespace SyntaxRepair.Schema

open Json (Value)

/-- A value that does not match: its place, the problem and the keyword of the rule
it breaks. -/
structure Mismatch where
  path : List Segment
  message : Text
  keyword : String
deriving Repr, DecidableEq

/-- The place of a mismatch as it is written. -/
def Mismatch.pointer (mismatch : Mismatch) : Text := pointerOf mismatch.path

/-- A mismatch inside a member or an item, seen from outside. -/
def Mismatch.within (segment : Segment) (mismatch : Mismatch) : Mismatch :=
  { mismatch with path := segment :: mismatch.path }

/-- What a value must satisfy. -/
abbrev Rule := Value → List Mismatch

/-- A mismatch of the value itself. -/
def mismatch (keyword : String) (message : Text) : List Mismatch := [⟨[], message, keyword⟩]

/-! ## Types -/

/-- The types that rules tell apart. -/
inductive JsonType
  | null
  | integer
  | string
  | array
  | object
deriving Repr, DecidableEq

/-- The name of a type. -/
def JsonType.name : JsonType → Text
  | .null => "null"
  | .integer => "integer"
  | .string => "string"
  | .array => "array"
  | .object => "object"

/-- Whether a value has a type.  A number is an integer if its value is whole,
however it was written. -/
def JsonType.accepts : JsonType → Value → Bool
  | .null, .null => true
  | .integer, .number number => number.whole?.isSome
  | .string, .string _ => true
  | .array, .array _ => true
  | .object, .object _ => true
  | _, _ => false

/-- Texts between quotes with commas between them. -/
def quotedList (texts : List Text) : Text := Text.join ", " (texts.map Text.quoted)

/-- The value has one of some types. -/
def ofType (types : List JsonType) : Rule := fun value =>
  if types.any fun type => type.accepts value then []
  else
    mismatch "type"
      (value.literal ++ " is not of type " ++ quotedList (types.map JsonType.name))

/-! ## Numbers and strings -/

/-- A number is not less than a bound. -/
def atLeast (bound : Int) : Rule
  | .number number =>
    if number.ltInt bound then
      mismatch "minimum"
        (number.toString ++ " is less than the minimum of " ++ toString bound)
    else []
  | _ => []

/-- A string is not empty. -/
def nonEmpty : Rule
  | .string value =>
    if value.isEmpty then
      mismatch "minLength" ((Value.string value).literal ++ " should be non-empty")
    else []
  | _ => []

/-- The value is one of some strings. -/
def oneOf (choices : List Text) : Rule := fun value =>
  let chosen := match value with
    | .string choice => choices.contains choice
    | _ => false
  if chosen then []
  else
    mismatch "enum" (value.literal ++ " is not one of [" ++ quotedList choices ++ "]")

/-- A form of strings: the test and the way it is shown. -/
structure Form where
  shown : Text
  accepts : Text → Bool

/-- A string has a form. -/
def ofForm (form : Form) : Rule
  | .string value =>
    if form.accepts value then []
    else
      mismatch "pattern"
        ((Value.string value).literal ++ " does not match " ++ Text.quoted form.shown)
  | _ => []

/-! ## Objects and arrays -/

/-- An object has members with some names. -/
def required (names : List Text) : Rule := fun value =>
  match value with
  | .object members =>
    names.flatMap fun name =>
      if (members.lookup name).isSome then []
      else mismatch "required" (Text.quoted name ++ " is a required property")
  | _ => []

/-- The member with a name, where there is one, satisfies a rule. -/
def memberRule (name : Text) (rule : Rule) : Rule := fun value =>
  match value.get? name with
  | some member => (rule member).map (Mismatch.within (.name name))
  | none => []

/-- An object has no members but those with some names. -/
def closed (names : List Text) : Rule
  | .object members =>
    match (members.map (·.1)).filter fun name => !names.contains name with
    | [] => []
    | extra =>
      let sorted := extra.mergeSort fun first second => !(second < first)
      mismatch "additionalProperties"
        ("Additional properties are not allowed (" ++ quotedList sorted ++
          (if sorted.length = 1 then " was" else " were") ++ " unexpected)")
  | _ => []

/-- Every member of an object satisfies a rule. -/
def eachMember (rule : Rule) : Rule
  | .object members =>
    members.flatMap fun (name, member) =>
      (rule member).map (Mismatch.within (.name name))
  | _ => []

/-- Every item of an array satisfies a rule. -/
def eachItem (rule : Rule) : Rule
  | .array items =>
    items.zipIdx.flatMap fun (item, number) =>
      (rule item).map (Mismatch.within (.item number))
  | _ => []

/-! ## Rules together -/

/-- The value satisfies all of some rules. -/
def all (rules : List Rule) : Rule := fun value => rules.flatMap fun rule => rule value

/-- The value satisfies one of some rules. -/
def anyOf (rules : List Rule) : Rule := fun value =>
  if rules.any fun rule => (rule value).isEmpty then []
  else
    mismatch "anyOf"
      (value.literal ++ " is not valid under any of the given schemas")

/-- The mismatches of a document in the order of their places, where item numbers
are compared as texts. -/
def check (rule : Rule) (value : Value) : List Mismatch :=
  -- Not `≤` but the negation of the reversed `<`: equal places keep their order.
  let place (mismatch : Mismatch) : List Text := mismatch.path.map Segment.text
  (rule value).mergeSort fun first second => !(place second < place first)

/-- Mismatches as one message, each behind its place; the document itself is
`/`. -/
def describe (mismatches : List Mismatch) : Text :=
  Text.join "; " (mismatches.map fun mismatch =>
    (if mismatch.path.isEmpty then "/" else mismatch.pointer) ++ ": " ++ mismatch.message)

end SyntaxRepair.Schema
