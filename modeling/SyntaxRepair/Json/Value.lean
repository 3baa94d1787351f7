import SyntaxRepair.Json.Number
import SyntaxRepair.Text.Quoted

/-!
# JSON values

Objects keep the order of their members.  `Value.literal` is the text by which a
message shows a value.
-/

namespace SyntaxRepair.Json

/-- A JSON value. -/
inductive Value
  | null
  | bool (value : Bool)
  | number (value : Number)
  | string (value : Text)
  | array (items : List Value)
  | object (members : List (Text × Value))

namespace Value

instance : Inhabited Value := ⟨.null⟩

/-- A whole number as a value. -/
def int (value : Int) : Value := .number (.int value)

/-- A count as a value. -/
def nat (value : Nat) : Value := .number (.int value)

/-- A value that may be absent, with `null` in its place. -/
def option {α : Type} (encode : α → Value) : Option α → Value
  | none => .null
  | some value => encode value

/-- The member of an object with a name; `none` for a value of another type. -/
def get? (value : Value) (name : Text) : Option Value :=
  match value with
  | .object members => members.lookup name
  | _ => none

/-! ## Nesting -/

mutual

/-- How many arrays and objects stand inside one another, the value itself
counted. -/
def depth : Value → Nat
  | .array items => depthOfItems items + 1
  | .object members => depthOfMembers members + 1
  | _ => 1

/-- The greatest depth of the items of an array. -/
def depthOfItems : List Value → Nat
  | [] => 0
  | item :: rest => max item.depth (depthOfItems rest)

/-- The greatest depth of the members of an object. -/
def depthOfMembers : List (Text × Value) → Nat
  | [] => 0
  | (_, member) :: rest => max member.depth (depthOfMembers rest)

end

/-! ## The text of a value in a message -/

mutual

/-- A value as a message shows it: texts quoted, `None`, `True` and `False`, and
members in their order. -/
def literal : Value → Text
  | .null => "None"
  | .bool true => "True"
  | .bool false => "False"
  | .number value => value.toString
  | .string value => Text.quoted value
  | .array items => "[" ++ Text.join ", " (literalItems items) ++ "]"
  | .object members => "\x7b" ++ Text.join ", " (literalMembers members) ++ "\x7d"

/-- The items of an array as a message shows them. -/
def literalItems : List Value → List Text
  | [] => []
  | item :: rest => item.literal :: literalItems rest

/-- The members of an object as a message shows them. -/
def literalMembers : List (Text × Value) → List Text
  | [] => []
  | (name, member) :: rest =>
    (Text.quoted name ++ ": " ++ member.literal) :: literalMembers rest

end

end Value

end SyntaxRepair.Json
