import SyntaxRepair.Json.Value

/-!
# Writing JSON

`Value.compact` writes a value on one line and `Value.pretty` with one item a
line, indented by two spaces a level.  Code points outside ASCII stay as they
are, halves of surrogate pairs too; only quotes, backslashes and controls are escaped.
-/

namespace SyntaxRepair.Json

/-- How one code point is written inside a string. -/
def escapePoint (c : CodePoint) : Text :=
  if c = '"' then ['\\', '"']
  else if c = '\\' then ['\\', '\\']
  else if c = '\n' then ['\\', 'n']
  else if c = '\r' then ['\\', 'r']
  else if c = '\t' then ['\\', 't']
  else if c = '\x0c' then ['\\', 'f']
  else if c = '\x08' then ['\\', 'b']
  else if c.toNat < 0x20 then '\\' :: 'u' :: Text.hexDigits 4 c.toNat
  else [c]

/-- A text as a JSON string. -/
def escapeText (text : Text) : Text := "\"" ++ text.flatMap escapePoint ++ "\""

/-- A number as JSON writes it. -/
def Number.toJson : Number → Text
  | .float .notNumber => "NaN"
  | .float (.infinite false) => "Infinity"
  | .float (.infinite true) => "-Infinity"
  | number => number.toString

namespace Value

mutual

/-- A value on one line, followed by `rest`. -/
def compactOnto (rest : Text) : Value → Text
  | .null => 'n' :: 'u' :: 'l' :: 'l' :: rest
  | .bool true => 't' :: 'r' :: 'u' :: 'e' :: rest
  | .bool false => 'f' :: 'a' :: 'l' :: 's' :: 'e' :: rest
  | .number value => value.toJson ++ rest
  | .string value => escapeText value ++ rest
  | .array [] => '[' :: ']' :: rest
  | .array (item :: items) =>
    '[' :: compactOnto (compactItems (']' :: rest) items) item
  | .object [] => '\x7b' :: '\x7d' :: rest
  | .object ((name, member) :: members) =>
    '\x7b' :: (escapeText name ++ ":" ++
      compactOnto (compactMembers ('\x7d' :: rest) members) member)

/-- Further items of an array, each behind a comma. -/
def compactItems (rest : Text) : List Value → Text
  | [] => rest
  | item :: items => ',' :: compactOnto (compactItems rest items) item

/-- Further members of an object, each behind a comma. -/
def compactMembers (rest : Text) : List (Text × Value) → Text
  | [] => rest
  | (name, member) :: members =>
    ',' :: (escapeText name ++ ":" ++ compactOnto (compactMembers rest members) member)

end

/-- A value on one line. -/
def compact (value : Value) : Text := value.compactOnto []

/-- A line break and the indent of a level. -/
def newLine (level : Nat) : Text := '\n' :: Text.spaces (2 * level)

mutual

/-- A value with one item a line, at a level of nesting. -/
def prettyText (level : Nat) : Value → Text
  | .array [] => "[]"
  | .array (item :: items) =>
    "[" ++ newLine (level + 1) ++ prettyText (level + 1) item ++
      prettyItems (level + 1) items ++ newLine level ++ "]"
  | .object [] => "\x7b\x7d"
  | .object ((name, member) :: members) =>
    "\x7b" ++ newLine (level + 1) ++ escapeText name ++ ": " ++
      prettyText (level + 1) member ++ prettyMembers (level + 1) members ++
      newLine level ++ "\x7d"
  | .null => "null"
  | .bool true => "true"
  | .bool false => "false"
  | .number value => value.toJson
  | .string value => escapeText value

/-- Further items of an array, each on a line of its own. -/
def prettyItems (level : Nat) : List Value → Text
  | [] => []
  | item :: items => "," ++ newLine level ++ prettyText level item ++ prettyItems level items

/-- Further members of an object, each on a line of its own. -/
def prettyMembers (level : Nat) : List (Text × Value) → Text
  | [] => []
  | (name, member) :: members =>
    "," ++ newLine level ++ escapeText name ++ ": " ++
      prettyText level member ++ prettyMembers level members

end

/-- A value with one item a line. -/
def pretty (value : Value) : Text := value.prettyText 0

end Value

end SyntaxRepair.Json
