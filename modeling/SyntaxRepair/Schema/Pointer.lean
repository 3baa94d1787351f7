import SyntaxRepair.Text.Basic

/-!
# Pointers into a document

The place of a value in a JSON document is the list of the member names and item
numbers on the way to it.  Written down, each segment follows a slash; a slash
inside a segment is written `~1` and a tilde `~0`.
-/

namespace SyntaxRepair.Schema

/-- One step into a document. -/
inductive Segment
  | name (text : Text)
  | item (number : Int)
deriving Repr, DecidableEq

/-- The text of a segment. -/
def Segment.text : Segment → Text
  | .name text => text
  | .item number => toString number

/-- How one code point of a segment is written. -/
def escapePoint (c : CodePoint) : Text :=
  if c = '~' then ['~', '0'] else if c = '/' then ['~', '1'] else [c]

/-- A segment as a pointer shows it. -/
def escapeSegment (text : Text) : Text := text.flatMap escapePoint

/-- The pointer of a path. -/
def pointerOf (path : List Segment) : Text :=
  path.flatMap fun segment => '/' :: escapeSegment segment.text

end SyntaxRepair.Schema
