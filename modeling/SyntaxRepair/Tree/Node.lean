import SyntaxRepair.Measure
import SyntaxRepair.Range

/-!
# Syntax trees

The tree a parser reports.  A node may lack a name and the locations that only
definitions have, and a list of children may have gaps.  The numbers of a location
are kept as the parser wrote them.
-/

namespace SyntaxRepair

open Json (Number)

/-- A stretch of a text, with the line and column at which it begins. -/
structure Location where
  start : Number
  stop : Number
  line : Number := 1
  column : Number := 0
deriving Repr, DecidableEq, Inhabited

namespace Location

/-- The number of characters of a location. -/
def length (location : Location) : Except Misfit Number := location.stop.sub location.start

/-- The offsets of a location, if they can bound a slice. -/
def range (location : Location) : Except Misfit Range := do
  return ⟨← location.start.bound, ← location.stop.bound⟩

@[simp] theorem length_int (start stop : Int) (line column : Number) :
    length ⟨.int start, .int stop, line, column⟩ = .ok (.int (stop - start)) := rfl

@[simp] theorem range_int (start stop : Int) (line column : Number) :
    range ⟨.int start, .int stop, line, column⟩ = .ok ⟨start, stop⟩ := rfl

/-- Whether an offset belongs to a location; both of its ends do. -/
def contains (location : Location) (offset : Int) : Bool :=
  location.start.whole ≤ offset && offset ≤ location.stop.whole

end Location

/-- What a node says about itself, without its children. -/
structure Label where
  kind : Text
  location : Location
  name : Option Text := none
  nameLocation : Option Location := none
  bodyLocation : Option Location := none
  endLocation : Option Location := none
deriving Repr, DecidableEq, Inhabited

/-- A node of a syntax tree; a gap among its children is `none`. -/
inductive Node
  | mk (label : Label) (children : List (Option Node))

namespace Node

/-- What a node says about itself. -/
def label : Node → Label
  | mk label _ => label

/-- The children of a node with the gaps between them. -/
def children : Node → List (Option Node)
  | mk _ children => children

end Node

/-! ## Kinds that the repair looks for -/

/-- The kind of a method definition. -/
def definitionKind : Text := "def_node"

/-- The kind of the parameter list of a definition. -/
def parametersKind : Text := "parameters_node"

/-- The kinds of the body of a definition. -/
def bodyKinds : List Text := ["statements_node", "begin_node"]

end SyntaxRepair
