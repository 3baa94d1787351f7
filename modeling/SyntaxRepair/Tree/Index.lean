import SyntaxRepair.Tree.Node

/-!
# Numbered trees

`Node.index` numbers the nodes of a tree in preorder, without its gaps, and keeps
them in an array in which each node stands at its own number.  A number is the
identity of a node within one parse.

`Index.innermost` descends from the root, at each level into the first child that
contains an offset.  Both ends of a location count as inside, so that what is
reported just behind a token belongs to the node that the token closes.
-/

namespace SyntaxRepair

/-- A tree whose nodes know their number and that of their parent. -/
inductive Outline
  | mk (id : Nat) (parent : Option Nat) (label : Label) (children : List Outline)

namespace Outline

/-- The number of a node. -/
def id : Outline → Nat
  | mk id _ _ _ => id

/-- The number of the parent of a node; the root has none. -/
def parent : Outline → Option Nat
  | mk _ parent _ _ => parent

/-- What a node says about itself. -/
def label : Outline → Label
  | mk _ _ label _ => label

/-- The children of a node. -/
def children : Outline → List Outline
  | mk _ _ _ children => children

/-- The location of a node. -/
def location (outline : Outline) : Location := outline.label.location

/-- The kind of a node. -/
def kind (outline : Outline) : Text := outline.label.kind

/-- The first child of one of some kinds. -/
def firstChild (outline : Outline) (kinds : List Text) : Option Outline :=
  outline.children.find? fun child => kinds.contains child.kind

/-! ## Preorder -/

mutual

/-- The nodes of a tree in preorder, followed by `rest`. -/
def preorderOnto (rest : List Outline) : Outline → List Outline
  | .mk id parent label children =>
    .mk id parent label children :: preorderAll rest children

/-- The nodes of several trees in preorder, followed by `rest`. -/
def preorderAll (rest : List Outline) : List Outline → List Outline
  | [] => rest
  | first :: others => preorderOnto (preorderAll rest others) first

end

/-- The nodes of a tree in preorder. -/
def preorder (outline : Outline) : List Outline := outline.preorderOnto []

/-! ## Descent -/

mutual

/-- The nodes from a tree down to its innermost node around `offset`. -/
def descend (offset : Int) : Outline → List Outline
  | .mk id parent label children =>
    .mk id parent label children :: descendFirst offset children

/-- The descent into the first of several trees that contains `offset`. -/
def descendFirst (offset : Int) : List Outline → List Outline
  | [] => []
  | first :: others =>
    if first.location.contains offset then first.descend offset
    else descendFirst offset others

end

end Outline

/-! ## Numbering -/

mutual

/-- Numbers a tree in preorder from `first` on, below the node `parent`; with the
first number that is left. -/
def Node.number (parent : Option Nat) (first : Nat) : Node → Outline × Nat
  | .mk label children =>
    let numbered := Node.numberAll first (first + 1) children
    (.mk first parent label numbered.1, numbered.2)

/-- Numbers the trees of a list of children one after another. -/
def Node.numberAll (parent first : Nat) : List (Option Node) → List Outline × Nat
  | [] => ([], first)
  | none :: rest => Node.numberAll parent first rest
  | some node :: rest =>
    let child := node.number (some parent) first
    let others := Node.numberAll parent child.2 rest
    (child.1 :: others.1, others.2)

end

/-- A numbered tree and its nodes in the order of their numbers. -/
structure Index where
  root : Outline
  nodes : Array Outline

/-- Numbers the nodes of a tree. -/
def Node.index (node : Node) : Index :=
  let root := (node.number none 0).1
  ⟨root, root.preorder.toArray⟩

namespace Index

/-- The number of nodes. -/
def size (index : Index) : Nat := index.nodes.size

/-- The node with a number. -/
def find? (index : Index) (id : Nat) : Option Outline := index.nodes[id]?

/-- The node with a number, if there is one.  A number below zero counts from the last
node. -/
def node? (index : Index) (id : Int) : Except Misfit (Option Outline) := do
  let place ← (Json.Number.int id).index
  return Text.pick? index.nodes.toList place

/-- The numbers of the nodes above a node, from its parent up to the root. -/
def above (index : Index) (id : Nat) : List Nat :=
  match (index.find? id).bind Outline.parent with
  | none => []
  | some parent => if parent < id then parent :: index.above parent else []
termination_by id

/-- The innermost node around an offset.  With a kind, the nearest node of that
kind among the innermost one and those above it. -/
def innermost (index : Index) (offset : Int) (kind : Option Text) : Option Outline :=
  if index.root.location.contains offset then
    -- The path from the root holds all that is above the innermost node.
    let path := index.root.descend offset
    match kind with
    | none => path.getLast?
    | some kind => path.reverse.find? fun node => node.kind = kind
  else none

end Index

end SyntaxRepair
