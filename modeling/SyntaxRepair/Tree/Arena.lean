import SyntaxRepair.Tree.Node

/-!
# Trees in rows

`Node.arena` lays a tree out flat, without its gaps: a node is a number, and each row says one thing
about all nodes.  The rows are filled from a stack of nodes that still wait, and walked through with
a stack of numbers, so that no tree is too deep for either.
-/

namespace SyntaxRepair

/-- The nodes of a tree in rows.  The number of a node is its place in each row. -/
structure Arena where
  labels : Array Label := #[]
  /-- The number of the parent of each node; the root has none. -/
  parents : Array (Option Nat) := #[]
  /-- The numbers of the children of each node. -/
  children : Array (Array Nat) := #[]

namespace Arena

/-- The number of nodes. -/
def size (arena : Arena) : Nat := arena.labels.size

/-- The number of the parent of a node. -/
def parent? (arena : Arena) (id : Nat) : Option Nat := arena.parents[id]?.join

/-- The numbers of the children of a node. -/
def childrenOf (arena : Arena) (id : Nat) : List Nat := (arena.children[id]?.getD #[]).toList

/-! ## Filling the rows -/

/-- Hangs numbers below a node, behind those that are there. -/
def adopt (parent : Option Nat) (ids : List Nat) : Arena → Arena
  | ⟨labels, parents, children⟩ =>
    match parent with
    | none => ⟨labels, parents, children⟩
    | some parent => ⟨labels, parents, children.modify parent fun before => before ++ ids⟩

/-- Enters a node behind all others; it becomes the last child of its parent. -/
def enter (label : Label) (parent : Option Nat) : Arena → Arena
  | ⟨labels, parents, children⟩ =>
    let id := labels.size
    adopt parent [id] ⟨labels.push label, parents.push parent, children.push #[]⟩

/-- The nodes of a list of children, each with the number of its parent. -/
def pending (parent : Option Nat) (children : List (Option Node)) : List (Node × Option Nat) :=
  children.filterMap fun child => child.map fun node => (node, parent)

/-- The size of the trees on a stack, which falls while they are entered. -/
noncomputable def weight : List (Node × Option Nat) → Nat
  | [] => 0
  | (node, _) :: rest => sizeOf node + weight rest

theorem weight_append (front back : List (Node × Option Nat)) :
    weight (front ++ back) = weight front + weight back := by
  induction front with
  | nil => rw [List.nil_append, weight, Nat.zero_add]
  | cons item rest ih => rw [List.cons_append, weight, weight, ih, Nat.add_assoc]

theorem weight_pending_le (parent : Option Nat) (children : List (Option Node)) :
    weight (pending parent children) ≤ sizeOf children := by
  induction children with
  | nil => exact Nat.zero_le _
  | cons child rest ih =>
    rw [List.cons.sizeOf_spec]
    cases child with
    | none => exact Nat.le_trans ih (Nat.le_add_left _ _)
    | some node =>
      have hpending : pending parent (some node :: rest) =
          (node, parent) :: pending parent rest := rfl
      rw [hpending, weight, Option.some.sizeOf_spec]
      omega

/-- Enters the nodes on a stack.  The children of a node take its place on the stack. -/
def fill (arena : Arena) : List (Node × Option Nat) → Arena
  | [] => arena
  | (.mk label children, parent) :: waiting =>
    -- The size is asked for first: rows that are still needed would be copied.
    let id := arena.size
    (arena.enter label parent).fill (pending (some id) children ++ waiting)
termination_by waiting => weight waiting
decreasing_by
  have hless := weight_pending_le (some arena.size) children
  rw [weight_append, weight, Node.mk.sizeOf_spec]
  omega

/-! ## Walking through them -/

/-- The numbers that are met from a stack of numbers on, where the next one is `next` or a greater
one.  The children of a node take its place on the stack. -/
def walkFrom (arena : Arena) (next : Nat) : List Nat → List Nat
  | [] => []
  | id :: waiting =>
    -- In the rows of a tree no number is met twice, and none behind a greater one.
    if next ≤ id ∧ id < arena.size then
      id :: arena.walkFrom (id + 1) (arena.childrenOf id ++ waiting)
    else []
termination_by arena.size - next

/-- The numbers of a node and of all nodes below it in preorder. -/
def walk (arena : Arena) (id : Nat) : List Nat := arena.walkFrom id [id]

end Arena

/-- The rows of a tree. -/
def Node.arena (node : Node) : Arena := Arena.fill {} [(node, none)]

end SyntaxRepair
