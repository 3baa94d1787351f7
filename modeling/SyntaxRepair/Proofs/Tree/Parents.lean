import SyntaxRepair.Proofs.Tree.Numbering

/-!
# Parents and children

A numbered tree is linked in both directions: each node lists its children, and each child has
the number of its parent.  The number of the parent leads back to the one node that the child is
listed in (`Node.child_of_parent`), so no node is a child of two others (`Node.parent_unique`).
-/

namespace SyntaxRepair

namespace Outline

/-- A node of a tree is its root or a child of another one of its nodes. -/
theorem exists_parent_of_mem_preorder {outline node : Outline} (h : node ∈ outline.preorder) :
    node = outline ∨ ∃ parent ∈ outline.preorder, node ∈ parent.children := by
  induction outline using inductionOnChildren with
  | step outline ih =>
      rw [preorder_eq] at h
      rcases List.mem_cons.mp h with hroot | hbelow
      · exact Or.inl hroot
      · obtain ⟨child, hchild, hnode⟩ := List.mem_flatMap.mp hbelow
        right
        rcases ih child hchild hnode with rfl | ⟨parent, hparent, hlisted⟩
        · exact ⟨outline, mem_preorder_self outline, hchild⟩
        · exact ⟨parent, mem_preorder_of_mem_children hchild hparent, hlisted⟩

end Outline

namespace Node

theorem number_parent (parent : Option Nat) (first : Nat) (node : Node) :
    (node.number parent first).1.parent = parent := by
  obtain ⟨label, children⟩ := node
  rfl

/-- Trees that are numbered one after another have the same parent. -/
theorem numberAll_parent (parent first : Nat) (children : List (Option Node)) :
    ∀ child ∈ (numberAll parent first children).1, child.parent = some parent := by
  induction children generalizing first with
  | nil => exact List.forall_mem_nil _
  | cons head rest ih =>
      cases head with
      | none => exact ih first
      | some node =>
          rw [numberAll, List.forall_mem_cons]
          exact ⟨node.number_parent (some parent) first, ih _⟩

mutual

/-- In a numbered tree each child has the number of the node that lists it. -/
theorem number_linked (parent : Option Nat) (first : Nat) :
    ∀ node : Node, ∀ outline ∈ (node.number parent first).1.preorder,
      ∀ child ∈ outline.children, child.parent = some outline.id
  | .mk label children => by
      intro outline houtline
      rw [number, Outline.preorder_eq] at houtline
      rcases List.mem_cons.mp houtline with rfl | hbelow
      · exact numberAll_parent first (first + 1) children
      · exact numberAll_linked first (first + 1) children outline hbelow

/-- So it is in several trees that are numbered one after another. -/
theorem numberAll_linked (parent first : Nat) :
    ∀ children : List (Option Node),
      ∀ outline ∈ (numberAll parent first children).1.flatMap Outline.preorder,
        ∀ child ∈ outline.children, child.parent = some outline.id
  | [] => List.forall_mem_nil _
  | none :: rest => numberAll_linked parent first rest
  | some node :: rest => by
      intro outline houtline
      rw [numberAll, List.flatMap_cons] at houtline
      rcases List.mem_append.mp houtline with hfirst | hrest
      · exact number_linked (some parent) first node outline hfirst
      · exact numberAll_linked parent _ rest outline hrest

end

variable (tree : Node)

/-- A child has the number of the node that lists it. -/
theorem parent_of_child {node child : Outline} (hnode : node ∈ tree.index.nodes.toList)
    (hchild : child ∈ node.children) : child.parent = some node.id :=
  tree.number_linked none 0 node (tree.mem_index_nodes.mp hnode) child hchild

/-- No node is a child of two others. -/
theorem parent_unique {node other child : Outline} (hnode : node ∈ tree.index.nodes.toList)
    (hother : other ∈ tree.index.nodes.toList) (hchild : child ∈ node.children)
    (hchild' : child ∈ other.children) : node = other := by
  apply tree.eq_of_id_eq hnode hother
  apply Option.some.inj
  rw [← tree.parent_of_child hnode hchild, ← tree.parent_of_child hother hchild']

/-- What is looked up under the number of a parent lists the child. -/
theorem child_of_parent {node parent : Outline} {id : Nat}
    (hnode : node ∈ tree.index.nodes.toList) (hid : node.parent = some id)
    (hfound : tree.index.find? id = some parent) :
    parent ∈ tree.index.nodes.toList ∧ node ∈ parent.children := by
  rw [Index.find?, ← Array.getElem?_toList] at hfound
  have hparent : parent ∈ tree.index.nodes.toList := List.mem_of_getElem? hfound
  refine ⟨hparent, ?_⟩
  rcases Outline.exists_parent_of_mem_preorder (tree.mem_index_nodes.mp hnode) with
    rfl | ⟨above, habove, hlisted⟩
  · -- the root has no parent
    rw [show tree.index.root.parent = none from tree.number_parent none 0] at hid
    cases hid
  · rw [← tree.mem_index_nodes] at habove
    have hsame : above.id = id := by
      rw [tree.parent_of_child habove hlisted] at hid
      exact Option.some.inj hid
    have hlookup := tree.getElem?_id habove
    rw [hsame, hfound] at hlookup
    rw [Option.some.inj hlookup]
    exact hlisted

end Node

end SyntaxRepair
