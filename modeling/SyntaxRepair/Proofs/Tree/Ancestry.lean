import SyntaxRepair.Proofs.Tree.Parents

/-!
# Nodes and those above them

A node and all that is below it take consecutive numbers (`Outline.Consecutive`), so a parent has a
smaller number than its children, and going from parent to parent ends at the root.
`Index.outward` lists the nodes that are met on the way.
-/

namespace SyntaxRepair

namespace Outline

/-- A tree whose nodes, in preorder, are numbered from its own number on without a gap. -/
def Consecutive (outline : Outline) : Prop :=
  outline.preorder.map Outline.id = List.range' outline.id outline.preorder.length

/-- What is below a node has greater numbers. -/
theorem Consecutive.id_lt {outline child : Outline} (h : outline.Consecutive)
    (hchild : child ∈ outline.children) : outline.id < child.id := by
  rw [Consecutive, preorder_eq, List.map_cons, List.length_cons, List.range'_succ] at h
  have hbelow := List.tail_eq_of_cons_eq h
  have hmem : child.id ∈ (outline.children.flatMap preorder).map Outline.id :=
    List.mem_map_of_mem (List.mem_flatMap.mpr ⟨child, hchild, mem_preorder_self child⟩)
  rw [hbelow] at hmem
  exact (List.mem_range'_1.mp hmem).1

end Outline

namespace Node

theorem number_id (parent : Option Nat) (first : Nat) (node : Node) :
    (node.number parent first).1.id = first := by
  obtain ⟨label, children⟩ := node
  rfl

mutual

/-- In a numbered tree every node takes consecutive numbers with all that is below it. -/
theorem number_consecutive (parent : Option Nat) (first : Nat) :
    ∀ node : Node, ∀ outline ∈ (node.number parent first).1.preorder, outline.Consecutive
  | .mk label children => by
      intro outline houtline
      rw [number, Outline.preorder_eq] at houtline
      rcases List.mem_cons.mp houtline with rfl | hbelow
      · obtain ⟨count, -, hids⟩ := number_ids parent first (.mk label children)
        have hlength := congrArg List.length hids
        rw [List.length_map, List.length_range'] at hlength
        rw [← hlength] at hids
        exact hids
      · exact numberAll_consecutive first (first + 1) children outline hbelow

/-- So does every node of several trees that are numbered one after another. -/
theorem numberAll_consecutive (parent first : Nat) :
    ∀ children : List (Option Node),
      ∀ outline ∈ (numberAll parent first children).1.flatMap Outline.preorder,
        outline.Consecutive
  | [] => List.forall_mem_nil _
  | none :: rest => numberAll_consecutive parent first rest
  | some node :: rest => by
      intro outline houtline
      rw [numberAll, List.flatMap_cons] at houtline
      rcases List.mem_append.mp houtline with hfirst | hrest
      · exact number_consecutive (some parent) first node outline hfirst
      · exact numberAll_consecutive parent _ rest outline hrest

end

variable (tree : Node) {node child : Outline}

theorem consecutive (hnode : node ∈ tree.index.nodes.toList) : node.Consecutive :=
  tree.number_consecutive none 0 node (tree.mem_index_nodes.mp hnode)

theorem root_mem_nodes : tree.index.root ∈ tree.index.nodes.toList :=
  tree.mem_index_nodes.mpr (Outline.mem_preorder_self _)

theorem parent_root : tree.index.root.parent = none := tree.number_parent none 0

theorem id_root : tree.index.root.id = 0 := tree.number_id none 0

theorem find?_id (hnode : node ∈ tree.index.nodes.toList) :
    tree.index.find? node.id = some node := by
  rw [Index.find?, ← Array.getElem?_toList]
  exact tree.getElem?_id hnode

theorem mem_nodes_of_find? {id : Nat} (h : tree.index.find? id = some node) :
    node ∈ tree.index.nodes.toList := by
  rw [Index.find?, ← Array.getElem?_toList] at h
  exact List.mem_of_getElem? h

/-- The nodes of an index are numbered from zero on. -/
theorem map_id_nodes : tree.index.nodes.toList.map Outline.id =
    List.range' 0 tree.index.nodes.toList.length := by
  have hroot := tree.consecutive tree.root_mem_nodes
  rw [Outline.Consecutive, id_root] at hroot
  rw [index, List.toList_toArray]
  exact hroot

/-- A number leads to the node that has it. -/
theorem id_of_find? {id : Nat} (h : tree.index.find? id = some node) : node.id = id := by
  rw [Index.find?, ← Array.getElem?_toList] at h
  have hid : (tree.index.nodes.toList.map Outline.id)[id]? = some node.id := by
    rw [List.getElem?_map, h, Option.map_some]
  rw [map_id_nodes] at hid
  obtain ⟨hlt, hvalue⟩ := List.getElem?_eq_some_iff.mp hid
  rw [List.getElem_range', Nat.zero_add, Nat.one_mul] at hvalue
  exact hvalue.symm

/-! ## Outwards -/

theorem above_root : tree.index.above tree.index.root.id = [] := by
  rw [Index.above, tree.find?_id tree.root_mem_nodes, Option.bind_some, tree.parent_root]

/-- Above a child there are its parent and what is above that. -/
theorem above_child (hnode : node ∈ tree.index.nodes.toList) (hchild : child ∈ node.children) :
    tree.index.above child.id = node.id :: tree.index.above node.id := by
  have hmem := tree.child_mem_nodes hnode hchild
  rw [Index.above, tree.find?_id hmem, Option.bind_some, tree.parent_of_child hnode hchild]
  exact if_pos ((tree.consecutive hnode).id_lt hchild)

end Node

/-- A node and those above it, from the inside out, by the numbers of their parents. -/
def Index.outward (index : Index) (node : Outline) : List Outline :=
  node :: (index.above node.id).filterMap index.find?

namespace Node

variable (tree : Node) {node child : Outline}

theorem outward_root : tree.index.outward tree.index.root = [tree.index.root] := by
  rw [Index.outward, tree.above_root, List.filterMap_nil]

theorem outward_child (hnode : node ∈ tree.index.nodes.toList) (hchild : child ∈ node.children) :
    tree.index.outward child = child :: tree.index.outward node := by
  rw [Index.outward, tree.above_child hnode hchild,
    List.filterMap_cons_some (tree.find?_id hnode)]
  rfl

end Node

end SyntaxRepair
