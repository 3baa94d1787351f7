import SyntaxRepair.Tree.Index
import SyntaxRepair.Proofs.Sequences
import SyntaxRepair.Proofs.Text.Parts

/-!
# The nodes of a tree

Every node that a look-up can come to stands in the list of nodes of its index: the root,
the nodes of a descent, and the children of a node that stands there.  What is known of
all nodes is therefore known of every node that the repair works on.
-/

namespace SyntaxRepair

namespace Outline

/-- Induction on a tree: what holds of a node if it holds of its children holds of every
node. -/
@[elab_as_elim]
theorem inductionOnChildren {motive : Outline → Prop}
    (step : ∀ outline, (∀ child ∈ outline.children, motive child) → motive outline) :
    ∀ outline, motive outline
  | .mk id parent label children =>
      step _ fun child _hmem => inductionOnChildren step child
termination_by outline => sizeOf outline
decreasing_by
  have hsize : sizeOf child < sizeOf children := List.sizeOf_lt_of_mem _hmem
  simp only [mk.sizeOf_spec]
  omega

/-! ## Preorder -/

theorem preorderAll_eq (children rest : List Outline)
    (h : ∀ child ∈ children, ∀ rest, child.preorderOnto rest = child.preorder ++ rest) :
    preorderAll rest children = children.flatMap preorder ++ rest := by
  induction children with
  | nil => rfl
  | cons first others ih =>
      rw [preorderAll, h first (List.mem_cons_self ..),
        ih fun child hmem => h child (List.mem_cons_of_mem _ hmem), List.flatMap_cons,
        List.append_assoc]

theorem preorderOnto_eq (outline : Outline) (rest : List Outline) :
    outline.preorderOnto rest = outline.preorder ++ rest := by
  induction outline using inductionOnChildren generalizing rest with
  | step outline ih =>
      obtain ⟨id, parent, label, children⟩ := outline
      rw [preorder, preorderOnto, preorderOnto, preorderAll_eq children rest ih,
        preorderAll_eq children [] ih, List.append_nil, List.cons_append]

/-- The preorder of a tree is its root with the preorders of its children behind it. -/
theorem preorder_eq (outline : Outline) :
    outline.preorder = outline :: outline.children.flatMap preorder := by
  obtain ⟨id, parent, label, children⟩ := outline
  rw [preorder, preorderOnto, preorderAll_eq children [] fun child _ => preorderOnto_eq child,
    List.append_nil, Outline.children]

theorem mem_preorder_self (outline : Outline) : outline ∈ outline.preorder := by
  rw [preorder_eq]
  exact List.mem_cons_self ..

theorem mem_preorder_of_mem_children {outline child node : Outline}
    (hchild : child ∈ outline.children) (hnode : node ∈ child.preorder) :
    node ∈ outline.preorder := by
  rw [preorder_eq]
  exact List.mem_cons_of_mem _ (List.mem_flatMap.mpr ⟨child, hchild, hnode⟩)

/-- With a node its children belong to a tree. -/
theorem child_mem_preorder {outline node child : Outline} (hnode : node ∈ outline.preorder)
    (hchild : child ∈ node.children) : child ∈ outline.preorder := by
  induction outline using inductionOnChildren with
  | step outline ih =>
      rw [preorder_eq] at hnode
      rcases List.mem_cons.mp hnode with rfl | hbelow
      · exact mem_preorder_of_mem_children hchild (mem_preorder_self child)
      · obtain ⟨next, hnext, hmem⟩ := List.mem_flatMap.mp hbelow
        exact mem_preorder_of_mem_children hnext (ih next hnext hmem)

/-! ## Descent -/

/-- A descent goes on into the first child that contains the offset. -/
theorem descendFirst_eq (offset : Int) (children : List Outline) :
    descendFirst offset children =
      ((children.find? fun child => child.location.contains offset).map
        (descend offset)).getD [] := by
  induction children with
  | nil => rfl
  | cons first others ih =>
      rw [descendFirst, List.find?_cons]
      cases first.location.contains offset with
      | true => rfl
      | false => exact ih

theorem mem_preorder_of_mem_descend {outline node : Outline} {offset : Int}
    (hnode : node ∈ outline.descend offset) : node ∈ outline.preorder := by
  induction outline using inductionOnChildren with
  | step outline ih =>
      obtain ⟨id, parent, label, children⟩ := outline
      rw [descend, descendFirst_eq] at hnode
      rcases List.mem_cons.mp hnode with rfl | hbelow
      · exact mem_preorder_self _
      · cases hfind : children.find? fun child => child.location.contains offset with
        | none =>
            rw [hfind] at hbelow
            exact absurd hbelow List.not_mem_nil
        | some child =>
            rw [hfind] at hbelow
            have hchild : child ∈ children := List.mem_of_find?_eq_some hfind
            exact mem_preorder_of_mem_children hchild (ih child hchild hbelow)

end Outline

/-! ## Look-ups in an index -/

theorem Index.kind_of_innermost {index : Index} {offset : Int} {kind : Text} {node : Outline}
    (h : index.innermost offset (some kind) = some node) : node.kind = kind := by
  unfold innermost at h
  split at h
  · have hkind := @List.find?_some _ (fun node : Outline => node.kind = kind) _ _ h
    exact of_decide_eq_true hkind
  · cases h

namespace Node

variable (tree : Node)

/-- The nodes of an index are those of its root. -/
theorem mem_index_nodes {node : Outline} :
    node ∈ tree.index.nodes.toList ↔ node ∈ tree.index.root.preorder := by
  rw [index, List.toList_toArray]

theorem mem_nodes_of_innermost {offset : Int} {kind : Option Text} {node : Outline}
    (h : tree.index.innermost offset kind = some node) : node ∈ tree.index.nodes.toList := by
  rw [mem_index_nodes]
  unfold Index.innermost at h
  split at h
  · have hpath : node ∈ tree.index.root.descend offset := by
      cases kind with
      | none => exact List.mem_of_getLast? h
      | some kind => exact List.mem_reverse.mp (List.mem_of_find?_eq_some h)
    exact Outline.mem_preorder_of_mem_descend hpath
  · cases h

theorem child_mem_nodes {node child : Outline} (hnode : node ∈ tree.index.nodes.toList)
    (hchild : child ∈ node.children) : child ∈ tree.index.nodes.toList := by
  rw [mem_index_nodes] at hnode ⊢
  exact Outline.child_mem_preorder hnode hchild

theorem mem_nodes_of_node? {id : Int} {node : Outline}
    (h : tree.index.node? id = .ok (some node)) : node ∈ tree.index.nodes.toList := by
  obtain ⟨place, -, hfound⟩ := except_bind_eq_ok.mp h
  exact Text.mem_of_pick? (Except.ok.inj hfound)

end Node

end SyntaxRepair
