import SyntaxRepair.Proofs.Json.Numbers
import SyntaxRepair.Proofs.Sequences
import SyntaxRepair.Proofs.Tree.Nodes
import Mathlib.Data.List.Range

/-!
# Numbers of nodes

Each node of an index stands at its own number, so a number leads back to its node, and nodes with
one number are the same.
-/

namespace SyntaxRepair

namespace Node

mutual

/-- A tree that is numbered from `first` on takes the numbers in preorder. -/
theorem number_ids (parent : Option Nat) (first : Nat) :
    ∀ node : Node, ∃ count, (node.number parent first).2 = first + count ∧
      (node.number parent first).1.preorder.map Outline.id = List.range' first count
  | .mk label children => by
      obtain ⟨count, hnext, hids⟩ := numberAll_ids first (first + 1) children
      refine ⟨count + 1, ?_, ?_⟩
      · rw [number, hnext]
        omega
      · rw [number, Outline.preorder_eq, List.map_cons, Outline.children, hids, List.range'_succ]
        rfl

/-- Several trees that are numbered one after another go on counting. -/
theorem numberAll_ids (parent first : Nat) :
    ∀ children : List (Option Node), ∃ count,
      (numberAll parent first children).2 = first + count ∧
        ((numberAll parent first children).1.flatMap Outline.preorder).map Outline.id =
          List.range' first count
  | [] => ⟨0, rfl, rfl⟩
  | none :: rest => numberAll_ids parent first rest
  | some node :: rest => by
      obtain ⟨count, hnext, hids⟩ := number_ids (some parent) first node
      obtain ⟨others, hlast, hothers⟩ :=
        numberAll_ids parent (node.number (some parent) first).2 rest
      refine ⟨count + others, ?_, ?_⟩
      · rw [numberAll, hlast, hnext, Nat.add_assoc]
      · rw [numberAll, List.flatMap_cons, List.map_append, hids, hothers, hnext]
        have happend := @List.range'_append first count others 1
        rw [Nat.one_mul] at happend
        exact happend

end

variable (tree : Node)

/-- Each node of an index stands at its own number. -/
theorem getElem?_id {node : Outline} (hmem : node ∈ tree.index.nodes.toList) :
    tree.index.nodes.toList[node.id]? = some node := by
  obtain ⟨count, -, hids⟩ := tree.number_ids none 0
  have hnumbers : tree.index.nodes.toList.map Outline.id = List.range' 0 count := by
    rw [index, List.toList_toArray]
    exact hids
  obtain ⟨place, hplace⟩ := List.getElem?_of_mem hmem
  have hid : (List.range' 0 count)[place]? = some node.id := by
    rw [← hnumbers, List.getElem?_map, hplace]
    rfl
  obtain ⟨hlt, hvalue⟩ := List.getElem?_eq_some_iff.mp hid
  rw [List.getElem_range', Nat.zero_add, Nat.one_mul] at hvalue
  rw [← hvalue]
  exact hplace

theorem eq_of_id_eq {first second : Outline} (hfirst : first ∈ tree.index.nodes.toList)
    (hsecond : second ∈ tree.index.nodes.toList) (hid : first.id = second.id) : first = second := by
  apply Option.some.inj
  calc some first
      = tree.index.nodes.toList[first.id]? := (tree.getElem?_id hfirst).symm
    _ = tree.index.nodes.toList[second.id]? := by rw [hid]
    _ = some second := tree.getElem?_id hsecond

/-- What is looked up under the number of a node is that node. -/
theorem eq_of_node?_id {node found : Outline} (hmem : node ∈ tree.index.nodes.toList)
    (h : tree.index.node? node.id = .ok (some found)) : found = node := by
  obtain ⟨place, hplace, hfound⟩ := except_bind_eq_ok.mp h
  have hpick := Except.ok.inj hfound
  rw [Json.Number.eq_of_index_int hplace, Text.pick?_natCast, tree.getElem?_id hmem] at hpick
  exact (Option.some.inj hpick).symm

end Node

end SyntaxRepair
