import SyntaxRepair.Proofs.Tree.Ancestry
import Mathlib.Data.List.Chain

/-!
# The innermost node around an offset

A look-up goes inwards from the root, at each level into the first child that contains the offset
(`Outline.Descent`), and there is no way back: a later sibling that contains the offset, too, is not
tried.  Both ends of a location count as inside, so siblings that touch both contain the offset
between them, and so may empty ones.

Nothing is missed by that as long as the offset is not at an end.  Where siblings stand side by
side, a node with the offset strictly inside is the only one of them that contains it, but for
those in front of it, which end at its start or before (`Outline.Descent.mem_of_around`).

A look-up for a kind goes outwards again, from parent to parent.  The way out is the way in
(`Node.outward_of_descent`).
-/

namespace SyntaxRepair

namespace Outline

/-! ## The way in -/

/-- The way from a node inwards to the innermost node around an offset, by the first child that
contains it at each level. -/
inductive Descent (offset : Int) : Outline → List Outline → Prop
  /-- No child contains the offset. -/
  | last {node : Outline}
      (hnone : ∀ child ∈ node.children, child.location.contains offset = false) :
      Descent offset node [node]
  /-- The first child that contains the offset is gone into. -/
  | next {node child : Outline} {path : List Outline}
      (hfirst : (node.children.find? fun child => child.location.contains offset) = some child)
      (hrest : Descent offset child path) :
      Descent offset node (node :: path)

/-- A descent is the way in. -/
theorem descent_descend (offset : Int) (outline : Outline) :
    Descent offset outline (outline.descend offset) := by
  induction outline using inductionOnChildren with
  | step outline ih =>
      obtain ⟨id, parent, label, children⟩ := outline
      rw [descend, descendFirst_eq]
      cases hfind : children.find? fun child => child.location.contains offset with
      | none =>
          have hnone : ∀ child ∈ children, child.location.contains offset = false := by
            simpa using hfind
          exact .last hnone
      | some child => exact .next hfind (ih child (List.mem_of_find?_eq_some hfind))

namespace Descent

variable {offset : Int} {outline node : Outline} {path : List Outline}

/-- All nodes on the way contain the offset, if the first one does. -/
theorem contains (h : Descent offset outline path)
    (houtline : outline.location.contains offset = true) :
    ∀ node ∈ path, node.location.contains offset = true := by
  induction h with
  | last hnone => exact List.forall_mem_singleton.mpr houtline
  | next hfirst hrest ih =>
      have hchild := @List.find?_some _ (fun child : Outline => child.location.contains offset) _ _
        hfirst
      exact List.forall_mem_cons.mpr ⟨houtline, ih hchild⟩

/-- The way ends where no child contains the offset. -/
theorem of_getLast? (h : Descent offset outline path) (hlast : path.getLast? = some node) :
    ∀ child ∈ node.children, child.location.contains offset = false := by
  induction h with
  | last hnone =>
      obtain rfl := Option.some.inj hlast
      exact hnone
  | next hfirst hrest ih =>
      refine ih ?_
      cases hrest with
      | last hnone => exact hlast
      | next hfirst hrest => exact hlast

end Descent

/-! ## Nothing is missed -/

/-- The location of a node begins no later than it ends and encloses those of the children, and the
children stand side by side. -/
structure Nested (node : Outline) : Prop where
  start_le : node.location.start.whole ≤ node.location.stop.whole
  encloses : ∀ child ∈ node.children,
    node.location.start.whole ≤ child.location.start.whole ∧
      child.location.stop.whole ≤ node.location.stop.whole
  beside : node.children.IsChain fun left right =>
    left.location.stop.whole ≤ right.location.start.whole

instance (node : Outline) : Decidable node.Nested :=
  decidable_of_iff _ ⟨fun h => ⟨h.1, h.2.1, h.2.2⟩, fun h => And.intro h.1 (And.intro h.2 h.3)⟩

/-- A location has an offset strictly inside. -/
def Around (offset : Int) (node : Outline) : Prop :=
  node.location.start.whole < offset ∧ offset < node.location.stop.whole

/-- What has an offset strictly inside contains it. -/
theorem Around.contains {offset : Int} {node : Outline} (h : node.Around offset) :
    node.location.contains offset = true := by
  have hstart : node.location.start.whole ≤ offset := Int.le_of_lt h.1
  have hstop : offset ≤ node.location.stop.whole := Int.le_of_lt h.2
  simp [Location.contains, hstart, hstop]

/-- Nodes that stand side by side, each next to the one before it, do so in any two places. -/
theorem pairwise_beside {nodes : List Outline}
    (hordered : ∀ node ∈ nodes, node.location.start.whole ≤ node.location.stop.whole)
    (hbeside : nodes.IsChain fun left right =>
      left.location.stop.whole ≤ right.location.start.whole) :
    nodes.Pairwise fun left right => left.location.stop.whole ≤ right.location.start.whole := by
  induction nodes with
  | nil => exact .nil
  | cons first rest ih =>
      have hrest := ih (fun node hmem => hordered node (List.mem_cons_of_mem _ hmem)) hbeside.tail
      refine List.pairwise_cons.mpr ⟨fun later hlater => ?_, hrest⟩
      cases rest with
      | nil => exact absurd hlater List.not_mem_nil
      | cons second more =>
          have hnext := (List.isChain_cons_cons.mp hbeside).1
          rcases List.mem_cons.mp hlater with rfl | hmore
          · exact hnext
          · calc first.location.stop.whole
                ≤ second.location.start.whole := hnext
              _ ≤ second.location.stop.whole := hordered second (by simp)
              _ ≤ later.location.start.whole := List.rel_of_pairwise_cons hrest hmore

section

variable {offset : Int} {outline node : Outline}

/-- With a node all that it is part of has the offset strictly inside. -/
theorem Around.of_mem_preorder (hnested : ∀ node ∈ outline.preorder, node.Nested)
    (hnode : node ∈ outline.preorder) (haround : node.Around offset) : outline.Around offset := by
  induction outline using inductionOnChildren with
  | step outline ih =>
      rw [preorder_eq] at hnode
      rcases List.mem_cons.mp hnode with rfl | hbelow
      · exact haround
      · obtain ⟨child, hchild, hmem⟩ := List.mem_flatMap.mp hbelow
        have hinner : child.Around offset := ih child hchild
          (fun node hmem => hnested node (mem_preorder_of_mem_children hchild hmem)) hmem
        obtain ⟨hstart, hstop⟩ := (hnested outline (mem_preorder_self _)).encloses child hchild
        exact ⟨Int.lt_of_le_of_lt hstart hinner.1, Int.lt_of_lt_of_le hinner.2 hstop⟩

/-- Where siblings stand side by side, the one with the offset strictly inside is gone into. -/
theorem Nested.eq_of_find? {child inner : Outline} (hnested : outline.Nested)
    (hordered : ∀ child ∈ outline.children,
      child.location.start.whole ≤ child.location.stop.whole)
    (hfirst : (outline.children.find? fun child => child.location.contains offset) = some child)
    (hinner : inner ∈ outline.children) (haround : inner.Around offset) : inner = child := by
  obtain ⟨hcontains, front, back, hchildren, hfront⟩ := List.find?_eq_some_iff_append.mp hfirst
  have hbeside := pairwise_beside hordered hnested.beside
  rw [hchildren] at hinner hbeside
  rcases List.mem_append.mp hinner with hahead | hrest
  · -- no sibling ahead contains the offset
    have hmisses := hfront inner hahead
    rw [haround.contains] at hmisses
    cases hmisses
  · rcases List.mem_cons.mp hrest with hsame | hbehind
    · exact hsame
    · -- a sibling behind begins where this one ends or later
      have hapart := List.rel_of_pairwise_cons (List.pairwise_append.mp hbeside).2.1 hbehind
      have hstop : offset ≤ child.location.stop.whole := by
        simp only [Location.contains, Bool.and_eq_true, decide_eq_true_eq] at hcontains
        exact hcontains.2
      have hstart := haround.1
      omega

/-- **Nothing is missed.**  A node with the offset strictly inside is on the way in. -/
theorem Descent.mem_of_around {path : List Outline} (h : Descent offset outline path)
    (hnested : ∀ node ∈ outline.preorder, node.Nested) (hnode : node ∈ outline.preorder)
    (haround : node.Around offset) : node ∈ path := by
  induction h with
  | @last outline hnone =>
      rw [preorder_eq] at hnode
      rcases List.mem_cons.mp hnode with hself | hbelow
      · exact List.mem_singleton.mpr hself
      · obtain ⟨child, hchild, hmem⟩ := List.mem_flatMap.mp hbelow
        have hinner : child.Around offset := haround.of_mem_preorder
          (fun node hmem => hnested node (mem_preorder_of_mem_children hchild hmem)) hmem
        have hmisses := hnone child hchild
        rw [hinner.contains] at hmisses
        cases hmisses
  | @next outline child path hfirst hrest ih =>
      rw [preorder_eq] at hnode
      rcases List.mem_cons.mp hnode with hself | hbelow
      · exact List.mem_cons.mpr (.inl hself)
      · obtain ⟨inner, hinner, hmem⟩ := List.mem_flatMap.mp hbelow
        have hbelow : ∀ node ∈ inner.preorder, node.Nested :=
          fun node hmem => hnested node (mem_preorder_of_mem_children hinner hmem)
        have hordered : ∀ child ∈ outline.children,
            child.location.start.whole ≤ child.location.stop.whole := fun child hchild =>
          (hnested child (mem_preorder_of_mem_children hchild (mem_preorder_self _))).start_le
        obtain rfl := (hnested outline (mem_preorder_self _)).eq_of_find? hordered hfirst hinner
          (haround.of_mem_preorder hbelow hmem)
        exact List.mem_cons_of_mem _ (ih hbelow hmem)

end

end Outline

namespace Node

open Outline (Descent)

variable (tree : Node) {offset : Int} {node : Outline} {path : List Outline}

/-! ## The way out -/

/-- The way in, gone back and beyond its first node, is the way out from its last one. -/
theorem outward_of_descent (h : Descent offset node path)
    (hnode : node ∈ tree.index.nodes.toList) :
    ∃ last, path.getLast? = some last ∧
      tree.index.outward last = path.reverse ++ (tree.index.outward node).tail := by
  induction h with
  | @last node hnone => exact ⟨node, rfl, rfl⟩
  | @next node child path hfirst hrest ih =>
      have hchild : child ∈ node.children := List.mem_of_find?_eq_some hfirst
      obtain ⟨last, hlast, houtward⟩ := ih (tree.child_mem_nodes hnode hchild)
      refine ⟨last, ?_, ?_⟩
      · rw [List.getLast?_cons, hlast]
        rfl
      · rw [houtward, tree.outward_child hnode hchild, List.tail_cons, List.reverse_cons,
          List.append_assoc]
        rfl

/-- From the root on, the way out is the way in. -/
theorem exists_innermost (hroot : tree.index.root.location.contains offset = true) :
    ∃ node, tree.index.innermost offset none = some node ∧
      tree.index.root.descend offset = (tree.index.outward node).reverse := by
  obtain ⟨node, hlast, houtward⟩ := tree.outward_of_descent
    (Outline.descent_descend offset tree.index.root) tree.root_mem_nodes
  refine ⟨node, ?_, ?_⟩
  · rw [Index.innermost, if_pos hroot]
    exact hlast
  · rw [houtward, tree.outward_root, List.tail_cons, List.append_nil, List.reverse_reverse]

theorem innermost_of_not_contains (kind : Option Text)
    (hroot : tree.index.root.location.contains offset = false) :
    tree.index.innermost offset kind = none := by
  rw [Index.innermost, hroot]
  rfl

/-- **The innermost node.**  There is one exactly if the root contains the offset.  The way from the
root to it goes into the first child that contains the offset at each level, and ends where none
does.  If the tree is nested, every node with the offset strictly inside is that node or one above
it.  For a kind, the nearest node of the kind on the way from the innermost one to the root is
found. -/
theorem innermost_around (offset : Int) :
    (tree.index.innermost offset none = none ↔
      tree.index.root.location.contains offset = false) ∧
    (∀ node, tree.index.innermost offset none = some node →
      Descent offset tree.index.root (tree.index.outward node).reverse ∧
        (∀ outer ∈ tree.index.outward node, outer.location.contains offset = true) ∧
        ∀ child ∈ node.children, child.location.contains offset = false) ∧
    ((∀ node ∈ tree.index.nodes.toList, node.Nested) →
      ∀ other ∈ tree.index.nodes.toList, other.Around offset →
        ∃ node, tree.index.innermost offset none = some node ∧
          other ∈ tree.index.outward node) ∧
    ∀ kind, tree.index.innermost offset (some kind) =
      (tree.index.innermost offset none).bind fun node =>
        (tree.index.outward node).find? fun outer => outer.kind = kind := by
  cases hroot : tree.index.root.location.contains offset with
  | false =>
      have hnone := tree.innermost_of_not_contains none hroot
      refine ⟨iff_of_true hnone rfl, fun node hnode => ?_, fun hnested other hother haround => ?_,
        fun kind => ?_⟩
      · rw [hnone] at hnode
        cases hnode
      · have hall : ∀ node ∈ tree.index.root.preorder, node.Nested := fun node hmem =>
          hnested node (tree.mem_index_nodes.mpr hmem)
        have houter := haround.of_mem_preorder hall (tree.mem_index_nodes.mp hother)
        rw [houter.contains] at hroot
        cases hroot
      · rw [hnone, tree.innermost_of_not_contains (some kind) hroot]
        rfl
  | true =>
      have hdescent := Outline.descent_descend offset tree.index.root
      obtain ⟨node, hnode, hway⟩ := tree.exists_innermost hroot
      rw [hway] at hdescent
      refine ⟨iff_of_false (by simp [hnode]) (by simp), fun other hother => ?_,
        fun hnested other hother haround => ?_, fun kind => ?_⟩
      · rw [hnode] at hother
        obtain rfl := Option.some.inj hother
        refine ⟨hdescent, fun outer houter => ?_, hdescent.of_getLast? ?_⟩
        · exact hdescent.contains hroot outer (List.mem_reverse.mpr houter)
        · rw [List.getLast?_reverse]
          rfl
      · have hall : ∀ node ∈ tree.index.root.preorder, node.Nested := fun node hmem =>
          hnested node (tree.mem_index_nodes.mpr hmem)
        exact ⟨node, hnode, List.mem_reverse.mp
          (hdescent.mem_of_around hall (tree.mem_index_nodes.mp hother) haround)⟩
      · rw [hnode, Index.innermost, if_pos hroot, hway]
        dsimp only
        rw [Option.bind_some, List.reverse_reverse]

/-- Two definitions that touch, the second one with a parameter. -/
def touching : Node :=
  .mk { kind := "program_node", location := ⟨.int 0, .int 9, 1, 0⟩ }
    [some (.mk { kind := definitionKind, location := ⟨.int 0, .int 4, 1, 0⟩ } []), none,
      some (.mk { kind := definitionKind, location := ⟨.int 4, .int 9, 1, 4⟩ }
        [some (.mk { kind := parametersKind, location := ⟨.int 5, .int 8, 1, 5⟩ } [])])]

/-- Where they touch the first one is found; inside of the parameter the parameter is on the way to
the innermost node, and the definition around it is found on the way out. -/
theorem innermost_around_touching :
    (∃ node, touching.index.innermost 4 none = some node ∧ node.id = 1 ∧
      Descent 4 touching.index.root (touching.index.outward node).reverse) ∧
    ∃ parameter ∈ touching.index.nodes.toList, parameter.id = 3 ∧
      ∃ node, touching.index.innermost 6 none = some node ∧
        parameter ∈ touching.index.outward node ∧
        touching.index.innermost 6 (some definitionKind) =
          (touching.index.outward node).find? fun outer => outer.kind = definitionKind := by
  obtain ⟨-, hway, -, -⟩ := touching.innermost_around 4
  obtain ⟨-, -, haround, hkind⟩ := touching.innermost_around 6
  have htouch : (touching.index.innermost 4 none).map Outline.id = some 1 := by decide +kernel
  obtain ⟨first, hfirst, hid⟩ := Option.map_eq_some_iff.mp htouch
  have hnested : ∀ node ∈ touching.index.nodes.toList, node.Nested := by decide +kernel
  have hthird : touching.index.nodes.toList[3]? =
      some (.mk 3 (some 2) { kind := parametersKind, location := ⟨.int 5, .int 8, 1, 5⟩ } []) := rfl
  have hmem := List.mem_of_getElem? hthird
  obtain ⟨node, hnode, houtward⟩ :=
    haround hnested _ hmem ⟨by decide +kernel, by decide +kernel⟩
  refine ⟨⟨first, hfirst, hid, (hway first hfirst).1⟩, _, hmem, rfl, node, hnode, houtward, ?_⟩
  rw [hkind, hnode]
  rfl

end Node

end SyntaxRepair
