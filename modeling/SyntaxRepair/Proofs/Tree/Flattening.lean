import SyntaxRepair.Tree.Arena
import SyntaxRepair.Proofs.Sequences
import SyntaxRepair.Proofs.Tree.Ancestry
import Mathlib.Data.List.Chain

/-!
# Trees in rows

The rows of a tree are filled from a stack.  What is on the stack is a forest whose nodes will be
numbered one after another, and to fill the rows from it is to append the nodes of the numbered
forest (`Arena.fill_pending`).  So the rows say what the index of the tree says
(`Node.arena_eq`), and what is known of numbered trees is known of the rows: a tree that is put
together again from them (`Arena.rebuild`) is the tree without its gaps.
-/

namespace SyntaxRepair

/-! ## Trees without gaps -/

namespace Node

mutual

/-- A tree without the gaps among the children of its nodes. -/
def withoutGaps : Node → Node
  | .mk label children => .mk label (withoutGapsAll children)

/-- Several trees without gaps among them and in them. -/
def withoutGapsAll : List (Option Node) → List (Option Node)
  | [] => []
  | none :: rest => withoutGapsAll rest
  | some node :: rest => some node.withoutGaps :: withoutGapsAll rest

end

mutual

/-- A tree and all the trees below it in preorder. -/
def subtrees : Node → List Node
  | .mk label children => .mk label children :: subtreesAll children

/-- Several trees and all those below them. -/
def subtreesAll : List (Option Node) → List Node
  | [] => []
  | none :: rest => subtreesAll rest
  | some node :: rest => node.subtrees ++ subtreesAll rest

end

end Node

namespace Outline

mutual

/-- A numbered tree without its numbers. -/
def forget : Outline → Node
  | .mk _ _ label children => .mk label (forgetAll children)

/-- Several numbered trees without their numbers. -/
def forgetAll : List Outline → List (Option Node)
  | [] => []
  | first :: rest => some first.forget :: forgetAll rest

end

theorem forgetAll_eq (outlines : List Outline) :
    forgetAll outlines = (outlines.map forget).map some := by
  induction outlines with
  | nil => rfl
  | cons first rest ih => rw [forgetAll, ih, List.map_cons, List.map_cons]

theorem forget_eq (outline : Outline) :
    outline.forget = .mk outline.label ((outline.children.map forget).map some) := by
  obtain ⟨id, parent, label, children⟩ := outline
  rw [forget, forgetAll_eq]
  rfl

mutual

/-- The nodes of a numbered tree in preorder are the trees in it. -/
theorem map_forget_preorder :
    ∀ outline : Outline, outline.preorder.map forget = outline.forget.subtrees
  | .mk id parent label children => by
      rw [preorder_eq, List.map_cons, Outline.children, map_forget_flatMap children, forget,
        Node.subtrees]

theorem map_forget_flatMap :
    ∀ outlines : List Outline,
      (outlines.flatMap preorder).map forget = Node.subtreesAll (forgetAll outlines)
  | [] => rfl
  | first :: rest => by
      rw [List.flatMap_cons, List.map_append, map_forget_preorder first, map_forget_flatMap rest,
        forgetAll, Node.subtreesAll]

end

end Outline

namespace Node

mutual

/-- To number a tree loses nothing but its gaps. -/
theorem forget_number (parent : Option Nat) (first : Nat) :
    ∀ node : Node, (node.number parent first).1.forget = node.withoutGaps
  | .mk label children => by
      rw [number, Outline.forget, forgetAll_numberAll first (first + 1) children, withoutGaps]

theorem forgetAll_numberAll (parent first : Nat) :
    ∀ children : List (Option Node),
      Outline.forgetAll (numberAll parent first children).1 = withoutGapsAll children
  | [] => rfl
  | none :: rest => forgetAll_numberAll parent first rest
  | some node :: rest => by
      rw [numberAll, Outline.forgetAll, forget_number (some parent) first node,
        forgetAll_numberAll parent _ rest, withoutGapsAll]

end

/-- The numbers from `first` on are used up by the nodes. -/
theorem number_next (parent : Option Nat) (first : Nat) (node : Node) :
    (node.number parent first).2 = first + (node.number parent first).1.preorder.length := by
  obtain ⟨count, hnext, hids⟩ := number_ids parent first node
  have hlength := congrArg List.length hids
  rw [List.length_map, List.length_range'] at hlength
  rw [hnext, hlength]

end Node

/-! ## Filling the rows -/

namespace Arena

/-- Rows that have one entry for each node. -/
def Even (arena : Arena) : Prop := arena.children.size = arena.size

/-- Rows with nodes of a numbered tree behind them. -/
def extend (arena : Arena) (nodes : List Outline) : Arena where
  labels := arena.labels ++ (nodes.map Outline.label).toArray
  parents := arena.parents ++ (nodes.map Outline.parent).toArray
  children := arena.children ++
    (nodes.map fun node => (node.children.map Outline.id).toArray).toArray

variable {arena : Arena} {parent : Option Nat}

theorem extend_extend (first second : List Outline) :
    (arena.extend first).extend second = arena.extend (first ++ second) := by
  simp [extend]

theorem extend_nil : arena.extend [] = arena := by
  simp [extend]

@[simp] theorem size_extend (nodes : List Outline) :
    (arena.extend nodes).size = arena.size + nodes.length := by
  simp [extend, size]

@[simp] theorem size_adopt (ids : List Nat) : (arena.adopt parent ids).size = arena.size := by
  cases parent <;> rfl

theorem Even.extend (h : arena.Even) (nodes : List Outline) : (arena.extend nodes).Even := by
  have hsize : arena.children.size = arena.size := h
  rw [Even, size_extend, ← hsize]
  simp [Arena.extend]

theorem Even.adopt (h : arena.Even) (ids : List Nat) : (arena.adopt parent ids).Even := by
  cases parent with
  | none => exact h
  | some parent =>
      rw [Even, size_adopt, ← h]
      exact Array.size_modify

theorem adopt_adopt (first second : List Nat) :
    (arena.adopt parent first).adopt parent second = arena.adopt parent (first ++ second) := by
  cases parent with
  | none => rfl
  | some parent =>
      simp only [adopt, mk.injEq, true_and]
      apply Array.ext_getElem?
      intro place
      rw [Array.getElem?_modify, Array.getElem?_modify, Array.getElem?_modify]
      by_cases hplace : parent = place
      · rw [if_pos hplace, if_pos hplace, if_pos hplace, Option.map_map]
        congr 1
        funext before
        apply Array.toList_inj.mp
        simp
      · rw [if_neg hplace, if_neg hplace, if_neg hplace]

/-- What becomes a child of an earlier node leaves the later ones alone. -/
theorem extend_adopt (heven : arena.Even) (hbelow : ∀ above ∈ parent, above < arena.size)
    (nodes : List Outline) (ids : List Nat) :
    (arena.extend nodes).adopt parent ids = (arena.adopt parent ids).extend nodes := by
  cases parent with
  | none => rfl
  | some parent =>
      have hlt : parent < arena.children.size := heven.symm ▸ hbelow parent rfl
      simp only [adopt, extend, mk.injEq, true_and]
      grind

theorem adopt_nil : arena.adopt parent [] = arena := by
  cases parent with
  | none => rfl
  | some parent =>
      obtain ⟨labels, parents, children⟩ := arena
      simp only [adopt, mk.injEq, true_and]
      apply Array.ext_getElem?
      intro place
      simp [Array.getElem?_modify]

/-- A node behind the others that gets its children stands there with them. -/
theorem Even.adopt_last (heven : arena.Even) (parent : Option Nat) (label : Label)
    (children : List Outline) :
    (arena.extend [.mk arena.size parent label []]).adopt (some arena.size)
      (children.map Outline.id) = arena.extend [.mk arena.size parent label children] := by
  have hsize : arena.children.size = arena.size := heven
  simp only [Arena.adopt, Arena.extend, mk.injEq]
  refine ⟨rfl, rfl, ?_⟩
  rw [← hsize]
  grind [Outline.children]

theorem enter_eq (label : Label) :
    arena.enter label parent =
      (arena.extend [.mk arena.size parent label []]).adopt parent [arena.size] := rfl

end Arena

namespace Node

open Arena (pending)

mutual

/-- To enter a tree that is on top of the stack is to append its nodes, numbered from the number of
rows on. -/
theorem fill_number (arena : Arena) (parent : Option Nat) (waiting : List (Node × Option Nat))
    (heven : arena.Even) (hbelow : ∀ above ∈ parent, above < arena.size) :
    ∀ node : Node, arena.fill ((node, parent) :: waiting) =
      ((arena.adopt parent [arena.size]).extend
        (node.number parent arena.size).1.preorder).fill waiting
  | .mk label children => by
      have hsize : (arena.enter label parent).size = arena.size + 1 := by
        rw [Arena.enter_eq, Arena.size_adopt, Arena.size_extend, List.length_singleton]
      have hentered : (arena.enter label parent).Even := by
        rw [Arena.enter_eq]
        exact (heven.extend _).adopt _
      have hadopt : (arena.adopt parent [arena.size]).Even := heven.adopt _
      have hlast := hadopt.adopt_last parent label
        (numberAll arena.size (arena.size + 1) children).1
      rw [Arena.size_adopt] at hlast
      rw [Arena.fill, fill_numberAll (arena.enter label parent) arena.size waiting hentered
        (by omega) children, hsize, Arena.enter_eq, Arena.extend_adopt heven hbelow, hlast,
        Arena.extend_extend, number, Outline.preorder_eq]
      rfl

/-- To enter several trees that are on top of the stack is to append their nodes, numbered one after
another, and to hang their numbers below their parent. -/
theorem fill_numberAll (arena : Arena) (parent : Nat) (waiting : List (Node × Option Nat))
    (heven : arena.Even) (hbelow : parent < arena.size) :
    ∀ children : List (Option Node),
      arena.fill (pending (some parent) children ++ waiting) =
        ((arena.adopt (some parent)
            ((numberAll parent arena.size children).1.map Outline.id)).extend
          ((numberAll parent arena.size children).1.flatMap Outline.preorder)).fill waiting
  | [] => by
      rw [numberAll, List.map_nil, Arena.adopt_nil, List.flatMap_nil, Arena.extend_nil]
      rfl
  | none :: rest => fill_numberAll arena parent waiting heven hbelow rest
  | some node :: rest => by
      have hpending : pending (some parent) (some node :: rest) ++ waiting =
          (node, some parent) :: (pending (some parent) rest ++ waiting) := rfl
      have hfirst := fill_number arena (some parent) (pending (some parent) rest ++ waiting) heven
        (by simpa using hbelow) node
      have hsize : ((arena.adopt (some parent) [arena.size]).extend
          (node.number (some parent) arena.size).1.preorder).size =
            (node.number (some parent) arena.size).2 := by
        rw [Arena.size_extend, Arena.size_adopt, number_next]
      rw [hpending, hfirst, fill_numberAll _ parent waiting ((heven.adopt _).extend _)
        (by rw [Arena.size_extend, Arena.size_adopt]; omega) rest, hsize,
        Arena.extend_adopt (heven.adopt _) (by simpa using hbelow), Arena.adopt_adopt,
        Arena.extend_extend, numberAll, List.map_cons, List.flatMap_cons, number_id]
      rfl

end

end Node

/-- The rows of a numbered tree: what each node says about itself, and the numbers of its parent and
of its children. -/
def Index.arena (index : Index) : Arena := Arena.extend {} index.nodes.toList

theorem Node.arena_eq (tree : Node) : tree.arena = tree.index.arena := by
  have heven : ({} : Arena).Even := rfl
  have hfill := tree.fill_number {} none [] heven (by simp)
  rw [Node.arena, hfill, Arena.fill]
  rfl

/-! ## Reading the rows -/

namespace Arena

/-- The tree below a number, put together from the rows. -/
def rebuild (arena : Arena) (id : Nat) : Option Node := do
  let label ← arena.labels[id]?
  let children ← (arena.childrenOf id).mapM fun child =>
    if _hnext : id < child ∧ child < arena.size then arena.rebuild child else none
  return .mk label (children.map some)
termination_by arena.size - id

end Arena

namespace Node

variable (tree : Node) {node child : Outline} {id : Nat}

theorem size_arena : tree.arena.size = tree.index.nodes.toList.length := by
  rw [arena_eq, Index.arena, Arena.size_extend]
  exact Nat.zero_add _

theorem labels_arena (id : Nat) :
    tree.arena.labels[id]? = (tree.index.find? id).map Outline.label := by
  simp [arena_eq, Index.arena, Arena.extend, Index.find?]

theorem parent?_arena (id : Nat) :
    tree.arena.parent? id = (tree.index.find? id).bind Outline.parent := by
  rw [arena_eq, Arena.parent?, Index.find?]
  have hrow : tree.index.arena.parents[id]? = tree.index.nodes[id]?.map Outline.parent := by
    simp [Index.arena, Arena.extend]
  rw [hrow]
  cases tree.index.nodes[id]? <;> rfl

theorem childrenOf_arena (id : Nat) :
    tree.arena.childrenOf id =
      ((tree.index.find? id).map fun node => node.children.map Outline.id).getD [] := by
  have hrow : tree.index.arena.children[id]? =
      tree.index.nodes[id]?.map fun node => (node.children.map Outline.id).toArray := by
    simp [Index.arena, Arena.extend]
  rw [arena_eq, Arena.childrenOf, hrow, Index.find?]
  cases tree.index.nodes[id]? <;> rfl

theorem childrenOf_id (hnode : node ∈ tree.index.nodes.toList) :
    tree.arena.childrenOf node.id = node.children.map Outline.id := by
  rw [childrenOf_arena, tree.find?_id hnode]
  rfl

theorem parent?_id (hnode : node ∈ tree.index.nodes.toList) :
    tree.arena.parent? node.id = node.parent := by
  rw [parent?_arena, tree.find?_id hnode]
  rfl

/-- A number below the number of rows is that of a node. -/
theorem exists_id_eq (h : id < tree.arena.size) :
    ∃ node ∈ tree.index.nodes.toList, node.id = id := by
  rw [size_arena] at h
  have hfind : tree.index.find? id = some tree.index.nodes.toList[id] := by
    rw [Index.find?, ← Array.getElem?_toList]
    exact List.getElem?_eq_getElem h
  exact ⟨_, tree.mem_nodes_of_find? hfind, tree.id_of_find? hfind⟩

theorem id_lt_size (hnode : node ∈ tree.index.nodes.toList) : node.id < tree.arena.size := by
  rw [size_arena]
  exact (List.getElem?_eq_some_iff.mp (tree.getElem?_id hnode)).1

/-! ## Putting the tree together again -/

/-- What is put together from the number of a node on is the tree of the node. -/
theorem rebuild_id (hnode : node ∈ tree.index.nodes.toList) :
    tree.arena.rebuild node.id = some node.forget := by
  induction node using Outline.inductionOnChildren with
  | step node ih =>
      have hchildren : ((tree.arena.childrenOf node.id).mapM fun child =>
          if _hnext : node.id < child ∧ child < tree.arena.size then tree.arena.rebuild child
          else none) = some (node.children.map Outline.forget) := by
        rw [tree.childrenOf_id hnode, List.mapM_map]
        refine mapM_eq_some_map fun child hchild => ?_
        have hmem := tree.child_mem_nodes hnode hchild
        have hlater := (tree.consecutive hnode).id_lt hchild
        rw [Function.comp_apply, dif_pos ⟨hlater, tree.id_lt_size hmem⟩, ih child hchild hmem]
      rw [Arena.rebuild, tree.labels_arena, tree.find?_id hnode]
      simp only [Option.map_some, Option.bind_eq_bind, Option.bind_some, hchildren]
      rw [node.forget_eq]
      rfl

theorem rebuild_arena (id : Nat) :
    tree.arena.rebuild id = (tree.index.find? id).map Outline.forget := by
  cases hfind : tree.index.find? id with
  | none =>
      rw [Arena.rebuild, tree.labels_arena, hfind]
      rfl
  | some node =>
      rw [← tree.id_of_find? hfind, tree.rebuild_id (tree.mem_nodes_of_find? hfind)]
      rfl

/-- The trees that are put together stand in preorder. -/
theorem rebuild_eq (id : Nat) : tree.arena.rebuild id = tree.withoutGaps.subtrees[id]? := by
  have hnodes : tree.index.nodes.toList.map Outline.forget = tree.withoutGaps.subtrees := by
    rw [index, List.toList_toArray, Outline.map_forget_preorder, forget_number]
  rw [rebuild_arena, ← hnodes, List.getElem?_map, Index.find?, ← Array.getElem?_toList]

/-! ## Walking -/

/-- From a forest on the stack, whose nodes are numbered one after another, the numbers of its nodes
are met. -/
theorem walkFrom_eq (count : Nat) :
    ∀ (next : Nat) (forest : List Outline), (∀ node ∈ forest, node ∈ tree.index.nodes.toList) →
      (forest.flatMap Outline.preorder).map Outline.id = List.range' next count →
        tree.arena.walkFrom next (forest.map Outline.id) = List.range' next count := by
  induction count with
  | zero =>
      intro next forest hforest hids
      cases forest with
      | nil => rw [List.map_nil, Arena.walkFrom, List.range'_zero]
      | cons first rest =>
          rw [List.flatMap_cons, Outline.preorder_eq] at hids
          cases hids
  | succ count ih =>
      intro next forest hforest hids
      cases forest with
      | nil => cases hids
      | cons first rest =>
          have hfirst := hforest first (List.mem_cons_self ..)
          rw [List.flatMap_cons, Outline.preorder_eq, List.cons_append, List.map_cons,
            List.range'_succ, List.cons.injEq] at hids
          obtain ⟨hid, hbelow⟩ := hids
          rw [← List.flatMap_append] at hbelow
          have hchildren : ∀ node ∈ first.children ++ rest, node ∈ tree.index.nodes.toList := by
            intro node hmem
            rcases List.mem_append.mp hmem with hchild | hrest
            · exact tree.child_mem_nodes hfirst hchild
            · exact hforest node (List.mem_cons_of_mem _ hrest)
          have hwalk := ih (next + 1) (first.children ++ rest) hchildren hbelow
          rw [List.map_cons, Arena.walkFrom, if_pos ⟨hid.ge, tree.id_lt_size hfirst⟩,
            tree.childrenOf_id hfirst, ← List.map_append, hid, hwalk, List.range'_succ]

/-- A walk meets the numbers of the nodes of a tree, which begin with that of its root. -/
theorem walk_id (hnode : node ∈ tree.index.nodes.toList) :
    tree.arena.walk node.id = List.range' node.id node.preorder.length := by
  have hids : ([node].flatMap Outline.preorder).map Outline.id =
      List.range' node.id node.preorder.length := by
    rw [List.flatMap_singleton]
    exact tree.consecutive hnode
  exact tree.walkFrom_eq _ node.id [node] (List.forall_mem_singleton.mpr hnode) hids

/-! ## Parents and children -/

/-- What stands in the rows of children is the number of a child. -/
theorem exists_of_mem_childrenOf {parent : Nat} (h : id ∈ tree.arena.childrenOf parent) :
    ∃ node ∈ tree.index.nodes.toList, node.id = parent ∧
      ∃ child ∈ node.children, child.id = id := by
  rw [childrenOf_arena] at h
  cases hfind : tree.index.find? parent with
  | none =>
      rw [hfind] at h
      cases h
  | some node =>
      rw [hfind] at h
      exact ⟨node, tree.mem_nodes_of_find? hfind, tree.id_of_find? hfind, List.mem_map.mp h⟩

theorem lt_of_mem_childrenOf {parent : Nat} (h : id ∈ tree.arena.childrenOf parent) :
    parent < id := by
  obtain ⟨node, hnode, rfl, child, hchild, rfl⟩ := tree.exists_of_mem_childrenOf h
  exact (tree.consecutive hnode).id_lt hchild

/-- The rows of parents and of children say the same. -/
theorem parent?_eq_some_iff (parent id : Nat) :
    tree.arena.parent? id = some parent ↔ id ∈ tree.arena.childrenOf parent := by
  constructor
  · intro h
    rw [parent?_arena] at h
    obtain ⟨child, hfind, hparent⟩ := Option.bind_eq_some_iff.mp h
    have hmem := tree.mem_nodes_of_find? hfind
    rcases Outline.exists_parent_of_mem_preorder (tree.mem_index_nodes.mp hmem) with
      rfl | ⟨above, habove, hchild⟩
    · rw [tree.parent_root] at hparent
      cases hparent
    · rw [← tree.mem_index_nodes] at habove
      rw [tree.parent_of_child habove hchild] at hparent
      obtain rfl := Option.some.inj hparent
      rw [tree.childrenOf_id habove, ← tree.id_of_find? hfind]
      exact List.mem_map_of_mem hchild
  · intro h
    obtain ⟨node, hnode, rfl, child, hchild, rfl⟩ := tree.exists_of_mem_childrenOf h
    rw [tree.parent?_id (tree.child_mem_nodes hnode hchild), tree.parent_of_child hnode hchild]

/-- Each number is followed by that of the parent, up to the root. -/
theorem above_chain (hnode : node ∈ tree.index.nodes.toList) :
    (node.id :: tree.index.above node.id).IsChain
        (fun child parent => tree.arena.parent? child = some parent) ∧
      (node.id :: tree.index.above node.id).getLast? = some 0 := by
  induction hid : node.id using Nat.strong_induction_on generalizing node with
  | _ id ih =>
      subst hid
      rcases Outline.exists_parent_of_mem_preorder (tree.mem_index_nodes.mp hnode) with
        rfl | ⟨above, habove, hchild⟩
      · rw [tree.above_root, tree.id_root]
        exact ⟨List.isChain_singleton _, rfl⟩
      · rw [← tree.mem_index_nodes] at habove
        obtain ⟨hchain, hlast⟩ := ih above.id ((tree.consecutive habove).id_lt hchild) habove rfl
        have hparent : tree.arena.parent? node.id = some above.id := by
          rw [tree.parent?_id hnode, tree.parent_of_child habove hchild]
        rw [tree.above_child habove hchild]
        exact ⟨List.isChain_cons_cons.mpr ⟨hparent, hchain⟩, hlast⟩

/-- The numbers of the nodes above a node fall. -/
theorem above_pairwise (hnode : node ∈ tree.index.nodes.toList) :
    (node.id :: tree.index.above node.id).Pairwise (· > ·) := by
  apply List.isChain_iff_pairwise.mp
  refine (tree.above_chain hnode).1.imp fun child parent hparent => ?_
  exact tree.lt_of_mem_childrenOf ((tree.parent?_eq_some_iff parent child).mp hparent)

/-- **The rows are the tree.**  They are those of the tree numbered in preorder.  Put together from
them again, the root gives the tree without its gaps, and the number of each node the tree below
it, which stands at that number among the trees in preorder.  A node is the parent of another
exactly if it lists it among its children, and has a smaller number then.  A walk meets the numbers
of a tree one after another.  The numbers above a node, each the parent of the one before, fall to
that of the root. -/
theorem arena_flattens :
    tree.arena = tree.index.arena ∧
    tree.arena.rebuild 0 = some tree.withoutGaps ∧
    (∀ id, tree.arena.rebuild id = tree.withoutGaps.subtrees[id]?) ∧
    (∀ parent id, tree.arena.parent? id = some parent ↔ id ∈ tree.arena.childrenOf parent) ∧
    (∀ parent, ∀ id ∈ tree.arena.childrenOf parent, parent < id) ∧
    (∀ id subtree, tree.arena.rebuild id = some subtree →
      tree.arena.walk id = List.range' id subtree.subtrees.length) ∧
    ∀ id < tree.arena.size,
      (id :: tree.index.above id).IsChain
          (fun child parent => tree.arena.parent? child = some parent) ∧
        (id :: tree.index.above id).Pairwise (· > ·) ∧
        (id :: tree.index.above id).getLast? = some 0 := by
  refine ⟨tree.arena_eq, ?_, tree.rebuild_eq, tree.parent?_eq_some_iff,
    fun parent id h => tree.lt_of_mem_childrenOf h, fun id subtree h => ?_, fun id hid => ?_⟩
  · rw [rebuild_eq]
    obtain ⟨label, children⟩ := tree
    rfl
  · rw [rebuild_arena] at h
    obtain ⟨node, hfind, rfl⟩ := Option.map_eq_some_iff.mp h
    rw [← tree.id_of_find? hfind, tree.walk_id (tree.mem_nodes_of_find? hfind),
      ← Outline.map_forget_preorder, List.length_map]
  · obtain ⟨node, hnode, rfl⟩ := tree.exists_id_eq hid
    obtain ⟨hchain, hlast⟩ := tree.above_chain hnode
    exact ⟨hchain, tree.above_pairwise hnode, hlast⟩

/-- A tree with a gap in front of a child and one behind it. -/
def gapped : Node :=
  .mk { kind := "program_node", location := ⟨.int 0, .int 9, 1, 0⟩ }
    [none, some (.mk { kind := definitionKind, location := ⟨.int 0, .int 5, 1, 0⟩ }
        [some (.mk { kind := parametersKind, location := ⟨.int 2, .int 3, 1, 2⟩ } [])]),
      none, some (.mk { kind := definitionKind, location := ⟨.int 6, .int 9, 2, 0⟩ } [])]

/-- The first child keeps its parameters, and the second one has the number behind them. -/
theorem arena_flattens_gapped :
    gapped.arena.walk 1 = [1, 2] ∧ 3 ∈ gapped.arena.childrenOf 0 ∧
      (2 :: gapped.index.above 2).getLast? = some 0 := by
  obtain ⟨-, -, hrebuild, hparent, -, hwalk, habove⟩ := gapped.arena_flattens
  have hsubtree : gapped.withoutGaps.subtrees[1]?.map (fun subtree => subtree.subtrees.length) =
      some 2 := by decide +kernel
  obtain ⟨subtree, hfound, hlength⟩ := Option.map_eq_some_iff.mp hsubtree
  have hnodes : gapped.index.nodes.toList.length = 4 := by decide +kernel
  have hthird : (gapped.index.find? 3).bind Outline.parent = some 0 := by decide +kernel
  refine ⟨?_, ?_, ?_⟩
  · rw [hwalk 1 subtree ((hrebuild 1).trans hfound), hlength]
    rfl
  · rw [← hparent, gapped.parent?_arena, hthird]
  · refine (habove 2 ?_).2.2
    rw [gapped.size_arena, hnodes]
    decide

end Node

end SyntaxRepair
