import SyntaxRepair.Proofs.Overload.Entries
import SyntaxRepair.Proofs.Repair.Refusals
import SyntaxRepair.Proofs.Repair.Rewriting
import SyntaxRepair.Proofs.Tree.Parents

/-!
# Which definitions come into one group

An overload group is told by the name of its definitions and by the offset at which their parent
begins, not by the parent itself.  Definitions under one parent therefore always come together,
and so do definitions of one name under different parents that begin at one offset
(`Parse.collected_joins_iff`).

## Strategy

`OverloadKey.Covers` says where the definitions of a group stand in the tree.  Whatever becomes of
a diagnostic, the groups that were collected so far stay covered (`resolveDiagnostics_covers`):
one that is resolved adds the definition of its site, whose parent gave the scope, and one that
fails adds nothing.
-/

namespace SyntaxRepair

/-- The definition of a site is a child of a node that begins where the scope of the site does. -/
theorem Sweep.site?_scope {tree : Node} {offset : Int} {site : Sweep.Site}
    (h : Sweep.site? tree.index offset = some site) :
    site.definition.kind = definitionKind ∧
      ∃ parent ∈ tree.index.nodes.toList, site.definition ∈ parent.children ∧
        parent.location.start.whole = site.scope := by
  simp only [Sweep.site?, bind, Option.bind_eq_some_iff] at h
  obtain ⟨definition, hdefinition, id, hid, parent, hparent, _, -, _, -, _, -, hsite⟩ := h
  cases hsite
  obtain ⟨hmem, hchild⟩ :=
    tree.child_of_parent (tree.mem_nodes_of_innermost hdefinition) hid hparent
  exact ⟨Index.kind_of_innermost hdefinition, parent, hmem, hchild, rfl⟩

/-! ## Definitions under the keys of their groups -/

/-- A definition of a tree that belongs under a key: it has the name of the key, and its parent
begins at the scope of the key. -/
structure OverloadKey.Covers (key : OverloadKey) (tree : Node) (parent definition : Outline) :
    Prop where
  parent_mem : parent ∈ tree.index.nodes.toList
  child_mem : definition ∈ parent.children
  kind_eq : definition.kind = definitionKind
  name_eq : definition.label.name.getD [] = key.name
  scope_eq : parent.location.start.whole = key.scope

theorem OverloadKey.Covers.key_eq {key : OverloadKey} {tree : Node} {parent definition : Outline}
    (hcovers : key.Covers tree parent definition) :
    key = ⟨parent.location.start.whole, definition.label.name.getD []⟩ := by
  rw [hcovers.scope_eq, hcovers.name_eq]

/-- All definitions of a group are children of one node of a tree. -/
def OverloadGroup.Siblings (group : OverloadGroup) (tree : Node) : Prop :=
  ∃ parent ∈ tree.index.nodes.toList, ∀ overload ∈ group.overloads,
    ∃ definition ∈ parent.children, definition.id = overload.definition

instance (group : OverloadGroup) (tree : Node) : Decidable (group.Siblings tree) :=
  inferInstanceAs (Decidable (∃ _ ∈ _, ∀ _ ∈ _, ∃ _ ∈ _, _))

namespace Groups

/-- Groups whose entries are definitions of a tree, each under its own key. -/
def Covered (tree : Node) (groups : Groups) : Prop :=
  ∀ entry ∈ groups.entries, ∃ parent definition,
    entry.key.Covers tree parent definition ∧ definition.id = entry.definition

/-- Whether a node has been collected as a definition of some group. -/
def Holds (groups : Groups) (definition : Outline) : Prop :=
  ∃ group ∈ groups, ∃ overload ∈ group.overloads, overload.definition = definition.id

/-- Whether two nodes have been collected as definitions of one group. -/
def Joins (groups : Groups) (first second : Outline) : Prop :=
  ∃ group ∈ groups, (∃ overload ∈ group.overloads, overload.definition = first.id) ∧
    ∃ overload ∈ group.overloads, overload.definition = second.id

variable {tree : Node} {groups : Groups} {key : OverloadKey} {parent definition : Outline}

theorem Covered.add (hcovered : groups.Covered tree) (hcovers : key.Covers tree parent definition)
    (type : Text) (mission : Mission) :
    (groups.add key definition.id type mission).Covered tree := by
  intro entry hentry
  rcases List.mem_append.mp ((entries_add ..).mem_iff.mp hentry) with hold | hnew
  · exact hcovered entry hold
  · rw [List.mem_singleton.mp hnew]
    exact ⟨parent, definition, hcovers, rfl⟩

/-- Each definition of a group stands under the key of the group. -/
theorem Covered.of_overload (hcovered : groups.Covered tree) (hsound : groups.Sound)
    {group : OverloadGroup} (hgroup : group ∈ groups) {overload : Overload}
    (hoverload : overload ∈ group.overloads) :
    ∃ parent definition, group.key.Covers tree parent definition ∧
      definition.id = overload.definition := by
  obtain ⟨mission, hmission⟩ :=
    List.exists_mem_of_ne_nil _ ((hsound.each group hgroup).occupied overload hoverload)
  have hentry : ⟨group.key, overload.definition, mission⟩ ∈ groups.entries :=
    List.mem_flatMap.mpr
      ⟨group, hgroup, OverloadGroup.mem_entries.mpr ⟨rfl, overload, hoverload, rfl, hmission⟩⟩
  exact hcovered _ hentry

/-- A definition that is held stands under the key of its group, with its own parent. -/
theorem Covered.of_definition (hcovered : groups.Covered tree) (hsound : groups.Sound)
    {group : OverloadGroup} (hgroup : group ∈ groups)
    (hholds : ∃ overload ∈ group.overloads, overload.definition = definition.id)
    (hparent : parent ∈ tree.index.nodes.toList) (hchild : definition ∈ parent.children) :
    group.key.Covers tree parent definition := by
  obtain ⟨overload, hoverload, hid⟩ := hholds
  obtain ⟨above, held, hcovers, hheld⟩ := hcovered.of_overload hsound hgroup hoverload
  have hsame : held = definition :=
    tree.eq_of_id_eq (tree.child_mem_nodes hcovers.parent_mem hcovers.child_mem)
      (tree.child_mem_nodes hparent hchild) (hheld.trans hid)
  subst hsame
  rw [tree.parent_unique hparent hcovers.parent_mem hchild hcovers.child_mem]
  exact hcovers

/-- Definitions that are held come into one group exactly if they have one name and their parents
begin at one offset. -/
theorem Covered.joins_iff (hcovered : groups.Covered tree) (hsound : groups.Sound)
    {above other : Outline} {first second : Outline} (habove : above ∈ tree.index.nodes.toList)
    (hother : other ∈ tree.index.nodes.toList) (hfirst : first ∈ above.children)
    (hsecond : second ∈ other.children) (hholds : groups.Holds first)
    (hholds' : groups.Holds second) :
    groups.Joins first second ↔ first.label.name.getD [] = second.label.name.getD [] ∧
      above.location.start.whole = other.location.start.whole := by
  constructor
  · rintro ⟨group, hgroup, hheld, hheld'⟩
    have hcovers := hcovered.of_definition hsound hgroup hheld habove hfirst
    have hcovers' := hcovered.of_definition hsound hgroup hheld' hother hsecond
    exact ⟨hcovers.name_eq.trans hcovers'.name_eq.symm,
      hcovers.scope_eq.trans hcovers'.scope_eq.symm⟩
  · rintro ⟨hname, hscope⟩
    obtain ⟨group, hgroup, hheld⟩ := hholds
    obtain ⟨group', hgroup', hheld'⟩ := hholds'
    have hcovers := hcovered.of_definition hsound hgroup hheld habove hfirst
    have hcovers' := hcovered.of_definition hsound hgroup' hheld' hother hsecond
    -- the two groups have one key, so they are the same
    have hkey : group.key = group'.key := by
      rw [hcovers.key_eq, hcovers'.key_eq, hname, hscope]
    have hsame := List.inj_on_of_nodup_map hsound.keys hgroup hgroup' hkey
    subst hsame
    exact ⟨group, hgroup, hheld, hheld'⟩

/-- Siblings have no other parent than the one that they share. -/
theorem exists_parent_of_siblings {group : OverloadGroup} (hsiblings : group.Siblings tree) :
    ∃ parent, ∀ above ∈ tree.index.nodes.toList, ∀ definition ∈ above.children,
      (∃ overload ∈ group.overloads, overload.definition = definition.id) → above = parent := by
  obtain ⟨parent, hparent, hchildren⟩ := hsiblings
  refine ⟨parent, ?_⟩
  rintro above habove definition hdefinition ⟨overload, hoverload, hid⟩
  obtain ⟨child, hchild, hchildId⟩ := hchildren overload hoverload
  have hsame : child = definition :=
    tree.eq_of_id_eq (tree.child_mem_nodes hparent hchild)
      (tree.child_mem_nodes habove hdefinition) (hchildId.trans hid)
  subst hsame
  exact tree.parent_unique habove hparent hdefinition hchild

/-- All definitions of each group are siblings exactly if definitions of one name that are held
under parents that begin at one offset always have one parent. -/
theorem Covered.siblings_iff (hcovered : groups.Covered tree) (hsound : groups.Sound) :
    (∀ group ∈ groups, group.Siblings tree) ↔
      ∀ above ∈ tree.index.nodes.toList, ∀ other ∈ tree.index.nodes.toList,
        ∀ first ∈ above.children, ∀ second ∈ other.children,
          groups.Holds first → groups.Holds second →
          first.label.name.getD [] = second.label.name.getD [] →
          above.location.start.whole = other.location.start.whole → above = other := by
  constructor
  · intro hsiblings above habove other hother first hfirst second hsecond hholds hholds' hname
      hscope
    obtain ⟨group, hgroup, hheld, hheld'⟩ :=
      (hcovered.joins_iff hsound habove hother hfirst hsecond hholds hholds').mpr ⟨hname, hscope⟩
    obtain ⟨parent, hparent⟩ := exists_parent_of_siblings (hsiblings group hgroup)
    rw [hparent above habove first hfirst hheld, hparent other hother second hsecond hheld']
  · intro hapart group hgroup
    cases hoverloads : group.overloads with
    | nil =>
        refine ⟨tree.index.root, tree.mem_index_nodes.mpr (Outline.mem_preorder_self _), ?_⟩
        rw [hoverloads]
        exact List.forall_mem_nil _
    | cons head rest =>
        have hhead : head ∈ group.overloads := hoverloads ▸ List.mem_cons_self ..
        obtain ⟨parent, first, hcovers, hid⟩ := hcovered.of_overload hsound hgroup hhead
        refine ⟨parent, hcovers.parent_mem, fun overload hoverload => ?_⟩
        obtain ⟨other, second, hcovers', hid'⟩ := hcovered.of_overload hsound hgroup hoverload
        have hparents : parent = other :=
          hapart parent hcovers.parent_mem other hcovers'.parent_mem first hcovers.child_mem second
            hcovers'.child_mem ⟨group, hgroup, head, hhead, hid.symm⟩
            ⟨group, hgroup, overload, hoverload, hid'.symm⟩
            (hcovers.name_eq.trans hcovers'.name_eq.symm)
            (hcovers.scope_eq.trans hcovers'.scope_eq.symm)
        rw [hparents]
        exact ⟨second, hcovers'.child_mem, hid'⟩

end Groups

/-! ## What a first pass collects -/

namespace Sweep

/-- A sweep whose groups are sound and covered by a tree. -/
def Keeps (tree : Node) (sweep : Sweep) : Prop :=
  ∀ groups ∈ sweep.groups, groups.Sound ∧ groups.Covered tree

theorem Keeps.of_groups_eq {tree : Node} {before after : Sweep} (hkeeps : before.Keeps tree)
    (h : after.groups = before.groups) : after.Keeps tree := by
  unfold Keeps
  rw [h]
  exact hkeeps

end Sweep

section

variable {result : Parse}

/-- A type that is found comes into the group of the definition that it was found in. -/
theorem Parse.covers_of_finding? {seen : List Int} {diagnostic : Diagnostic} {site : Sweep.Site}
    {range : Range} (h : result.finding? seen diagnostic = some (.typed site range)) :
    ∃ parent, site.key.Covers result.tree parent site.definition := by
  rcases finding?_eq_some h with hfield | ⟨other, right, hsite, -, htyped⟩
  · cases hfield
  · cases htyped
    unfold site? at hsite
    split at hsite
    · obtain ⟨hkind, parent, hmem, hchild, hscope⟩ := Sweep.site?_scope hsite
      exact ⟨parent, hmem, hchild, hkind, rfl, hscope⟩
    · cases hsite

/-- **One diagnostic.**  However its resolution ends, the groups stay covered. -/
theorem resolveDiagnostic_covers (diagnostic : Diagnostic) {before : Sweep}
    (hkeeps : before.Keeps result.tree) :
    (resolveDiagnostic result.tree.index result diagnostic).Ensures before
      (fun _ after => after.Keeps result.tree) fun _ after => after.Keeps result.tree := by
  refine Step.ensures_of_cases (fun resolved after hok => ?_) fun failure after herror => ?_
  · rcases resolveDiagnostic_eq_ok hok with
      ⟨-, -, rfl⟩ | ⟨finding, buffer, hsome, -, -, -, rfl⟩
    · exact hkeeps
    · intro groups hgroups
      obtain ⟨earlier, hearlier, rfl⟩ := Option.map_eq_some_iff.mp hgroups
      obtain ⟨hsound, hcovered⟩ := hkeeps earlier hearlier
      cases finding with
      | field range => exact ⟨hsound, hcovered⟩
      | typed site range =>
          obtain ⟨parent, hcovers⟩ := Parse.covers_of_finding? hsome
          exact ⟨hsound.add .., hcovered.add hcovers _ _⟩
  · exact hkeeps.of_groups_eq
      ((resolveDiagnostic_refused before result diagnostic).of_eq_error herror).1

/-- **All diagnostics.**  However their resolution ends, the groups stay covered. -/
theorem resolveDiagnostics_covers (diagnostics : List Diagnostic) {before : Sweep}
    (hkeeps : before.Keeps result.tree) :
    (resolveDiagnostics result.tree.index result diagnostics).Ensures before
      (fun _ after => after.Keeps result.tree) fun _ after => after.Keeps result.tree :=
  resolveDiagnostics_ensures
    (fun diagnostic _ _ hbetween => resolveDiagnostic_covers diagnostic hbetween) hkeeps

end

namespace Parse

/-- The groups that the first pass over a report has collected in the end, whether it has resolved
all diagnostics or failed at one of them. -/
def collected (result : Parse) (workspace : Workspace) : Groups :=
  ((resolveDiagnostics result.tree.index result result.diagnostics).start
    { workspace with groups := some [] }).2.groups.getD []

theorem collected_covered (result : Parse) (workspace : Workspace) :
    (result.collected workspace).Sound ∧ (result.collected workspace).Covered result.tree := by
  have hbegun : Sweep.Keeps result.tree { workspace with groups := some [] } := by
    intro groups hgroups
    cases hgroups
    exact ⟨Groups.sound_nil, List.forall_mem_nil _⟩
  have hkeeps := (resolveDiagnostics_covers result.diagnostics hbegun).leaves
  unfold collected
  generalize ((resolveDiagnostics result.tree.index result result.diagnostics).start
    { workspace with groups := some [] }).2 = after at hkeeps ⊢
  cases hgroups : after.groups with
  | none => exact ⟨Groups.sound_nil, List.forall_mem_nil _⟩
  | some groups => exact hkeeps groups hgroups

/-- **Groups and scopes.**  However the first pass over a report ends, what it has collected are
definitions of the tree, each of them under the name of its group and a child of some node.  Two of
them are in one group exactly if they have one name and their parents begin at one offset.  Hence
all definitions of each group are siblings exactly if no two nodes that begin at one offset have
collected definitions of one name among their children. -/
theorem collected_joins_iff (result : Parse) (workspace : Workspace) :
    (∀ group ∈ result.collected workspace, ∀ overload ∈ group.overloads,
      ∃ parent ∈ result.tree.index.nodes.toList, ∃ definition ∈ parent.children,
        definition.id = overload.definition ∧ definition.kind = definitionKind ∧
          definition.label.name.getD [] = group.key.name) ∧
      (∀ parent ∈ result.tree.index.nodes.toList, ∀ other ∈ result.tree.index.nodes.toList,
        ∀ first ∈ parent.children, ∀ second ∈ other.children,
          (result.collected workspace).Holds first → (result.collected workspace).Holds second →
          ((result.collected workspace).Joins first second ↔
            first.label.name.getD [] = second.label.name.getD [] ∧
              parent.location.start.whole = other.location.start.whole)) ∧
      ((∀ group ∈ result.collected workspace, group.Siblings result.tree) ↔
        ∀ parent ∈ result.tree.index.nodes.toList, ∀ other ∈ result.tree.index.nodes.toList,
          ∀ first ∈ parent.children, ∀ second ∈ other.children,
            (result.collected workspace).Holds first → (result.collected workspace).Holds second →
            first.label.name.getD [] = second.label.name.getD [] →
            parent.location.start.whole = other.location.start.whole → parent = other) := by
  obtain ⟨hsound, hcovered⟩ := result.collected_covered workspace
  refine ⟨?_, ?_, hcovered.siblings_iff hsound⟩
  · intro group hgroup overload hoverload
    obtain ⟨parent, definition, hcovers, hid⟩ := hcovered.of_overload hsound hgroup hoverload
    exact ⟨parent, hcovers.parent_mem, definition, hcovers.child_mem, hid, hcovers.kind_eq,
      hcovers.name_eq⟩
  · intro parent hparent other hother first hfirst second hsecond
    exact hcovered.joins_iff hsound hparent hother hfirst hsecond

/-! ### Definitions on both sides of a modifier -/

/-- A definition that is made if another one is.  The condition and the statement have different
parents, but both parents begin where the whole begins. -/
def modifierParse : Parse where
  text := "def f(A=>a)end if\ndef f(B=>b)end"
  tree := .mk { kind := "program_node", location := Run.sampleLocation 0 1 0 32 }
    [some (.mk { kind := "if_node", location := Run.sampleLocation 0 1 0 32 }
      [some (Run.sampleDefinition 18 2),
       some (.mk { kind := "statements_node", location := Run.sampleLocation 0 1 0 14 }
        [some (Run.sampleDefinition 0 1)])])]
  diagnostics :=
    [⟨"unexpected_token_ignore", Run.sampleLocation 0 1 7 2, []⟩,
     ⟨"unexpected_token_ignore", Run.sampleLocation 18 2 7 2, []⟩]

/-- What the first pass makes of it. -/
def modifierMerged : Text :=
  "# @rbs (A) -> untyped\n#    | (B) -> untyped\ndef f(*args)\n  case args\n" ++
    "  in [A]\n    f__overload0(*args)\n  in [B]\n    f__overload1(*args)\n  end\nend\n\n" ++
    "def f__overload0(a)end if\ndef f__overload1(b)end"

/-- The first pass over it collects two definitions in one group that have no common parent, and
one dispatcher merges them. -/
theorem collected_modifier :
    (∃ group ∈ modifierParse.collected { buffer := { text := modifierParse.text } },
      group.merges = true ∧ ¬ group.Siblings modifierParse.tree) ∧
      ((makePass {} 1 modifierParse).start
        { buffer := { text := modifierParse.text } }).2.buffer.text = modifierMerged := by
  decide +kernel

end Parse

end SyntaxRepair
