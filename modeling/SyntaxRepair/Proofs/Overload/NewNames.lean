import SyntaxRepair.Proofs.Overload.Siblings
import SyntaxRepair.Proofs.Repair.Postings
import SyntaxRepair.Settings

/-!
# The new names of overloaded definitions

A definition that is merged gets a new name from the name of its group, by way of the table, and
its number in the group.  The number can be read off the end of the new name
(`NameTable.rename_eq_iff`), so the definitions of one group never share one.  The stem in front
of it is what the table has for the name, and nothing keeps two names of one scope from having
one stem: then their definitions with the same numbers get the same new names, and no others do
(`makePass_new_names`).
-/

namespace SyntaxRepair

/-! ## Stems and numbers -/

namespace NameTable

variable {table : NameTable} {name other : Text} {ordinal ordinal' : Nat}

theorem rename_eq (table : NameTable) (name : Text) (ordinal : Nat) :
    table.rename name ordinal =
      table.stem name ++ "__overload" ++ (Nat.toDigits 10 ordinal).map CodePoint.char := by
  have hdigits : (toString (ordinal : Int)).toList = Nat.toDigits 10 ordinal := Nat.toList_repr
  rw [rename, ← hdigits]
  rfl

/-- The digits at the end of a new name are those of its number. -/
theorem takeWhile_reverse_rename (table : NameTable) (name : Text) (ordinal : Nat) :
    (table.rename name ordinal).reverse.takeWhile CodePoint.isDigit =
      ((Nat.toDigits 10 ordinal).map CodePoint.char).reverse := by
  have hdigits : ∀ c ∈ ((Nat.toDigits 10 ordinal).map CodePoint.char).reverse,
      CodePoint.isDigit c = true := by
    intro c hmem
    obtain ⟨digit, hdigit, rfl⟩ := List.mem_map.mp (List.mem_reverse.mp hmem)
    exact Nat.isDigit_of_mem_toDigits (by decide) (by decide) hdigit
  rw [rename_eq, List.reverse_append, List.takeWhile_append_of_pos hdigits, List.reverse_append]
  -- the letter in front of them is no digit
  exact List.append_nil _

/-- New names are equal exactly if their stems and their numbers are. -/
theorem rename_eq_iff :
    table.rename name ordinal = table.rename other ordinal' ↔
      table.stem name = table.stem other ∧ ordinal = ordinal' := by
  constructor
  · intro h
    have hreverse := congrArg (fun text : Text => text.reverse.takeWhile CodePoint.isDigit) h
    simp only [takeWhile_reverse_rename, List.reverse_inj] at hreverse
    have hdigits : Nat.toDigits 10 ordinal = Nat.toDigits 10 ordinal' :=
      List.map_injective_iff.mpr (fun _ _ => CodePoint.char.inj) hreverse
    have hordinal : ordinal = ordinal' := by
      rw [← @Nat.ofDigitChars_ten_toDigits ordinal, hdigits, Nat.ofDigitChars_ten_toDigits]
    subst hordinal
    rw [rename_eq, rename_eq] at h
    exact ⟨List.append_cancel_right (List.append_cancel_right h), rfl⟩
  · rintro ⟨hstem, rfl⟩
    rw [rename_eq, rename_eq, hstem]

end NameTable

/-! ## Renamed definitions -/

/-- A definition that is renamed, with the key of its group and its number there. -/
structure Renamed where
  definition : Outline
  key : OverloadKey
  ordinal : Nat

namespace Renamed

/-- The new name of a definition. -/
def newName (table : NameTable) (renamed : Renamed) : Text :=
  table.rename renamed.key.name renamed.ordinal

/-- The write that gives a definition its new name, if it has a place for a name. -/
def write? (table : NameTable) (renamed : Renamed) : Option Write :=
  renamed.definition.label.nameLocation.map fun location =>
    .replace location.values.start location.values.length (renamed.newName table)

/-- A definition that is renamed as one of the numbered definitions of a group. -/
def OfGroup (renamed : Renamed) (result : Parse) (key : OverloadKey)
    (numbered : List (Overload × Nat)) : Prop :=
  renamed.key = key ∧ ∃ overload, (overload, renamed.ordinal) ∈ numbered ∧
    result.definition? overload.definition = some renamed.definition

end Renamed

namespace Parse

variable {result : Parse} {table : NameTable}

/-- The writes that rename the definitions of a group give them their new names. -/
theorem exists_renamed_of_group {key : OverloadKey} {ordinal : Nat} {overloads : List Overload}
    {writes : List Write}
    (h : result.renamingsFrom? table key.name ordinal overloads = some writes) :
    ∃ all : List Renamed, writes.map some = all.map (Renamed.write? table) ∧
      ∀ renamed ∈ all, renamed.OfGroup result key (overloads.zipIdx ordinal) := by
  induction overloads generalizing ordinal writes with
  | nil =>
      cases h
      exact ⟨[], rfl, List.forall_mem_nil _⟩
  | cons overload rest ih =>
      simp only [renamingsFrom?, renaming?, Option.bind_eq_bind, Option.bind_eq_some_iff] at h
      obtain ⟨write, ⟨definition, hdefinition, location, hlocation, hwrite⟩, others, hothers,
        hwrites⟩ := h
      cases hwrite
      cases hwrites
      obtain ⟨all, hsame, hgroup⟩ := ih hothers
      refine ⟨⟨definition, key, ordinal⟩ :: all, ?_, ?_⟩
      · rw [List.map_cons, List.map_cons, hsame, Renamed.write?, hlocation]
        rfl
      · rw [List.forall_mem_cons, List.zipIdx_cons]
        refine ⟨⟨rfl, overload, List.mem_cons_self .., hdefinition⟩, fun renamed hmem => ?_⟩
        obtain ⟨hkey, member, hmember, hfound⟩ := hgroup renamed hmem
        exact ⟨hkey, member, List.mem_cons_of_mem _ hmember, hfound⟩

/-- The writes that rename the definitions of all groups give them their new names. -/
theorem exists_renamed {groups : Groups} {merges : List Merge}
    (h : result.mergesOf? table groups = some merges) :
    ∃ all : List Renamed,
      (merges.flatMap Merge.renamings).map some = all.map (Renamed.write? table) ∧
      ∀ renamed ∈ all, ∃ group ∈ groups,
        renamed.OfGroup result group.key group.overloads.zipIdx := by
  induction groups generalizing merges with
  | nil =>
      cases h
      exact ⟨[], rfl, List.forall_mem_nil _⟩
  | cons group rest ih =>
      simp only [mergesOf?, Option.bind_eq_bind, Option.bind_eq_some_iff] at h
      obtain ⟨first, hfirst, others, hothers, hmerges⟩ := h
      cases hmerges
      obtain ⟨all, hsame, hgroups⟩ := ih hothers
      have hlater : ∀ renamed ∈ all, ∃ other ∈ group :: rest,
          renamed.OfGroup result other.key other.overloads.zipIdx := by
        intro renamed hmem
        obtain ⟨other, hother, hof⟩ := hgroups renamed hmem
        exact ⟨other, List.mem_cons_of_mem _ hother, hof⟩
      unfold mergeOf? at hfirst
      split at hfirst
      · simp only [Option.bind_eq_bind, Option.bind_eq_some_iff] at hfirst
        obtain ⟨writes, hwrites, dispatcher, -, hone⟩ := hfirst
        cases hone
        obtain ⟨own, hown, hgroup⟩ := exists_renamed_of_group hwrites
        refine ⟨own ++ all, ?_, ?_⟩
        · rw [List.flatMap_append, List.flatMap_singleton, List.map_append, List.map_append, hown,
            hsame]
        · rw [List.forall_mem_append]
          exact ⟨fun renamed hmem => ⟨group, List.mem_cons_self .., hgroup renamed hmem⟩, hlater⟩
      · cases hfirst
        exact ⟨all, hsame, hlater⟩

end Parse

namespace Renamed

variable {result : Parse} {groups : Groups} {group : OverloadGroup} {first second : Renamed}

/-- A definition of a group is told by its number there. -/
theorem OfGroup.definition_eq {key : OverloadKey} {overloads : List Overload}
    (hfirst : first.OfGroup result key overloads.zipIdx)
    (hsecond : second.OfGroup result key overloads.zipIdx)
    (hordinal : first.ordinal = second.ordinal) : first.definition = second.definition := by
  obtain ⟨-, overload, hmem, hfound⟩ := hfirst
  obtain ⟨-, overload', hmem', hfound'⟩ := hsecond
  rw [List.mk_mem_zipIdx_iff_getElem?] at hmem hmem'
  rw [hordinal, hmem', Option.some.injEq] at hmem
  rw [← hmem, hfound', Option.some.injEq] at hfound
  exact hfound.symm

/-- A definition that is renamed stands under the key of its group. -/
theorem OfGroup.covers (hcovered : groups.Covered result.tree) (hsound : groups.Sound)
    (hgroup : group ∈ groups) (hfirst : first.OfGroup result group.key group.overloads.zipIdx)
    {parent : Outline} (hparent : parent ∈ result.tree.index.nodes.toList)
    (hchild : first.definition ∈ parent.children) :
    group.key.Covers result.tree parent first.definition := by
  obtain ⟨-, overload, hmem, hfound⟩ := hfirst
  have hoverload : overload ∈ group.overloads := List.fst_mem_of_mem_zipIdx hmem
  obtain ⟨above, definition, hcovers, hid⟩ := hcovered.of_overload hsound hgroup hoverload
  have hnode := result.tree.child_mem_nodes hcovers.parent_mem hcovers.child_mem
  rw [← hid, Parse.definition?_eq_some] at hfound
  have hsame := result.tree.eq_of_node?_id hnode hfound
  refine hcovered.of_definition hsound hgroup ⟨overload, hoverload, ?_⟩ hparent hchild
  rw [hsame, hid]

/-- **New names under one parent.**  Two definitions of one parent that are renamed get the same
new name exactly if their own names differ, the table gives both names one stem, and the
definitions have the same number in their groups. -/
theorem newName_eq_iff {table : NameTable} (hcovered : groups.Covered result.tree)
    (hsound : groups.Sound)
    (hfirst : ∃ group ∈ groups, first.OfGroup result group.key group.overloads.zipIdx)
    (hsecond : ∃ group ∈ groups, second.OfGroup result group.key group.overloads.zipIdx)
    (hne : first.definition ≠ second.definition) {parent : Outline}
    (hparent : parent ∈ result.tree.index.nodes.toList)
    (hchild : first.definition ∈ parent.children) (hchild' : second.definition ∈ parent.children) :
    first.newName table = second.newName table ↔
      first.key.name ≠ second.key.name ∧
        table.stem first.key.name = table.stem second.key.name ∧
        first.ordinal = second.ordinal := by
  rw [newName, newName, NameTable.rename_eq_iff]
  refine ⟨fun ⟨hstem, hordinal⟩ => ⟨fun hname => hne ?_, hstem, hordinal⟩, fun h => h.2⟩
  obtain ⟨group, hgroup, hof⟩ := hfirst
  obtain ⟨group', hgroup', hof'⟩ := hsecond
  have hcovers := hof.covers hcovered hsound hgroup hparent hchild
  have hcovers' := hof'.covers hcovered hsound hgroup' hparent hchild'
  -- definitions of one name under one parent are in one group
  have hkey : group.key = group'.key := by
    rw [hof.1, hof'.1] at hname
    rw [hcovers.key_eq, hcovers'.key_eq, hcovers.name_eq, hcovers'.name_eq, hname]
  have hsame := List.inj_on_of_nodup_map hsound.keys hgroup hgroup' hkey
  subst hsame
  exact hof.definition_eq hof' hordinal

end Renamed

/-! ## A first pass -/

/-- A sweep of the first pass hands on what it has collected, and has made the writes of its
findings. -/
theorem sweep_collects {result : Parse} {before after : Workspace} {resolved : Nat}
    {groups : Option Groups}
    (h : (sweep true result).start before = (.ok (resolved, groups), after)) :
    groups = some (result.collected before) ∧
      before.buffer.performAll (result.findings.map (Finding.write result.text)) =
        .ok after.buffer := by
  obtain ⟨swept, hresolve, rfl, rfl⟩ := start_sweep_eq_ok.mp h
  rw [if_pos rfl] at hresolve
  have hsome := (resolveDiagnostics_posts hresolve).1.isSome_eq
  obtain ⟨groups, hgroups⟩ := Option.isSome_iff_exists.mp hsome
  refine ⟨?_, resolveDiagnostics_performs hresolve⟩
  rw [Parse.collected, hresolve, hgroups]
  rfl

/-- **The new names of a first pass.**  A first pass that succeeds has made, behind the writes of
its findings, those of its merges, and the names among them are the new names of definitions of
its groups.  Whatever the table is, two definitions under one parent get the same new name exactly
if their own names differ, the table gives both names one stem, and both have the same number in
their groups. -/
theorem makePass_new_names {options : Options} {result : Parse} {before after : Workspace}
    (h : (makePass options 1 result).start before = (.ok ⟨⟩, after)) :
    ∃ (merges : List Merge) (all : List Renamed),
      before.buffer.performAll
        (result.findings.map (Finding.write result.text) ++ merges.flatMap Merge.writes) =
          .ok after.buffer ∧
      (merges.flatMap Merge.renamings).map some = all.map (Renamed.write? options.names) ∧
      (∀ renamed ∈ all, ∃ group ∈ result.collected before,
        renamed.OfGroup result group.key group.overloads.zipIdx) ∧
      ∀ first ∈ all, ∀ second ∈ all, first.definition ≠ second.definition →
        ∀ parent ∈ result.tree.index.nodes.toList, first.definition ∈ parent.children →
          second.definition ∈ parent.children →
          (first.newName options.names = second.newName options.names ↔
            first.key.name ≠ second.key.name ∧
              options.names.stem first.key.name = options.names.stem second.key.name ∧
              first.ordinal = second.ordinal) := by
  obtain ⟨hsound, hcovered⟩ := result.collected_covered before
  rw [makePass, Step.start_bind_eq_ok, decide_eq_true rfl] at h
  obtain ⟨⟨resolved, groups⟩, swept, hsweep, h⟩ := h
  obtain ⟨rfl, hfindings⟩ := sweep_collects hsweep
  rw [Step.start_bind_eq_ok] at h
  obtain ⟨_, merged, hmerge, h⟩ := h
  obtain ⟨merges, hmerges, hperform⟩ := mergeOverloads_eq_ok hmerge
  obtain ⟨hbuffer, -⟩ := Workspace.closing_eq_ok h
  obtain ⟨all, hsame, hgroups⟩ := Parse.exists_renamed hmerges
  refine ⟨merges, all, ?_, hsame, hgroups, ?_⟩
  · rw [hbuffer]
    exact Buffer.performAll_append.mpr ⟨swept.buffer, hfindings, hperform⟩
  · intro first hfirst second hsecond hne parent hparent hchild hchild'
    exact Renamed.newName_eq_iff hcovered hsound (hgroups first hfirst) (hgroups second hsecond) hne
      hparent hchild hchild'

/-! ### First passes over definitions of two names -/

/-- A definition `def name(A=>a)end` that fills line `line`, with the type as its parameter and
the parameter as its body. -/
def namedDefinition (origin line : Int) (name : Text) : Node :=
  let size : Int := name.length
  .mk { kind := definitionKind, location := Run.sampleLocation origin line 0 (13 + size),
        name := some name, nameLocation := some (Run.sampleLocation origin line 4 size) }
    [some (.mk { kind := parametersKind, location := Run.sampleLocation origin line (5 + size) 1 }
      [some (.mk { kind := "parameter_node",
                   location := Run.sampleLocation origin line (5 + size) 1 } [])]),
     some (.mk { kind := "statements_node",
                 location := Run.sampleLocation origin line (8 + size) 1 }
      [some (.mk { kind := "call_node",
                   location := Run.sampleLocation origin line (8 + size) 1 } [])])]

/-- Two definitions of an operator and two of the method that it is named after. -/
def operatorParse : Parse where
  text := "def *(A=>a)end\ndef *(B=>b)end\ndef _mul(C=>c)end\ndef _mul(D=>d)end"
  tree := .mk { kind := "program_node", location := Run.sampleLocation 0 1 0 65 }
    [some (namedDefinition 0 1 "*"), some (namedDefinition 15 2 "*"),
     some (namedDefinition 30 3 "_mul"), some (namedDefinition 48 4 "_mul")]
  diagnostics :=
    [⟨"unexpected_token_ignore", Run.sampleLocation 0 1 7 2, []⟩,
     ⟨"unexpected_token_ignore", Run.sampleLocation 15 2 7 2, []⟩,
     ⟨"unexpected_token_ignore", Run.sampleLocation 30 3 10 2, []⟩,
     ⟨"unexpected_token_ignore", Run.sampleLocation 48 4 10 2, []⟩]

/-- Without a table all four definitions get different names. -/
theorem makePass_new_names_operator :
    ∃ after, (makePass {} 1 operatorParse).start { buffer := { text := operatorParse.text } } =
        (.ok ⟨⟩, after) ∧
      ∃ (merges : List Merge) (all : List Renamed),
        (merges.flatMap Merge.renamings).map some = all.map (Renamed.write? []) ∧
        ∀ first ∈ all, ∀ second ∈ all, first.definition ≠ second.definition →
          first.definition ∈ operatorParse.tree.index.root.children →
          second.definition ∈ operatorParse.tree.index.root.children →
          first.newName [] ≠ second.newName [] := by
  have hpass := @Step.eq_ok_of_fst _ Unit
    ((makePass {} 1 operatorParse).start { buffer := { text := operatorParse.text } }) ⟨⟩
    (by decide +kernel)
  obtain ⟨merges, all, -, hsame, -, hnames⟩ := makePass_new_names hpass
  refine ⟨_, hpass, merges, all, hsame, ?_⟩
  intro first hfirst second hsecond hne hchild hchild' hcollide
  have hroot : operatorParse.tree.index.root ∈ operatorParse.tree.index.nodes.toList :=
    operatorParse.tree.mem_index_nodes.mpr (Outline.mem_preorder_self _)
  obtain ⟨hdifferent, hstem, -⟩ :=
    (hnames first hfirst second hsecond hne _ hroot hchild hchild').mp hcollide
  exact hdifferent hstem

/-- With the settings of an empty document the first definitions of the two names, the first and
the third child of the root, get the same new name. -/
theorem makePass_same_new_name :
    ∃ settings, Settings.ofValue (.object []) = .ok settings ∧
      ((makePass settings.options 1 operatorParse).start
        { buffer := { text := operatorParse.text } }).1 = .ok ⟨⟩ ∧
      operatorParse.tree.index.root.children.map (fun node => node.label.nameLocation) =
        [Run.sampleLocation 0 1 4 1, Run.sampleLocation 15 2 4 1, Run.sampleLocation 30 3 4 4,
          Run.sampleLocation 48 4 4 4].map some ∧
      (operatorParse.mergesOf? settings.options.names
          (operatorParse.collected { buffer := { text := operatorParse.text } })).map
        (fun merges => merges.flatMap Merge.renamings) =
          some [.replace 4 1 "_mul__overload0", .replace 19 1 "_mul__overload1",
            .replace 34 4 "_mul__overload0", .replace 52 4 "_mul__overload1"] := by
  have hform : Schema.check Settings.form (.object []) = [] := by
    have hrule : Settings.form (.object []) = [] := by decide +kernel
    rw [Schema.check, hrule, List.mergeSort_nil]
  refine ⟨Settings.read (.object []), ?_, ?_⟩
  · rw [Settings.ofValue, hform]
    rfl
  · decide +kernel

end SyntaxRepair
