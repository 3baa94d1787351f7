import SyntaxRepair.Proofs.Repair.Sweeping
import SyntaxRepair.Proofs.Text.LineStarts

/-!
# The writes of a merge

Merging the overload groups of a pass renames their definitions and adds dispatchers.
Which writes this makes is decided by the tree, the lines of the text and the types of
the groups; the missions that are dropped on the way do not matter to the text.

`Parse.mergesOf?` tells the writes without a buffer, and has no answer where a definition
lacks a name or a line.  `mergeOverloads_eq_ok` shows that a merge that succeeds has
made exactly them.
-/

namespace SyntaxRepair

/-- The writes that merge one group. -/
structure Merge where
  /-- The new names of the definitions, in their order. -/
  renamings : List Write
  dispatcher : Write
deriving Repr, DecidableEq

/-- The writes that merge one group, in the order in which they are made. -/
def Merge.writes (merge : Merge) : List Write := merge.renamings ++ [merge.dispatcher]

namespace Parse

/-- The node with a number, if there is one. -/
def definition? (result : Parse) (id : Nat) : Option Outline :=
  (result.tree.index.node? id).toOption.join

/-- The write that renames definition number `ordinal` of a group. -/
def renaming? (result : Parse) (table : NameTable) (name : Text) (ordinal : Nat)
    (overload : Overload) : Option Write := do
  let definition ← result.definition? overload.definition
  let location ← definition.label.nameLocation
  return .replace location.values.start location.values.length (table.rename name ordinal)

/-- The writes that rename the definitions of a group, numbered from `ordinal` on. -/
def renamingsFrom? (result : Parse) (table : NameTable) (name : Text) :
    Nat → List Overload → Option (List Write)
  | _, [] => some []
  | ordinal, overload :: rest => do
      let write ← result.renaming? table name ordinal overload
      let others ← result.renamingsFrom? table name (ordinal + 1) rest
      return write :: others

/-- The write that adds the dispatcher of a group, at the beginning of the line of its
first definition. -/
def dispatcher? (result : Parse) (table : NameTable) (name : Text) (first : Nat)
    (overloads : List Overload) : Option Write := do
  let definition ← result.definition? first
  let insertion ← (abovePlace result definition.location
    (dispatcherText table name (overloads.map (·.types))).indentBy).toOption
  return .insert insertion.offset.whole insertion.text

/-- The writes that merge a group; a group of one definition is left alone. -/
def mergeOf? (result : Parse) (table : NameTable) (group : OverloadGroup) :
    Option (List Merge) :=
  match group.overloads with
  | first :: _ :: _ => do
      let renamings ← result.renamingsFrom? table group.key.name 0 group.overloads
      let dispatcher ←
        result.dispatcher? table group.key.name first.definition group.overloads
      return [⟨renamings, dispatcher⟩]
  | _ => some []

/-- The writes that merge all groups. -/
def mergesOf? (result : Parse) (table : NameTable) : Groups → Option (List Merge)
  | [] => some []
  | group :: rest => do
      let merge ← result.mergeOf? table group
      let others ← result.mergesOf? table rest
      return merge ++ others

theorem mergeOf?_of_length_lt {result : Parse} {table : NameTable} {group : OverloadGroup}
    (hfew : group.overloads.length < 2) : result.mergeOf? table group = some [] := by
  obtain ⟨key, overloads⟩ := group
  rcases overloads with _ | ⟨first, _ | ⟨second, rest⟩⟩
  · rfl
  · rfl
  · simp only [List.length_cons] at hfew
    omega

/-! ## Missions do not matter -/

variable {result : Parse} {table : NameTable} {name : Text}

theorem renamingsFrom?_bare (ordinal : Nat) (overloads : List Overload) :
    result.renamingsFrom? table name ordinal (overloads.map Overload.bare) =
      result.renamingsFrom? table name ordinal overloads := by
  induction overloads generalizing ordinal with
  | nil => rfl
  | cons overload rest ih =>
      rw [List.map_cons, renamingsFrom?, renamingsFrom?, ih]
      rfl

theorem dispatcher?_bare (first : Nat) (overloads : List Overload) :
    result.dispatcher? table name first (overloads.map Overload.bare) =
      result.dispatcher? table name first overloads := by
  have htypes : (overloads.map Overload.bare).map (·.types) = overloads.map (·.types) := by
    rw [List.map_map]
    rfl
  rw [dispatcher?, dispatcher?, htypes]

theorem mergeOf?_bare (group : OverloadGroup) :
    result.mergeOf? table group.bare = result.mergeOf? table group := by
  obtain ⟨key, overloads⟩ := group
  match overloads with
  | [] => rfl
  | [_] => rfl
  | first :: second :: rest =>
      rw [mergeOf?, mergeOf?]
      have hrenamings := @renamingsFrom?_bare result table key.name 0 (first :: second :: rest)
      have hdispatcher :=
        @dispatcher?_bare result table key.name first.definition (first :: second :: rest)
      simp only [OverloadGroup.bare, List.map_cons] at hrenamings hdispatcher ⊢
      rw [hrenamings]
      exact congrArg _ (funext fun _ => congrArg (· >>= _) hdispatcher)

theorem mergesOf?_bare (groups : Groups) :
    result.mergesOf? table groups.bare = result.mergesOf? table groups := by
  induction groups with
  | nil => rfl
  | cons group rest ih =>
      rw [Groups.bare, List.map_cons, mergesOf?, mergesOf?, mergeOf?_bare, ← Groups.bare, ih]

end Parse

/-! ## What a merge can do -/

section

variable {index : Index} {result : Parse} {table : NameTable} {name : Text}
  {before after : Workspace} {done : Unit}

/-- A definition is renamed where its name stands, and its missions are dropped. -/
theorem start_renameOverload_eq_ok {ordinal : Nat} {overload : Overload}
    (h : (renameOverload index table name ordinal overload).start before = (.ok done, after)) :
    ∃ (definition : Outline) (location : Location) (start stop : Int) (buffer : Buffer),
      index.node? overload.definition = .ok (some definition) ∧
      definition.label.nameLocation = some location ∧
      location.start = .int start ∧ location.stop = .int stop ∧
      before.buffer.replace start (stop - start) (table.rename name ordinal) = .ok buffer ∧
      (Workspace.removeMissions overload.missions).start { before with buffer } =
        (.ok done, after) := by
  simp only [renameOverload, Step.start_bind_eq_ok, Step.start_ofExcept_eq_ok,
    Step.start_orFail_eq_ok, Step.start_ofMisfit_eq_ok, Failure.ofLookup_eq_ok,
    Workspace.start_replaceAt_eq_ok] at h
  obtain ⟨definition, _, ⟨hdefinition, rfl⟩, location, _, ⟨hlocation, rfl⟩, length, _,
    ⟨hlength, rfl⟩, _, _, ⟨start, count, buffer, hstart, rfl, hreplace, rfl⟩, hremove⟩ := h
  obtain ⟨stop, start', hstop, hstart', rfl⟩ := Json.Number.sub_eq_int_iff.mp hlength
  have hsame : start' = start := by
    rw [hstart] at hstart'
    exact (Json.Number.int.inj hstart').symm
  subst hsame
  exact ⟨definition, location, start', stop, buffer, hdefinition, hlocation, hstart, hstop,
    hreplace, hremove⟩

/-- A dispatcher is inserted above its definition and noted. -/
theorem start_addDispatcher_eq_ok {first : Nat} {overloads : List Overload}
    (h : (addDispatcher index result table name first overloads).start before =
      (.ok done, after)) :
    ∃ (definition : Outline) (insertion : Insertion) (offset : Int) (buffer : Buffer),
      index.node? first = .ok (some definition) ∧
      abovePlace result definition.location
        (dispatcherText table name (overloads.map (·.types))).indentBy = .ok insertion ∧
      insertion.offset = .int offset ∧
      before.buffer.replace offset 0 insertion.text = .ok buffer ∧
      after = { before with
        buffer, journal := before.journal ++ [.dispatches name overloads.length] } := by
  simp only [addDispatcher, Step.start_bind_eq_ok, Step.start_ofExcept_eq_ok,
    Failure.ofLookup_eq_ok, Workspace.start_replaceAt_eq_ok, Workspace.start_note] at h
  obtain ⟨definition, _, ⟨hdefinition, rfl⟩, insertion, _, ⟨hinsertion, rfl⟩, _, _,
    ⟨offset, length, buffer, hoffset, hlength, hreplace, rfl⟩, hnote⟩ := h
  cases hnote
  cases hlength
  exact ⟨definition, insertion, offset, buffer, hdefinition, hinsertion, hoffset, hreplace, rfl⟩

/-- A group of one definition is left alone; in others the definitions are renamed before the
dispatcher is added. -/
theorem start_mergeGroup_eq_ok {group : OverloadGroup} {merged : Bool}
    (h : (mergeGroup index result table group).start before = (.ok merged, after)) :
    (group.overloads.length < 2 ∧ after = before) ∨
      ∃ first second rest between, group.overloads = first :: second :: rest ∧
        (renameEach index table group.key.name 0 group.overloads).start before =
          (.ok ⟨⟩, between) ∧
        (addDispatcher index result table group.key.name first.definition
          group.overloads).start between = (.ok ⟨⟩, after) := by
  obtain ⟨key, overloads⟩ := group
  rcases overloads with _ | ⟨first, _ | ⟨second, rest⟩⟩
  · obtain ⟨-, rfl⟩ := Step.start_pure_eq_ok.mp h
    exact Or.inl ⟨Nat.zero_lt_two, rfl⟩
  · obtain ⟨-, rfl⟩ := Step.start_pure_eq_ok.mp h
    exact Or.inl ⟨Nat.one_lt_two, rfl⟩
  · simp only [mergeGroup, Step.start_bind_eq_ok] at h
    obtain ⟨_, between, hrename, _, _, hadd, hdone⟩ := h
    obtain ⟨-, rfl⟩ := Step.start_pure_eq_ok.mp hdone
    exact Or.inr ⟨first, second, rest, between, rfl, hrename, hadd⟩

/-- Groups are merged one after another. -/
theorem mergeOverloads_cons_eq_ok {group : OverloadGroup} {rest : Groups} {merged : Nat}
    (h : (mergeOverloads index result table (group :: rest)).start before =
      (.ok merged, after)) :
    ∃ one between others,
      (mergeGroup index result table group).start before = (.ok one, between) ∧
      (mergeOverloads index result table rest).start between = (.ok others, after) := by
  simp only [mergeOverloads, Step.start_bind_eq_ok] at h
  obtain ⟨one, between, hfirst, others, _, hrest, hcount⟩ := h
  obtain ⟨-, rfl⟩ := Step.start_pure_eq_ok.mp hcount
  exact ⟨one, between, others, hfirst, hrest⟩

end

/-! ## What a merge has done -/

section

variable {result : Parse} {table : NameTable} {name : Text} {before after : Workspace}

theorem Parse.definition?_eq_some {id : Nat} {node : Outline} :
    result.definition? id = some node ↔ result.tree.index.node? id = .ok (some node) := by
  rw [definition?]
  cases result.tree.index.node? id with
  | error misfit => simp [Except.toOption]
  | ok node => simp [Except.toOption]

/-- A definition is renamed by the write that is told for it. -/
theorem renameOverload_eq_ok {ordinal : Nat} {overload : Overload} {done : Unit}
    (h : (renameOverload result.tree.index table name ordinal overload).start before =
      (.ok done, after)) :
    ∃ write, result.renaming? table name ordinal overload = some write ∧
      write.perform before.buffer = .ok after.buffer := by
  obtain ⟨definition, location, start, stop, buffer, hdefinition, hlocation, hstart, hstop,
    hreplace, hremove⟩ := start_renameOverload_eq_ok h
  have hvalues : location.values = ⟨start, stop⟩ := by
    rw [Location.values, hstart, hstop]
    rfl
  refine ⟨.replace start (stop - start) (table.rename name ordinal), ?_, ?_⟩
  · rw [Parse.renaming?, Parse.definition?_eq_some.mpr hdefinition, Option.bind_eq_bind,
      Option.bind_some, hlocation, Option.bind_eq_bind, Option.bind_some, hvalues]
    rfl
  · rw [Workspace.buffer_of_removeMissions hremove]
    exact hreplace

/-- The definitions of a group are renamed one after another. -/
theorem renameEach_eq_ok {ordinal : Nat} {overloads : List Overload} {done : Unit}
    (h : (renameEach result.tree.index table name ordinal overloads).start before =
      (.ok done, after)) :
    ∃ writes, result.renamingsFrom? table name ordinal overloads = some writes ∧
      before.buffer.performAll writes = .ok after.buffer := by
  induction overloads generalizing ordinal before with
  | nil =>
      rw [renameEach, Step.start_pure_eq_ok] at h
      exact ⟨[], rfl, by rw [h.2]; rfl⟩
  | cons overload rest ih =>
      rw [renameEach, Step.start_bind_eq_ok] at h
      obtain ⟨_, between, hfirst, hrest⟩ := h
      obtain ⟨write, hwrite, hperform⟩ := renameOverload_eq_ok hfirst
      obtain ⟨writes, hwrites, hperforms⟩ := ih hrest
      refine ⟨write :: writes, ?_, ?_⟩
      · rw [Parse.renamingsFrom?, hwrite, hwrites]
        rfl
      · rw [← List.singleton_append]
        refine Buffer.performAll_append.mpr ⟨between.buffer, ?_, hperforms⟩
        rw [Buffer.performAll_singleton]
        exact hperform

/-- A dispatcher is added by the write that is told for it. -/
theorem addDispatcher_eq_ok {first : Nat} {overloads : List Overload} {done : Unit}
    (h : (addDispatcher result.tree.index result table name first overloads).start before =
      (.ok done, after)) :
    ∃ write, result.dispatcher? table name first overloads = some write ∧
      write.perform before.buffer = .ok after.buffer := by
  obtain ⟨definition, insertion, offset, buffer, hdefinition, hinsertion, hoffset, hreplace,
    rfl⟩ := start_addDispatcher_eq_ok h
  refine ⟨.insert insertion.offset.whole insertion.text, ?_, ?_⟩
  · rw [Parse.dispatcher?, Parse.definition?_eq_some.mpr hdefinition, Option.bind_eq_bind,
      Option.bind_some, hinsertion]
    rfl
  · rw [hoffset]
    exact hreplace

/-- A group is merged by the writes that are told for it. -/
theorem mergeGroup_eq_ok {group : OverloadGroup} {merged : Bool}
    (h : (mergeGroup result.tree.index result table group).start before =
      (.ok merged, after)) :
    ∃ merges, result.mergeOf? table group = some merges ∧
      before.buffer.performAll (merges.flatMap Merge.writes) = .ok after.buffer := by
  rcases start_mergeGroup_eq_ok h with ⟨hfew, rfl⟩ |
    ⟨first, second, rest, between, hoverloads, hrename, hadd⟩
  · exact ⟨[], Parse.mergeOf?_of_length_lt hfew, rfl⟩
  · obtain ⟨renamings, hrenamings, hperforms⟩ := renameEach_eq_ok hrename
    obtain ⟨dispatcher, hdispatcher, hperform⟩ := addDispatcher_eq_ok hadd
    rw [hoverloads] at hrenamings hdispatcher
    refine ⟨[⟨renamings, dispatcher⟩], ?_, ?_⟩
    · simp only [Parse.mergeOf?, hoverloads, hrenamings, hdispatcher]
      rfl
    · rw [List.flatMap_singleton, Merge.writes]
      exact Buffer.performAll_concat.mpr ⟨between.buffer, hperforms, hperform⟩

/-- **Merging.**  A merge that succeeds makes the writes that are told for its groups, and
no others. -/
theorem mergeOverloads_eq_ok {groups : Groups} {merged : Nat}
    (h : (mergeOverloads result.tree.index result table groups).start before =
      (.ok merged, after)) :
    ∃ merges, result.mergesOf? table groups = some merges ∧
      before.buffer.performAll (merges.flatMap Merge.writes) = .ok after.buffer := by
  induction groups generalizing before merged with
  | nil =>
      obtain ⟨-, rfl⟩ := Step.start_pure_eq_ok.mp h
      exact ⟨[], rfl, rfl⟩
  | cons group rest ih =>
      obtain ⟨_, between, _, hfirst, hrest⟩ := mergeOverloads_cons_eq_ok h
      obtain ⟨merges, hmerges, hperform⟩ := mergeGroup_eq_ok hfirst
      obtain ⟨others, hothers, hperformRest⟩ := ih hrest
      refine ⟨merges ++ others, ?_, ?_⟩
      · rw [Parse.mergesOf?, hmerges, hothers]
        rfl
      · rw [List.flatMap_append]
        exact Buffer.performAll_append.mpr ⟨between.buffer, hperform, hperformRest⟩

end

/-! ## Where the writes of a merge stand -/

/-- What goes above a definition goes to the beginning of its line. -/
theorem abovePlace_eq_ok {result : Parse} {definition : Location}
    {contents : Json.Number → Except Misfit Text} {insertion : Insertion}
    (h : abovePlace result definition contents = .ok insertion) :
    ∃ (start : Int) (depth : Json.Number), result.lineStart? definition.line = .ok (some start) ∧
      definition.start.sub start = .ok depth ∧ contents depth = .ok insertion.text ∧
      insertion.offset = .int start := by
  simp only [abovePlace, except_bind_eq_ok, Failure.ofLookup_eq_ok, Failure.ofMisfit_eq_ok] at h
  obtain ⟨start, hstart, depth, hdepth, text, htext, hinsertion⟩ := h
  cases hinsertion
  exact ⟨start, depth, hstart, hdepth, htext, rfl⟩

/-- A report whose locations stand in its text, with names that are not empty. -/
structure Parse.Located (result : Parse) : Prop where
  within : ∀ location ∈ result.locations, location.Within result.text.length
  named : ∀ node ∈ result.tree.index.nodes.toList, ∀ location ∈ node.label.nameLocation,
    location.values.start < location.values.stop

/-- A merge of a text of `size` characters that replaces names and inserts one
dispatcher. -/
structure Merge.Placed (size : Nat) (merge : Merge) : Prop where
  renamings_inside : ∀ write ∈ merge.renamings, write.Inside size
  renamings_positive : ∀ write ∈ merge.renamings, 0 < write.length
  dispatcher_inside : merge.dispatcher.Inside size
  dispatcher_length : merge.dispatcher.length = 0

namespace Parse

variable {result : Parse} {table : NameTable} {name : Text} {write : Write}

/-- A new name goes inside the text, in place of a name that is told inside of it. -/
theorem of_renaming?
    (hlocations : ∀ location ∈ result.locations, location.Within result.text.length)
    {ordinal : Nat} {overload : Overload}
    (h : result.renaming? table name ordinal overload = some write) :
    write.Inside result.text.length ∧
      ∃ node ∈ result.tree.index.nodes.toList, ∃ location ∈ node.label.nameLocation,
        write.length = location.values.stop - location.values.start := by
  simp only [renaming?, Option.bind_eq_bind, Option.bind_eq_some_iff] at h
  obtain ⟨definition, hdefinition, location, hlocation, hwrite⟩ := h
  cases hwrite
  have hnode : definition ∈ result.tree.index.nodes.toList :=
    result.tree.mem_nodes_of_node? (definition?_eq_some.mp hdefinition)
  have hmem : location ∈ definition.label.locations := by
    simp [Label.locations, hlocation]
  have hstop := (hlocations location (location_mem_of_node hnode hmem)).stop_le
  refine ⟨?_, definition, hnode, location, hlocation, rfl⟩
  rw [Write.Inside, Write.offset, Write.length, Range.length]
  omega

theorem Located.of_renaming? (hlocated : result.Located) {ordinal : Nat} {overload : Overload}
    (h : result.renaming? table name ordinal overload = some write) :
    write.Inside result.text.length ∧ 0 < write.length := by
  obtain ⟨hinside, node, hnode, location, hlocation, hlength⟩ :=
    Parse.of_renaming? hlocated.within h
  have hnamed := hlocated.named node hnode location hlocation
  exact ⟨hinside, by omega⟩

/-- What holds of every new name holds of those of a group. -/
theorem forall_of_renamingsFrom? {P : Write → Prop}
    (hrenaming : ∀ {ordinal : Nat} {overload : Overload} {write : Write},
      result.renaming? table name ordinal overload = some write → P write)
    {ordinal : Nat} {overloads : List Overload} {writes : List Write}
    (h : result.renamingsFrom? table name ordinal overloads = some writes) :
    ∀ write ∈ writes, P write := by
  induction overloads generalizing ordinal writes with
  | nil =>
      cases h
      exact List.forall_mem_nil _
  | cons overload rest ih =>
      simp only [renamingsFrom?, Option.bind_eq_bind, Option.bind_eq_some_iff] at h
      obtain ⟨first, hfirst, others, hothers, hwrites⟩ := h
      cases hwrites
      intro write hmem
      rcases List.mem_cons.mp hmem with rfl | hrest
      · exact hrenaming hfirst
      · exact ih hothers write hrest

theorem of_dispatcher? {first : Nat} {overloads : List Overload}
    (h : result.dispatcher? table name first overloads = some write) :
    write.Inside result.text.length ∧ write.length = 0 := by
  simp only [dispatcher?, Option.bind_eq_bind, Option.bind_eq_some_iff] at h
  obtain ⟨definition, -, insertion, hinsertion, hwrite⟩ := h
  cases hwrite
  obtain ⟨start, -, hstart, -, -, hoffset⟩ :=
    abovePlace_eq_ok (except_toOption_eq_some.mp hinsertion)
  obtain ⟨place, hplace, rfl⟩ := mem_lineStarts_of_lineStart? hstart
  have hle := Text.le_length_of_mem_lineStarts hplace
  rw [Write.Inside, Write.offset, Write.length, hoffset, Json.Number.whole_int]
  omega

/-- What holds of the new names and the dispatcher of any group holds of all merges. -/
theorem forall_of_mergesOf? {P : Merge → Prop}
    (hmerge : ∀ {name : Text} {first : Nat} {overloads : List Overload} {renamings : List Write}
      {dispatcher : Write}, result.renamingsFrom? table name 0 overloads = some renamings →
      result.dispatcher? table name first overloads = some dispatcher → P ⟨renamings, dispatcher⟩)
    {groups : Groups} {merges : List Merge} (h : result.mergesOf? table groups = some merges) :
    ∀ merge ∈ merges, P merge := by
  induction groups generalizing merges with
  | nil =>
      cases h
      exact List.forall_mem_nil _
  | cons group rest ih =>
      simp only [mergesOf?, Option.bind_eq_bind, Option.bind_eq_some_iff] at h
      obtain ⟨first, hfirst, others, hothers, hmerges⟩ := h
      cases hmerges
      intro merge hmem
      rcases List.mem_append.mp hmem with hmem | hrest
      · unfold mergeOf? at hfirst
        split at hfirst
        · simp only [Option.bind_eq_bind, Option.bind_eq_some_iff] at hfirst
          obtain ⟨renamings, hrenamings, dispatcher, hdispatcher, hone⟩ := hfirst
          cases hone
          rw [List.mem_singleton.mp hmem]
          exact hmerge hrenamings hdispatcher
        · cases hfirst
          exact absurd hmem List.not_mem_nil
      · exact ih hothers merge hrest

/-- The writes of a merge stand in the text. -/
theorem Located.of_mergesOf? (hlocated : result.Located) {groups : Groups} {merges : List Merge}
    (h : result.mergesOf? table groups = some merges) :
    ∀ merge ∈ merges, merge.Placed result.text.length := by
  refine forall_of_mergesOf? (fun hrenamings hdispatcher => ?_) h
  have hwrites := forall_of_renamingsFrom? hlocated.of_renaming? hrenamings
  obtain ⟨hinside, hlength⟩ := of_dispatcher? hdispatcher
  exact ⟨fun write hwrite => (hwrites write hwrite).1,
    fun write hwrite => (hwrites write hwrite).2, hinside, hlength⟩

/-- They do so even if names are empty. -/
theorem inside_of_mergesOf?
    (hlocations : ∀ location ∈ result.locations, location.Within result.text.length)
    {groups : Groups} {merges : List Merge} (h : result.mergesOf? table groups = some merges) :
    ∀ merge ∈ merges, ∀ write ∈ merge.writes, write.Inside result.text.length := by
  refine forall_of_mergesOf? (fun hrenamings hdispatcher => ?_) h
  rw [Merge.writes, List.forall_mem_append, List.forall_mem_singleton]
  refine ⟨?_, (of_dispatcher? hdispatcher).1⟩
  exact forall_of_renamingsFrom? (fun hrenaming => (of_renaming? hlocations hrenaming).1) hrenamings

end Parse

end SyntaxRepair
