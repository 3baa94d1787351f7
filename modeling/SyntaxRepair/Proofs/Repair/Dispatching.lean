import SyntaxRepair.Proofs.Overload.Gathering
import SyntaxRepair.Proofs.Repair.Waiting

/-!
# Dispatchers call what their definitions are named

The first pass merges each group with several definitions: it renames the definitions and adds a
dispatcher with one clause for each of them.  The new names are computed twice, for the definitions
and for the clauses, and both times from the place of a definition in its group.  So a clause calls
what stands at the name of its definition in the end, wherever the other writes of the pass have
moved it (`Run.first_pass_dispatches`).
-/

namespace SyntaxRepair

open Json (Number)

/-! ## Merged groups -/

namespace Parse

variable {result : Parse} {table : NameTable} {group : OverloadGroup}

theorem mergeOf?_eq_some {merges : List Merge} (h : result.mergeOf? table group = some merges) :
    group.merges = false ∧ merges = [] ∨ ∃ merge first, group.merges = true ∧ merges = [merge] ∧
      first ∈ group.overloads.head? ∧
      result.renamingsFrom? table group.key.name 0 group.overloads = some merge.renamings ∧
      result.dispatcher? table group.key.name first.definition group.overloads =
        some merge.dispatcher := by
  obtain ⟨key, overloads⟩ := group
  rcases overloads with _ | ⟨first, _ | ⟨second, rest⟩⟩
  · cases h
    exact Or.inl ⟨rfl, rfl⟩
  · cases h
    exact Or.inl ⟨rfl, rfl⟩
  · simp only [mergeOf?, Option.bind_eq_bind, Option.bind_eq_some_iff] at h
    obtain ⟨renamings, hrenamings, dispatcher, hdispatcher, hmerges⟩ := h
    cases hmerges
    right
    refine ⟨⟨renamings, dispatcher⟩, first, ?_, rfl, rfl, hrenamings, hdispatcher⟩
    exact decide_eq_true (Nat.le_add_left 2 rest.length)

/-- Exactly the groups with several definitions are merged, each of them once. -/
theorem mergesOf?_eq_some {groups : Groups} {merges : List Merge}
    (h : result.mergesOf? table groups = some merges) :
    ∃ merged : List (OverloadGroup × Merge),
      merged.map Prod.fst = groups.filter OverloadGroup.merges ∧ merged.map Prod.snd = merges ∧
        ∀ entry ∈ merged, ∃ first ∈ entry.1.overloads.head?,
          result.renamingsFrom? table entry.1.key.name 0 entry.1.overloads =
              some entry.2.renamings ∧
            result.dispatcher? table entry.1.key.name first.definition entry.1.overloads =
              some entry.2.dispatcher := by
  induction groups generalizing merges with
  | nil =>
      cases h
      exact ⟨[], rfl, rfl, List.forall_mem_nil _⟩
  | cons group rest ih =>
      simp only [mergesOf?, Option.bind_eq_bind, Option.bind_eq_some_iff] at h
      obtain ⟨own, hown, others, hothers, hmerges⟩ := h
      cases hmerges
      obtain ⟨merged, hgroups, hrest, hall⟩ := ih hothers
      rcases mergeOf?_eq_some hown with
        ⟨hsingle, rfl⟩ | ⟨merge, first, hseveral, rfl, hfirst, hrenamings, hdispatcher⟩
      · refine ⟨merged, ?_, hrest, hall⟩
        rw [hgroups, List.filter_cons_of_neg (Bool.eq_false_iff.mp hsingle)]
      · refine ⟨(group, merge) :: merged, ?_, ?_, ?_⟩
        · rw [List.map_cons, hgroups, List.filter_cons_of_pos hseveral]
        · rw [List.map_cons, hrest]
          rfl
        · exact List.forall_mem_cons.mpr ⟨⟨first, hfirst, hrenamings, hdispatcher⟩, hall⟩

end Parse

/-! ## Members and their names -/

/-- Where the name of a member stands, if it has one. -/
def Member.name? (member : Member) : Option Range :=
  member.site.definition.label.nameLocation.map Location.values

namespace Parse

variable {result : Parse} {table : NameTable} {name : Text}

/-- The members of a group are definitions of the tree. -/
theorem definition_mem_nodes {key : OverloadKey} {member : Member}
    (hmem : member ∈ result.members key) :
    member.site.definition ∈ result.tree.index.nodes.toList := by
  obtain ⟨finding, hfinding, hmember⟩ := List.mem_filterMap.mp hmem
  obtain ⟨range, rfl⟩ := Finding.eq_typed_of_member? hmember
  obtain ⟨-, location, hsite⟩ := mem_findingsFrom hfinding
  exact (mem_nodes_of_site? hsite).1

/-- The names of a group are names of nodes. -/
theorem exists_name {key : OverloadKey} {names : List Range} {range : Range}
    (hnames : (result.members key).map Member.name? = names.map some) (hmem : range ∈ names) :
    ∃ node ∈ result.tree.index.nodes.toList, ∃ location ∈ node.label.nameLocation,
      location.values = range := by
  have hname : some range ∈ (result.members key).map Member.name? := by
    rw [hnames]
    exact List.mem_map_of_mem hmem
  obtain ⟨member, hmember, hrange⟩ := List.mem_map.mp hname
  obtain ⟨location, hlocation, hvalues⟩ := Option.map_eq_some_iff.mp hrange
  exact ⟨member.site.definition, definition_mem_nodes hmember, location, hlocation, hvalues⟩

/-- The number of a member leads back to its definition. -/
theorem definition?_of_mem {member : Member}
    (hnode : member.site.definition ∈ result.tree.index.nodes.toList) {definition : Outline}
    (h : result.definition? member.overload.definition = some definition) :
    definition = member.site.definition :=
  result.tree.eq_of_node?_id hnode (definition?_eq_some.mp h)

/-- The definitions of a group are renamed where their names stand, and numbered in their order. -/
theorem renamingsFrom?_members {members : List Member}
    (hnodes : ∀ member ∈ members, member.site.definition ∈ result.tree.index.nodes.toList)
    {ordinal : Nat} {writes : List Write}
    (h : result.renamingsFrom? table name ordinal (members.map Member.overload) = some writes) :
    ∃ names : List Range, members.map Member.name? = names.map some ∧
      writes = (names.zipIdx ordinal).map fun numbered =>
        .replace numbered.1.start numbered.1.length (table.rename name numbered.2) := by
  induction members generalizing ordinal writes with
  | nil =>
      cases h
      exact ⟨[], rfl, rfl⟩
  | cons member rest ih =>
      rw [List.forall_mem_cons] at hnodes
      simp only [List.map_cons, renamingsFrom?, renaming?, Option.bind_eq_bind,
        Option.bind_eq_some_iff] at h
      obtain ⟨write, ⟨definition, hdefinition, location, hlocation, hwrite⟩, others, hothers,
        hwrites⟩ := h
      cases hwrite
      cases hwrites
      rw [definition?_of_mem hnodes.1 hdefinition] at hlocation
      obtain ⟨names, hnames, rfl⟩ := ih hnodes.2 hothers
      refine ⟨location.values :: names, ?_, ?_⟩
      · rw [List.map_cons, List.map_cons, hnames, Member.name?, hlocation]
        rfl
      · rw [List.zipIdx_cons, List.map_cons]

end Parse

/-! ## Dispatchers -/

/-- What stands where some writes have moved a range to. -/
def Text.landed (text : Text) (writes : List Write) (range : Range) : Text :=
  text.slice (landing writes range.start) (landing writes range.stop)

/-- The clause that calls a method for arguments of a type. -/
def callClause (type method : Text) : Text :=
  "  in [" ++ type ++ "]\n    " ++ method ++ "(*args)\n"

/-- A dispatcher for methods that take arguments of some types, one for each, and under what they
are called. -/
def dispatcherOf (name : Text) (types called : List Text) : Text :=
  ((types.map fun type => [type]).mapIdx signatureLine).flatten ++
    "def " ++ name ++ "(*args)\n  case args\n" ++
    (List.zipWith callClause types called).flatten ++ "  end\nend\n\n"

/-- If methods are called by their numbers in the group, this is what the group is merged into. -/
theorem dispatcherText_eq_dispatcherOf {table : NameTable} {name : Text} {types called : List Text}
    (hlength : called.length = types.length)
    (hcalled : ∀ (ordinal : Nat) (hlt : ordinal < called.length),
      called[ordinal] = table.rename name ordinal) :
    dispatcherText table name (types.map fun type => [type]) = dispatcherOf name types called := by
  have hclauses : (types.map fun type => [type]).mapIdx (clause table name) =
      List.zipWith callClause types called := by
    apply List.ext_getElem
    · simp [hlength]
    · intro ordinal _ hlt
      have hmethod := hcalled ordinal (by simp at hlt; omega)
      rw [List.getElem_zipWith, hmethod, List.getElem_mapIdx, List.getElem_map]
      rfl
  rw [dispatcherText, dispatcherOf, hclauses]

/-- A write that puts a script above a definition: at the beginning of its line, and as far to the
right as the definition. -/
def Write.PutsAbove (result : Parse) (definition : Outline) (script : Text) (write : Write) :
    Prop :=
  ∃ (start : Int) (depth : Number) (inserted : Text),
    result.lineStart? definition.location.line = .ok (some start) ∧
      definition.location.start.sub start = .ok depth ∧
      script.indentBy depth = .ok inserted ∧ write = .insert start inserted

theorem Write.PutsAbove.offset_mem {result : Parse} {definition : Outline} {script : Text}
    {write : Write} (habove : write.PutsAbove result definition script) :
    ∃ start ∈ result.text.lineStarts, write.offset = start := by
  obtain ⟨start, depth, inserted, hstart, -, -, rfl⟩ := habove
  obtain ⟨place, hplace, rfl⟩ := Parse.mem_lineStarts_of_lineStart? hstart
  exact ⟨place, hplace, rfl⟩

/-- The merge of the definitions with a key, whose names stood at some ranges, by their numbers in
the group: both the new names and the dispatcher are made from them. -/
structure Merge.Numbered (merge : Merge) (result : Parse) (table : NameTable) (key : OverloadKey)
    (names : List Range) : Prop where
  names_eq : (result.members key).map Member.name? = names.map some
  renamings_eq : merge.renamings = names.zipIdx.map fun numbered =>
    .replace numbered.1.start numbered.1.length (table.rename key.name numbered.2)
  dispatched : ∃ first ∈ (result.members key).head?,
    merge.dispatcher.PutsAbove result first.site.definition
      (dispatcherText table key.name
        (((result.members key).map Member.type).map fun type => [type]))

namespace Merge.Numbered

variable {merge : Merge} {result : Parse} {table : NameTable} {key : OverloadKey}
  {names : List Range}

theorem length_names (hnumbered : merge.Numbered result table key names) :
    names.length = (result.members key).length := by
  calc names.length
      = (names.map some).length := (List.length_map some).symm
    _ = ((result.members key).map Member.name?).length := by rw [hnumbered.names_eq]
    _ = (result.members key).length := List.length_map Member.name?

theorem range_renamings (hnumbered : merge.Numbered result table key names) :
    merge.renamings.map Write.range = names := by
  have hrange : ∀ numbered : Range × Nat, (Write.replace numbered.1.start numbered.1.length
      (table.rename key.name numbered.2)).range = numbered.1 := by
    rintro ⟨⟨start, stop⟩, ordinal⟩
    have hend : start + (stop - start) = stop := by omega
    exact congrArg (Range.mk start) hend
  calc merge.renamings.map Write.range
      = names.zipIdx.map Prod.fst := by
        rw [hnumbered.renamings_eq, List.map_map]
        exact List.map_congr_left fun numbered _ => hrange numbered
    _ = names := List.zipIdx_map_fst 0 names

theorem mem_renamings (hnumbered : merge.Numbered result table key names) {ordinal : Nat}
    (hlt : ordinal < names.length) :
    .replace names[ordinal].start names[ordinal].length (table.rename key.name ordinal) ∈
      merge.renamings := by
  rw [hnumbered.renamings_eq]
  refine List.mem_map.mpr ⟨(names[ordinal], ordinal), ?_, rfl⟩
  exact List.mk_mem_zipIdx_iff_getElem?.mpr (List.getElem?_eq_getElem hlt)

end Merge.Numbered

/-- The merge of the definitions with a key, whose names stood at some ranges: each name is
replaced, and above the first definition goes a dispatcher with a clause for each of them in their
order, which has the type that was removed as its pattern and calls what stands at the name in the
text that the writes have made. -/
structure Merge.Dispatches (merge : Merge) (result : Parse) (key : OverloadKey)
    (writes : List Write) (rewritten : Text) (names : List Range) : Prop where
  names_eq : (result.members key).map Member.name? = names.map some
  renamed : merge.renamings.map Write.range = names
  dispatched : ∃ first ∈ (result.members key).head?,
    merge.dispatcher.PutsAbove result first.site.definition
      (dispatcherOf key.name ((result.members key).map Member.type)
        (names.map (rewritten.landed writes)))

namespace Parse

variable {result : Parse} {table : NameTable} {name : Text}

/-- The dispatcher of a group goes to the beginning of the line of its first definition. -/
theorem dispatcher?_eq_some {first : Nat} {overloads : List Overload} {write : Write}
    (h : result.dispatcher? table name first overloads = some write) :
    ∃ definition, result.definition? first = some definition ∧
      write.PutsAbove result definition (dispatcherText table name (overloads.map (·.types))) := by
  simp only [dispatcher?, Option.bind_eq_bind, Option.bind_eq_some_iff] at h
  obtain ⟨definition, hdefinition, insertion, hinsertion, hwrite⟩ := h
  cases hwrite
  obtain ⟨start, depth, hstart, hdepth, htext, hoffset⟩ :=
    abovePlace_eq_ok (except_toOption_eq_some.mp hinsertion)
  refine ⟨definition, hdefinition, start, depth, insertion.text, hstart, hdepth, htext, ?_⟩
  rw [hoffset]
  rfl

/-- The dispatcher of some members calls them in their order, each for its own type. -/
theorem dispatcher?_members {members : List Member} {first : Member}
    (hnode : first.site.definition ∈ result.tree.index.nodes.toList) {write : Write}
    (h : result.dispatcher? table name first.overload.definition (members.map Member.overload) =
      some write) :
    write.PutsAbove result first.site.definition
      (dispatcherText table name ((members.map Member.type).map fun type => [type])) := by
  obtain ⟨definition, hdefinition, habove⟩ := dispatcher?_eq_some h
  rw [definition?_of_mem hnode hdefinition, List.map_map] at habove
  rw [List.map_map]
  exact habove

/-- A group is merged by the numbers of its members. -/
theorem numbered_of_group {group : OverloadGroup} {merge : Merge} {first : Overload}
    (hgroup : group ∈ result.groups) (hfirst : first ∈ group.overloads.head?)
    (hrenamings : result.renamingsFrom? table group.key.name 0 group.overloads =
      some merge.renamings)
    (hdispatcher : result.dispatcher? table group.key.name first.definition group.overloads =
      some merge.dispatcher) :
    ∃ names, merge.Numbered result table group.key names := by
  rw [overloads_of_mem_groups hgroup] at hfirst hrenamings hdispatcher
  have hnodes : ∀ member ∈ result.members group.key,
      member.site.definition ∈ result.tree.index.nodes.toList := by
    intro member hmem
    exact definition_mem_nodes hmem
  obtain ⟨names, hnames, hwrites⟩ := renamingsFrom?_members hnodes hrenamings
  rw [List.head?_map] at hfirst
  obtain ⟨member, hmember, rfl⟩ := Option.map_eq_some_iff.mp hfirst
  have habove := dispatcher?_members (hnodes member (List.mem_of_mem_head? hmember)) hdispatcher
  exact ⟨names, hnames, hwrites, member, hmember, habove⟩

theorem length_overloads_of_mem {group : OverloadGroup} (hgroup : group ∈ result.groups) :
    group.overloads.length = (result.members group.key).length := by
  rw [overloads_of_mem_groups hgroup, List.length_map]

/-- The first pass makes one merge for each key with several members, and no others. -/
theorem exists_merged {rewriting : Rewriting} (h : result.rewriting? table true = some rewriting) :
    ∃ merged : List (OverloadKey × Merge), rewriting = ⟨result.findings, merged.map Prod.snd⟩ ∧
      (merged.map Prod.fst).Nodup ∧
      (∀ key, key ∈ merged.map Prod.fst ↔ 2 ≤ (result.members key).length) ∧
      ∀ entry ∈ merged, ∃ names, entry.2.Numbered result table entry.1 names := by
  obtain ⟨merges, hmerges, rfl⟩ := Option.map_eq_some_iff.mp h
  obtain ⟨merged, hgroups, rfl, hall⟩ := mergesOf?_eq_some hmerges
  have hkeys : (merged.map fun entry => (entry.1.key, entry.2)).map Prod.fst =
      (result.groups.filter OverloadGroup.merges).map OverloadGroup.key := by
    rw [← hgroups, List.map_map, List.map_map]
    rfl
  refine ⟨merged.map fun entry => (entry.1.key, entry.2), ?_, ?_, ?_, ?_⟩
  · rw [List.map_map]
    rfl
  · rw [hkeys]
    exact (List.filter_sublist.map _).nodup nodup_keys_groups
  · intro key
    rw [hkeys, List.mem_map]
    constructor
    · rintro ⟨group, hgroup, rfl⟩
      obtain ⟨hmem, hseveral⟩ := List.mem_filter.mp hgroup
      rw [← length_overloads_of_mem hmem]
      exact of_decide_eq_true hseveral
    · intro hseveral
      have hsome : result.groups.overloadsAt key ≠ [] := by
        intro hnone
        rw [overloadsAt_groups, List.map_eq_nil_iff] at hnone
        rw [hnone] at hseveral
        exact absurd hseveral (by decide)
      obtain ⟨group, hmem, rfl, -⟩ := Groups.exists_mem_of_overloadsAt hsome
      refine ⟨group, List.mem_filter.mpr ⟨hmem, ?_⟩, rfl⟩
      rw [← length_overloads_of_mem hmem] at hseveral
      exact decide_eq_true hseveral
  · intro entry hentry
    obtain ⟨⟨group, merge⟩, hmem, rfl⟩ := List.mem_map.mp hentry
    obtain ⟨first, hfirst, hrenamings, hdispatcher⟩ := hall (group, merge) hmem
    have hgroup : group ∈ result.groups.filter OverloadGroup.merges := by
      rw [← hgroups]
      exact List.mem_map_of_mem hmem
    exact numbered_of_group (List.mem_of_mem_filter hgroup) hfirst hrenamings hdispatcher

end Parse

/-! ## The first pass -/

namespace Run

variable {σ : Type} {parser : Parser σ} {options : Options} {number : Nat} {result : Parse}
  {rewriting : Rewriting} {before after : Run σ}

/-- A new name stands where the other writes have moved the old one. -/
theorem Round.landed_name (hround : Round options number result rewriting before after)
    {range : Range} {name : Text} (hpositive : 0 < range.length)
    (hmem : .replace range.start range.length name ∈ rewriting.writes result.text)
    (hfree : ∀ merge ∈ rewriting.merges, merge.dispatcher.offset ≠ range.start) :
    after.buffer.text.landed (rewriting.writes result.text) range = name := by
  have records := Buffer.records_of_performAll hround.performed
  have hlone := hround.lone hmem hpositive hfree
  have hholds := Buffer.holdsAt_landing hround.inside hround.performed hlone
  have hstop := records.landing_stop hlone
  have hend : range.start + range.length = range.stop := by
    rw [Range.length]
    omega
  rw [Write.offset, Write.length, hend] at hstop
  rw [Text.landed, hstop]
  exact hholds.slice_eq

/-- A merge by numbers calls what stands at the names of its definitions. -/
theorem Round.dispatches (hround : Round options number result rewriting before after)
    {key : OverloadKey} {merge : Merge} {names : List Range} (hmem : merge ∈ rewriting.merges)
    (hnumbered : merge.Numbered result options.names key names)
    (hfree : ∀ other ∈ rewriting.merges, ∀ range ∈ names, other.dispatcher.offset ≠ range.start) :
    merge.Dispatches result key (rewriting.writes result.text) after.buffer.text names := by
  have hlanded : ∀ (ordinal : Nat) (hlt : ordinal < names.length),
      after.buffer.text.landed (rewriting.writes result.text) names[ordinal] =
        options.names.rename key.name ordinal := by
    intro ordinal hlt
    have hwrite := hnumbered.mem_renamings hlt
    have hpositive := (hround.placed merge hmem).renamings_positive _ hwrite
    apply hround.landed_name hpositive
    · exact Rewriting.mem_writes.mpr (Or.inr ⟨merge, hmem, Or.inl hwrite⟩)
    · intro other hother
      exact hfree other hother _ (List.getElem_mem hlt)
  obtain ⟨first, hfirst, habove⟩ := hnumbered.dispatched
  refine ⟨hnumbered.names_eq, hnumbered.range_renamings, first, hfirst, ?_⟩
  have htext := @dispatcherText_eq_dispatcherOf options.names key.name
    ((result.members key).map Member.type)
    (names.map (after.buffer.text.landed (rewriting.writes result.text)))
    (by rw [List.length_map, List.length_map, hnumbered.length_names])
    (by
      intro ordinal hlt
      rw [List.getElem_map]
      exact hlanded ordinal _)
  rw [htext] at habove
  exact habove

/-- A member that is the only one of its group has no other one to be merged with. -/
theorem not_overloads_of_single {site : Sweep.Site} {range : Range}
    (hmem : .typed site range ∈ result.findings) (hsingle : (result.members site.key).length = 1) :
    ∀ other ∈ result.findings, (Finding.typed site range).overloads other = false := by
  obtain ⟨only, honly⟩ := List.length_eq_one_iff.mp hsingle
  have hdefinition : ∀ (found : Sweep.Site) (place : Range), .typed found place ∈ result.findings →
      found.key = site.key → found.definition.id = only.site.definition.id := by
    intro found place hfound hkey
    have hmember : (⟨found, dropMarker (result.text.slice place.start place.stop)⟩ : Member) ∈
        result.members site.key := by
      refine List.mem_filterMap.mpr ⟨.typed found place, hfound, ?_⟩
      rw [Finding.member?, if_pos hkey]
    rw [honly, List.mem_singleton] at hmember
    rw [← hmember]
  intro other hother
  cases other with
  | field range' => rfl
  | typed site' range' =>
      rw [Finding.overloads, Bool.and_eq_false_iff]
      by_cases hkey : site'.key = site.key
      · right
        rw [hdefinition site range hmem rfl, hdefinition site' range' hother hkey]
        exact decide_eq_false (not_not_intro rfl)
      · left
        exact beq_eq_false_iff_ne.mpr (Ne.symm hkey)

/-- **Dispatchers and names agree.**  If the first pass succeeds over a report whose locations stand
in its text and whose names are not empty and begin no line, then it makes one merge for each key
under which several definitions were found, and no others.  The definitions under a key differ, and
they are in the order in which they were found.  Their dispatcher has a clause for each of them in
this order, with the type that was removed as its pattern, and the clause calls what stands at the
name of the definition in the end.  The type of a definition that is alone under its key goes on
waiting. -/
theorem first_pass_dispatches {text : Text} {queue : Queue} {state : σ} {opened : Run σ} {done : Unit}
    (hordered : queue.Ordered)
    (hparse : (openPass parser 1).start (Run.onQueue text queue state) = (.ok result, opened))
    (htext : result.text = text) (hlocated : result.Located)
    (hnames : ∀ node ∈ result.tree.index.nodes.toList, ∀ location ∈ node.label.nameLocation,
      ∀ start ∈ result.text.lineStarts, location.values.start ≠ start)
    (hpass : (pass options 1 result).start opened = (.ok done, after)) :
    ∃ (merged : List (OverloadKey × Merge)) (writes : List Write),
      writes = (⟨result.findings, merged.map Prod.snd⟩ : Rewriting).writes text ∧
      Buffer.performAll { text } writes = .ok after.buffer ∧
      (merged.map Prod.fst).Nodup ∧
      (∀ key, key ∈ merged.map Prod.fst ↔ 2 ≤ (result.members key).length) ∧
      (∀ key, ((result.members key).map fun member => member.site.definition.id).Nodup) ∧
      (∀ entry ∈ merged, ∃ names,
        entry.2.Dispatches result entry.1 writes after.buffer.text names) ∧
      ∀ site range sequence, (.typed site range, sequence) ∈ result.findings.zipIdx queue.next →
        (result.members site.key).length = 1 → ∃ mission ∈ after.queue.missions,
          mission.task =
            ⟨sequence, .typeComment, dropMarker (text.slice range.start range.stop)⟩ := by
  subst htext
  obtain ⟨rewriting, hround⟩ := exists_round rfl hlocated hparse hpass
  obtain ⟨merged, hrewriting, hnodup, hkeys, hnumbered⟩ := Parse.exists_merged hround.rewriting_eq
  -- a dispatcher goes to the beginning of a line, where no name stands
  have hfree : ∀ key (names : List Range), (result.members key).map Member.name? = names.map some →
      ∀ merge ∈ rewriting.merges, ∀ range ∈ names, merge.dispatcher.offset ≠ range.start := by
    intro key names hnames_eq merge hmerge range hrange
    rw [hrewriting] at hmerge
    obtain ⟨entry, hentry, rfl⟩ := List.mem_map.mp hmerge
    obtain ⟨_, hentryNumbered⟩ := hnumbered entry hentry
    obtain ⟨first, -, habove⟩ := hentryNumbered.dispatched
    obtain ⟨start, hstart, hoffset⟩ := habove.offset_mem
    obtain ⟨node, hnode, location, hlocation, rfl⟩ := Parse.exists_name hnames_eq hrange
    rw [hoffset]
    exact (hnames node hnode location hlocation start hstart).symm
  refine ⟨merged, rewriting.writes result.text, ?_, hround.performed, hnodup, hkeys,
    Parse.nodup_definitions_members, ?_, ?_⟩
  · rw [hrewriting]
  · intro entry hentry
    obtain ⟨names, hentryNumbered⟩ := hnumbered entry hentry
    refine ⟨names, hround.dispatches ?_ hentryNumbered (hfree _ _ hentryNumbered.names_eq)⟩
    rw [hrewriting]
    exact List.mem_map_of_mem hentry
  · intro site range sequence hmem hsingle
    have halone := not_overloads_of_single (List.fst_mem_of_mem_zipIdx hmem) hsingle
    have hkept := @Posting.mem_kept_of_alone result.text _ _ true _ _ hmem halone
    have hperm := hround.accounts.tasks_perm hordered
    have htask := hperm.mem_iff.mpr (List.mem_append_right _ hkept)
    obtain ⟨mission, hmission, hsame⟩ := List.mem_map.mp htask
    exact ⟨mission, hmission, hsame⟩

/-! ### A first pass over three definitions -/

/-- Two definitions of one name and one of another, each with a type; the last of their diagnostics
is reported first. -/
def groupParse : Parse where
  text := "def f(A=>a)end\ndef f(B=>b)end\ndef g(C=>c)end"
  tree := .mk { kind := "program_node", location := sampleLocation 0 1 0 44 }
    [some (sampleDefinition 0 1), some (sampleDefinition 15 2),
     some (.mk { kind := definitionKind, location := sampleLocation 30 3 0 14, name := some "g",
                 nameLocation := some (sampleLocation 30 3 4 1) }
      [some (.mk { kind := parametersKind, location := sampleLocation 30 3 6 1 }
        [some (.mk { kind := "parameter_node", location := sampleLocation 30 3 6 1 } [])]),
       some (.mk { kind := "statements_node", location := sampleLocation 30 3 9 1 }
        [some (.mk { kind := "call_node", location := sampleLocation 30 3 9 1 } [])])])]
  diagnostics :=
    [⟨"unexpected_token_ignore", sampleLocation 30 3 7 2, []⟩,
     ⟨"unexpected_token_ignore", sampleLocation 15 2 7 2, []⟩,
     ⟨"unexpected_token_ignore", sampleLocation 0 1 7 2, []⟩]

/-- The definitions of one name are merged, and the type of the other one waits as number 5. -/
theorem first_pass_dispatches_three :
    ∃ (parser : Parser Unit) (opened after : Run Unit),
      (openPass parser 1).start (Run.onQueue groupParse.text { next := 5 } ()) =
        (.ok groupParse, opened) ∧
      (pass {} 1 groupParse).start opened = (.ok (), after) ∧
      (∃ merge writes, Buffer.performAll { text := groupParse.text } writes = .ok after.buffer ∧
        Merge.Dispatches merge groupParse ⟨0, "f"⟩ writes after.buffer.text
          [⟨19, 20⟩, ⟨4, 5⟩]) ∧
      ∃ mission ∈ after.queue.missions, mission.task = ⟨5, .typeComment, "C"⟩ := by
  let parser : Parser Unit := fun _ => pure groupParse
  have hparse := @Step.eq_ok_of_fst _ Parse
    ((openPass parser 1).start (Run.onQueue groupParse.text { next := 5 } ())) groupParse rfl
  generalize hopened : ((openPass parser 1).start
    (Run.onQueue groupParse.text { next := 5 } ())).2 = opened at hparse
  have hpass := @Step.eq_ok_of_fst _ Unit ((pass {} 1 groupParse).start opened) () (by
    rw [← hopened]
    decide +kernel)
  generalize ((pass {} 1 groupParse).start opened).2 = after at hpass
  have hlocated : groupParse.Located := ⟨by decide +kernel, by decide +kernel⟩
  have hnames : ∀ node ∈ groupParse.tree.index.nodes.toList, ∀ location ∈ node.label.nameLocation,
      ∀ start ∈ groupParse.text.lineStarts, location.values.start ≠ start := by decide +kernel
  obtain ⟨merged, writes, -, hperform, -, hkeys, -, hdispatches, hwaits⟩ :=
    first_pass_dispatches (Queue.ordered_of_missions_eq_nil rfl) hparse rfl hlocated hnames hpass
  refine ⟨parser, opened, after, hparse, hpass, ?_, ?_⟩
  · have hmembers : (groupParse.members ⟨0, "f"⟩).map Member.name? =
        [⟨19, 20⟩, ⟨4, 5⟩].map some := by decide +kernel
    have hseveral : 2 ≤ (groupParse.members ⟨0, "f"⟩).length := by decide +kernel
    obtain ⟨⟨key, merge⟩, hentry, hkey⟩ := List.mem_map.mp ((hkeys ⟨0, "f"⟩).mpr hseveral)
    obtain ⟨names, hmerge⟩ := hdispatches _ hentry
    dsimp only at hkey hmerge
    subst hkey
    have hsame : names = [⟨19, 20⟩, ⟨4, 5⟩] :=
      List.map_injective_iff.mpr (fun _ _ => Option.some.inj) (hmerge.names_eq.symm.trans hmembers)
    rw [hsame] at hmerge
    exact ⟨merge, writes, hperform, hmerge⟩
  · obtain ⟨site, hfirst, hkey⟩ : ∃ site, groupParse.findings[0]? = some (.typed site ⟨36, 39⟩) ∧
        site.key = ⟨0, "g"⟩ := ⟨_, rfl, rfl⟩
    have hmem : (.typed site ⟨36, 39⟩, 5) ∈ groupParse.findings.zipIdx 5 :=
      List.mk_mem_zipIdx_iff_le_and_getElem?_sub.mpr ⟨Nat.le_refl 5, hfirst⟩
    have hsingle : (groupParse.members site.key).length = 1 := by
      rw [hkey]
      decide +kernel
    exact hwaits site ⟨36, 39⟩ 5 hmem hsingle

end Run

end SyntaxRepair
