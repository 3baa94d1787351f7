import SyntaxRepair.Proofs.Overload.Entries
import SyntaxRepair.Proofs.Repair.Sweeping
import SyntaxRepair.Proofs.Tree.Numbering

/-!
# The members of overload groups

A definition is found at most once in a pass: its type is looked for once, and only there.  The
overload group with a key therefore consists of the findings under that key, in their order, each
with the one type that was removed (`Parse.overloadsAt_groups`).
-/

namespace SyntaxRepair

open Json (Number)

/-! ## Definitions are found once -/

/-- The number of the definition that a type was found in. -/
def Finding.definition? : Finding → Option Nat
  | field _ => none
  | typed site _ => some site.definition.id

/-- The parameter of a site is told by its definition. -/
theorem Sweep.site?_parameter {index : Index} {offset : Int} {site : Sweep.Site}
    (h : Sweep.site? index offset = some site) :
    ((site.definition.firstChild [parametersKind]).bind fun parameters =>
      Number.firstGreatest (parameters.children.map fun child => child.location.start)) =
        some site.parameter := by
  simp only [Sweep.site?, bind, Option.bind_eq_some_iff] at h
  obtain ⟨definition, -, _, -, _, -, parameters, hparameters, body, -, parameter, hparameter,
    hsite⟩ := h
  cases hsite
  rw [hparameters, Option.bind_some]
  exact hparameter

namespace Parse

variable {result : Parse} {seen : List Int} {diagnostic : Diagnostic} {site : Sweep.Site}
  {range : Range}

/-- A type that is found was not looked for before, and is not looked for again. -/
theorem finding?_typed (h : result.finding? seen diagnostic = some (.typed site range)) :
    result.site? diagnostic.location = some site ∧ site.parameter.whole ∉ seen ∧
      result.seeing seen diagnostic = site.parameter.whole :: seen := by
  unfold finding? at h
  unfold seeing
  split at h
  · cases h
  · rename_i hextension
    obtain ⟨other, hother, h⟩ := Option.bind_eq_some_iff.mp h
    split at h
    · cases h
    · rename_i hnew
      obtain ⟨right, -, hfinding⟩ := Option.bind_eq_some_iff.mp h
      cases hfinding
      rw [hextension, hother]
      dsimp only
      rw [if_neg hnew]
      exact ⟨rfl, by simpa using hnew, rfl⟩
  · cases h

theorem mem_seeing {place : Int} (hmem : place ∈ seen) : place ∈ result.seeing seen diagnostic := by
  unfold seeing
  split
  · split
    · split
      · exact hmem
      · exact List.mem_cons_of_mem _ hmem
    · exact hmem
  · exact hmem

/-- The types that are found in some diagnostics were not looked for before. -/
theorem mem_findingsFrom {diagnostics : List Diagnostic}
    (hmem : Finding.typed site range ∈ result.findingsFrom seen diagnostics) :
    site.parameter.whole ∉ seen ∧ ∃ location, result.site? location = some site := by
  induction diagnostics generalizing seen with
  | nil => exact absurd hmem List.not_mem_nil
  | cons diagnostic rest ih =>
      rw [findingsFrom, List.mem_append, Option.mem_toList] at hmem
      rcases hmem with hfirst | hrest
      · obtain ⟨hsite, hnew, -⟩ := finding?_typed hfirst
        exact ⟨hnew, diagnostic.location, hsite⟩
      · obtain ⟨hnew, hsite⟩ := ih hrest
        exact ⟨fun hseen => hnew (mem_seeing hseen), hsite⟩

theorem mem_nodes_of_site? {location : Location} (h : result.site? location = some site) :
    site.definition ∈ result.tree.index.nodes.toList ∧
      ((site.definition.firstChild [parametersKind]).bind fun parameters =>
        Number.firstGreatest (parameters.children.map fun child => child.location.start)) =
          some site.parameter := by
  unfold site? at h
  split at h
  · exact ⟨(Sweep.site?_mem h).1, Sweep.site?_parameter h⟩
  · cases h

/-- No definition is found twice. -/
theorem nodup_definitionsFrom (seen : List Int) (diagnostics : List Diagnostic) :
    ((result.findingsFrom seen diagnostics).filterMap Finding.definition?).Nodup := by
  induction diagnostics generalizing seen with
  | nil => exact List.nodup_nil
  | cons diagnostic rest ih =>
      rw [findingsFrom, List.filterMap_append]
      have hrest := ih (result.seeing seen diagnostic)
      rcases hfinding : result.finding? seen diagnostic with _ | ⟨range⟩ | ⟨site, range⟩
      · exact hrest
      · exact hrest
      · obtain ⟨hsite, -, hseeing⟩ := finding?_typed hfinding
        refine List.nodup_cons.mpr ⟨?_, hrest⟩
        intro hagain
        obtain ⟨finding, hmem, hdefinition⟩ := List.mem_filterMap.mp hagain
        rcases finding with ⟨range'⟩ | ⟨other, range'⟩
        · cases hdefinition
        · -- the other one has the same definition and so the same parameter, which was seen
          obtain ⟨hnew, location, hother⟩ := mem_findingsFrom hmem
          obtain ⟨hnode, hparameter⟩ := mem_nodes_of_site? hsite
          obtain ⟨hnode', hparameter'⟩ := mem_nodes_of_site? hother
          have hsame := result.tree.eq_of_id_eq hnode' hnode (Option.some.inj hdefinition)
          rw [hsame, hparameter] at hparameter'
          rw [hseeing, ← Option.some.inj hparameter'] at hnew
          exact hnew (List.mem_cons_self ..)

end Parse

/-! ## Members -/

/-- A definition of an overload group: where its typed parameter stands, and the type that was
removed. -/
structure Member where
  site : Sweep.Site
  type : Text

namespace Member

/-- The definition in its group, without a mission. -/
def overload (member : Member) : Overload :=
  { definition := member.site.definition.id, types := [member.type] }

end Member

/-- The member that a finding adds to the group with a key. -/
def Finding.member? (text : Text) (key : OverloadKey) : Finding → Option Member
  | field _ => none
  | typed site range =>
      if site.key = key then some ⟨site, dropMarker (text.slice range.start range.stop)⟩ else none

namespace Finding

variable {text : Text} {key : OverloadKey} {finding : Finding} {member : Member}

theorem eq_typed_of_member? (h : finding.member? text key = some member) :
    ∃ range, finding = typed member.site range := by
  cases finding with
  | field range => cases h
  | typed site range =>
      by_cases hkey : site.key = key
      · rw [member?, if_pos hkey] at h
        cases h
        exact ⟨range, rfl⟩
      · rw [member?, if_neg hkey] at h
        cases h

theorem definition?_of_member? (h : finding.member? text key = some member) :
    finding.definition? = some member.site.definition.id := by
  obtain ⟨range, rfl⟩ := eq_typed_of_member? h
  rfl

end Finding

/-- The members of the group with a key, in the order in which they were found. -/
def Parse.members (result : Parse) (key : OverloadKey) : List Member :=
  result.findings.filterMap (Finding.member? result.text key)

/-! ## Groups by their keys -/

namespace Groups

variable {groups : Groups}

/-- The definitions of the group with a key; none if there is no such group. -/
def overloadsAt (groups : Groups) (key : OverloadKey) : List Overload :=
  ((groups.find? fun group => group.key = key).map OverloadGroup.overloads).getD []

theorem overloadsAt_of_mem (hkeys : (groups.map OverloadGroup.key).Nodup) {group : OverloadGroup}
    (hmem : group ∈ groups) : groups.overloadsAt group.key = group.overloads := by
  obtain ⟨found, hfound⟩ : ∃ found, (groups.find? fun other => other.key = group.key) =
      some found := by
    rw [← Option.isSome_iff_exists, List.find?_isSome]
    exact ⟨group, hmem, decide_eq_true rfl⟩
  have hsame : found = group :=
    List.inj_on_of_nodup_map hkeys (List.mem_of_find?_eq_some hfound) hmem
      (by simpa using List.find?_some hfound)
  rw [overloadsAt, hfound, hsame]
  rfl

theorem exists_mem_of_overloadsAt {key : OverloadKey} (hsome : groups.overloadsAt key ≠ []) :
    ∃ group ∈ groups, group.key = key ∧ group.overloads = groups.overloadsAt key := by
  unfold overloadsAt at *
  cases hfound : groups.find? fun group => group.key = key with
  | none =>
      rw [hfound] at hsome
      exact absurd rfl hsome
  | some group =>
      refine ⟨group, List.mem_of_find?_eq_some hfound, ?_, rfl⟩
      simpa using List.find?_some hfound

theorem nodup_keys_gather (hkeys : (groups.map OverloadGroup.key).Nodup) (key : OverloadKey)
    (definition : Nat) (type : Text) :
    ((groups.gather key definition type).map OverloadGroup.key).Nodup := by
  refine nodup_map_updateFirst key (fun group => ?_) rfl (fun _ => rfl) hkeys
  exact decide_eq_true_iff

/-- A type of a new definition goes behind the definitions of its group, and leaves the other
groups alone. -/
theorem overloadsAt_gather {key : OverloadKey} {definition : Nat} (type : Text)
    (hnew : ∀ overload ∈ groups.overloadsAt key, overload.definition ≠ definition)
    (other : OverloadKey) :
    (groups.gather key definition type).overloadsAt other =
      groups.overloadsAt other ++
        if key = other then [{ definition, types := [type] }] else [] := by
  unfold overloadsAt at hnew ⊢
  by_cases hsame : key = other
  · subst hsame
    rw [if_pos rfl, gather, find?_updateFirst, Option.map_some, Option.getD_some]
    · cases hgroup : groups.find? fun group => group.key = key with
      | none => rfl
      | some group =>
          rw [hgroup] at hnew
          exact updateFirst_of_none fun overload hmem => decide_eq_false (hnew overload hmem)
    · exact decide_eq_true rfl
    · exact fun _ hgroup => hgroup
  · rw [if_neg hsame, List.append_nil, gather, find?_updateFirst_of_ne]
    · exact decide_eq_false hsame
    · intro group hgroup
      have hother : group.key ≠ other := by
        rw [of_decide_eq_true hgroup]
        exact hsame
      exact ⟨decide_eq_false hother, decide_eq_false hother⟩

end Groups

/-! ## The groups of a parse -/

namespace Parse

variable {result : Parse}

/-- What a finding adds to the members of a group. -/
theorem overloadsAt_gather_finding {groups : Groups} {finding : Finding} (text : Text)
    (hnew : ∀ key, ∀ overload ∈ groups.overloadsAt key,
      some overload.definition ≠ finding.definition?) (key : OverloadKey) :
    (finding.gather text groups).overloadsAt key =
      groups.overloadsAt key ++ ((finding.member? text key).map Member.overload).toList := by
  cases finding with
  | field range => exact (List.append_nil _).symm
  | typed site range =>
      have hdifferent : ∀ overload ∈ groups.overloadsAt site.key,
          overload.definition ≠ site.definition.id := by
        intro overload hmem hsame
        exact hnew site.key overload hmem (congrArg some hsame)
      rw [Finding.gather, Groups.overloadsAt_gather _ hdifferent, Finding.member?]
      by_cases hkey : site.key = key
      · rw [if_pos hkey, if_pos hkey]
        rfl
      · rw [if_neg hkey, if_neg hkey]
        rfl

/-- Findings of different definitions, gathered one after another, make groups of their members. -/
theorem overloadsAt_gatherAll {findings : List Finding}
    (hnodup : (findings.filterMap Finding.definition?).Nodup) (key : OverloadKey) :
    (result.gatherAll findings []).overloadsAt key =
      (findings.filterMap (Finding.member? result.text key)).map Member.overload := by
  induction findings using List.reverseRecOn generalizing key with
  | nil => rfl
  | append_singleton findings finding ih =>
      rw [List.filterMap_append] at hnodup
      obtain ⟨hbefore, -, hdisjoint⟩ := List.nodup_append.mp hnodup
      have hnew : ∀ key, ∀ overload ∈ (result.gatherAll findings []).overloadsAt key,
          some overload.definition ≠ finding.definition? := by
        intro key overload hmem hsame
        rw [ih hbefore key] at hmem
        obtain ⟨member, hmember, rfl⟩ := List.mem_map.mp hmem
        obtain ⟨earlier, hearlier, hfound⟩ := List.mem_filterMap.mp hmember
        have hfirst : member.site.definition.id ∈ findings.filterMap Finding.definition? :=
          List.mem_filterMap.mpr ⟨earlier, hearlier, Finding.definition?_of_member? hfound⟩
        have hsecond : member.site.definition.id ∈ [finding].filterMap Finding.definition? :=
          List.mem_filterMap.mpr ⟨finding, List.mem_singleton_self finding, hsame.symm⟩
        exact hdisjoint _ hfirst _ hsecond rfl
      have hconcat : result.gatherAll (findings ++ [finding]) [] =
          finding.gather result.text (result.gatherAll findings []) := List.foldl_concat ..
      have hlast : ([finding].filterMap (Finding.member? result.text key)).map Member.overload =
          ((finding.member? result.text key).map Member.overload).toList := by
        cases hmember : finding.member? result.text key with
        | none => simp [hmember]
        | some member => simp [hmember]
      calc (result.gatherAll (findings ++ [finding]) []).overloadsAt key
          = (result.gatherAll findings []).overloadsAt key ++
              ((finding.member? result.text key).map Member.overload).toList := by
            rw [hconcat, overloadsAt_gather_finding _ hnew]
        _ = ((findings ++ [finding]).filterMap (Finding.member? result.text key)).map
              Member.overload := by
            rw [ih hbefore key, List.filterMap_append, List.map_append, hlast]

/-- **Groups and their members.**  The group with a key holds the types that were removed from the
definitions with this key, one for each, in the order in which they were found. -/
theorem overloadsAt_groups (key : OverloadKey) :
    result.groups.overloadsAt key = (result.members key).map Member.overload :=
  overloadsAt_gatherAll (nodup_definitionsFrom [] result.diagnostics) key

theorem nodup_keys_groups : (result.groups.map OverloadGroup.key).Nodup := by
  have hall : ∀ (findings : List Finding) (groups : Groups),
      (groups.map OverloadGroup.key).Nodup →
        ((result.gatherAll findings groups).map OverloadGroup.key).Nodup := by
    intro findings
    induction findings with
    | nil =>
        intro groups hkeys
        exact hkeys
    | cons finding rest ih =>
        intro groups hkeys
        apply ih
        cases finding with
        | field range => exact hkeys
        | typed site range => exact Groups.nodup_keys_gather hkeys ..
  exact hall result.findings [] List.nodup_nil

/-- The members of a group are different definitions. -/
theorem nodup_definitions_members (key : OverloadKey) :
    ((result.members key).map fun member => member.site.definition.id).Nodup := by
  have hdefinitions := @nodup_definitionsFrom result [] result.diagnostics
  rw [List.Nodup, List.pairwise_filterMap] at hdefinitions
  rw [List.Nodup, List.pairwise_map, members, List.pairwise_filterMap]
  apply hdefinitions.imp
  intro first second hne member hmember member' hmember'
  exact hne _ (Finding.definition?_of_member? hmember) _ (Finding.definition?_of_member? hmember')

/-- Each group holds the members of its key. -/
theorem overloads_of_mem_groups {group : OverloadGroup} (hmem : group ∈ result.groups) :
    group.overloads = (result.members group.key).map Member.overload := by
  rw [← overloadsAt_groups, Groups.overloadsAt_of_mem nodup_keys_groups hmem]

end Parse

end SyntaxRepair
