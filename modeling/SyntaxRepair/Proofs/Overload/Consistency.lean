import SyntaxRepair.Proofs.Mission.Queue
import SyntaxRepair.Proofs.Overload.Gathering
import SyntaxRepair.Proofs.Repair.Refusals
import SyntaxRepair.Proofs.Repair.Rewriting
import SyntaxRepair.Proofs.Sequences
import Mathlib.Data.List.Flatten

/-!
# Overload groups and the waiting missions

A first pass collects each definition once, with one type and one mission, and the mission waits
with that type (`Groups.Consistent`).  Merging therefore never asks for a mission that does not
wait, and takes back the missions of the merged definitions and no others
(`mergeOverloads_consistent`).

## Strategy

That a definition is collected once is told by the parameters that were looked for: a type is only
collected if its parameter was not, and the definition tells the parameter.  `Sweep.Consistent` has
this among its parts, and one diagnostic keeps it (`resolveDiagnostic_consistent`).

A queue compares missions by their anchors.  In an ordered queue no two have one anchor, so removing
a mission that waits is removing it and nothing else (`Queue.Ordered.remove?_eq`), and the contracts
of a merge are told by `Queue.without`.
-/

namespace SyntaxRepair

-- Contracts are gone through by their rules; a step that is unfolded would be evaluated.
attribute [local irreducible] Step.Ensures

/-! ## Groups with single missions -/

namespace Groups

variable {groups : Groups} {queue : Queue} {definition : Nat} {payload : Text} {offset : Int}

/-- The definitions of all groups. -/
def overloads (groups : Groups) : List Overload := groups.flatMap OverloadGroup.overloads

/-- The missions of all groups. -/
def missions (groups : Groups) : List Mission := groups.overloads.flatMap Overload.missions

/-- Groups that a queue bears out. -/
structure Consistent (groups : Groups) (queue : Queue) : Prop where
  /-- No definition stands twice, be it in one group or in two. -/
  definitions : (groups.overloads.map Overload.definition).Nodup
  /-- A definition has one type and one mission, which waits with that type. -/
  single : ∀ overload ∈ groups.overloads, ∃ mission ∈ queue.missions,
    mission.purpose = .typeComment ∧ overload.types = [mission.payload] ∧
      overload.missions = [mission]
  /-- No mission belongs to two definitions, as a queue tells missions apart. -/
  anchors : (groups.missions.map Mission.toAnchor).Nodup

theorem consistent_nil (queue : Queue) : Consistent [] queue :=
  ⟨List.nodup_nil, List.forall_mem_nil _, List.nodup_nil⟩

/-- A definition that stands nowhere is added behind all others. -/
theorem overloads_add (key : OverloadKey) (type : Text) (mission : Mission)
    (hnew : ∀ overload ∈ groups.overloads, overload.definition ≠ definition) :
    (groups.add key definition type mission).overloads.Perm
      (groups.overloads ++ [{ definition, types := [type], missions := [mission] }]) := by
  refine flatMap_updateFirst_perm (by simp) rfl fun group hgroup _ => ?_
  have hothers : ∀ overload ∈ group.overloads,
      decide (overload.definition = definition) = false := by
    intro overload hoverload
    refine decide_eq_false ?_
    rcases hgroup with hmem | rfl
    · exact hnew overload (List.mem_flatMap.mpr ⟨group, hmem, hoverload⟩)
    · exact absurd hoverload List.not_mem_nil
  rw [OverloadGroup.add, updateFirst_of_none hothers]
  exact List.Perm.refl _

theorem missions_add (key : OverloadKey) (type : Text) (mission : Mission)
    (hnew : ∀ overload ∈ groups.overloads, overload.definition ≠ definition) :
    (groups.add key definition type mission).missions.Perm (groups.missions ++ [mission]) := by
  have hperm := (overloads_add key type mission hnew).flatMap_right Overload.missions
  rw [List.flatMap_append, List.flatMap_singleton] at hperm
  exact hperm

theorem Consistent.mem_queue (hconsistent : groups.Consistent queue) {mission : Mission}
    (hmem : mission ∈ groups.missions) : mission ∈ queue.missions := by
  obtain ⟨overload, hoverload, hmission⟩ := List.mem_flatMap.mp hmem
  obtain ⟨own, hown, -, -, hmissions⟩ := hconsistent.single overload hoverload
  rw [hmissions, List.mem_singleton] at hmission
  rw [hmission]
  exact hown

/-- Missions that are added to the queue leave the groups consistent. -/
theorem Consistent.queue_add (hconsistent : groups.Consistent queue) (offset : Int)
    (purpose : Purpose) (payload : Text) :
    groups.Consistent (queue.add offset purpose payload) := by
  refine ⟨hconsistent.definitions, fun overload hoverload => ?_, hconsistent.anchors⟩
  obtain ⟨mission, hmission, htask⟩ := hconsistent.single overload hoverload
  exact ⟨mission, Anchor.mem_insert.mpr (Or.inr hmission), htask⟩

/-- A new definition comes with a mission of its own. -/
theorem Consistent.add (hconsistent : groups.Consistent queue) (hqueue : queue.Ordered)
    (key : OverloadKey) (hnew : ∀ overload ∈ groups.overloads, overload.definition ≠ definition) :
    (groups.add key definition payload (queue.nextMission offset .typeComment payload)).Consistent
      (queue.add offset .typeComment payload) := by
  have hoverloads := overloads_add key payload (queue.nextMission offset .typeComment payload) hnew
  have hmissions := missions_add key payload (queue.nextMission offset .typeComment payload) hnew
  refine ⟨?_, ?_, ?_⟩
  · rw [(hoverloads.map _).nodup_iff, List.map_append, List.nodup_append]
    refine ⟨hconsistent.definitions, List.nodup_singleton _, ?_⟩
    intro other hother added hadded
    obtain ⟨overload, hoverload, rfl⟩ := List.mem_map.mp hother
    rw [List.mem_singleton.mp hadded]
    exact hnew overload hoverload
  · intro overload hmem
    rcases List.mem_append.mp (hoverloads.mem_iff.mp hmem) with hold | hadded
    · exact (hconsistent.queue_add ..).single overload hold
    · rw [List.mem_singleton.mp hadded]
      exact ⟨_, Anchor.mem_insert.mpr (Or.inl rfl), rfl, rfl, rfl⟩
  · rw [(hmissions.map _).nodup_iff, List.map_append, List.nodup_append]
    refine ⟨hconsistent.anchors, List.nodup_singleton _, ?_⟩
    intro anchor hanchor added hadded hsame
    obtain ⟨mission, hmission, rfl⟩ := List.mem_map.mp hanchor
    -- the number of the new mission has not been given out
    have hissued := hqueue.sequence_lt (hconsistent.mem_queue hmission)
    rw [List.mem_singleton.mp hadded] at hsame
    rw [congrArg Anchor.sequence hsame] at hissued
    exact Nat.lt_irrefl _ hissued

end Groups

/-! ## What a first pass collects -/

/-- A sweep whose groups are consistent with its queue, and which has looked for the parameters of
all definitions that it holds. -/
structure Sweep.Consistent (result : Parse) (sweep : Sweep) : Prop where
  ordered : sweep.queue.Ordered
  each : ∀ groups ∈ sweep.groups, groups.Consistent sweep.queue
  seen : ∀ groups ∈ sweep.groups, ∀ overload ∈ groups.overloads,
    ∀ (location : Location) (site : Sweep.Site), result.site? location = some site →
      site.definition.id = overload.definition → site.parameter.whole ∈ sweep.seen

section

variable {result : Parse}

/-- Two sites of one definition have one parameter. -/
theorem Parse.parameter_eq_of_site? {location other : Location} {site site' : Sweep.Site}
    (h : result.site? location = some site) (h' : result.site? other = some site')
    (hsame : site'.definition.id = site.definition.id) : site'.parameter = site.parameter := by
  obtain ⟨hnode, hparameter⟩ := mem_nodes_of_site? h
  obtain ⟨hnode', hparameter'⟩ := mem_nodes_of_site? h'
  rw [result.tree.eq_of_id_eq hnode' hnode hsame, hparameter] at hparameter'
  exact (Option.some.inj hparameter').symm

/-- **One diagnostic.**  A definition is only added if it is held nowhere. -/
theorem resolveDiagnostic_consistent (diagnostic : Diagnostic) {before : Sweep}
    (hconsistent : before.Consistent result) :
    (resolveDiagnostic result.tree.index result diagnostic).Ensures before
      (fun _ after => after.Consistent result) fun _ _ => True := by
  refine Step.ensures_of_cases (fun resolved after hok => ?_) fun _ _ _ => trivial
  rcases resolveDiagnostic_eq_ok hok with ⟨-, -, rfl⟩ | ⟨finding, buffer, hsome, -, -, -, rfl⟩
  · refine ⟨hconsistent.ordered, hconsistent.each, ?_⟩
    intro groups hgroups overload hoverload location site hsite hsame
    exact Parse.mem_seeing
      (hconsistent.seen groups hgroups overload hoverload location site hsite hsame)
  · refine ⟨hconsistent.ordered.add .., ?_, ?_⟩
    · intro groups hgroups
      obtain ⟨earlier, hearlier, rfl⟩ := Option.map_eq_some_iff.mp hgroups
      have heach := hconsistent.each earlier hearlier
      cases finding with
      | field range => exact heach.queue_add ..
      | typed site range =>
          obtain ⟨hsite, hnew, -⟩ := Parse.finding?_typed hsome
          refine heach.add hconsistent.ordered site.key fun overload hoverload hheld => ?_
          exact hnew (hconsistent.seen earlier hearlier overload hoverload _ site hsite hheld.symm)
    · intro groups hgroups overload hoverload location site hsite hsame
      obtain ⟨earlier, hearlier, rfl⟩ := Option.map_eq_some_iff.mp hgroups
      cases finding with
      | field range =>
          exact Parse.mem_seeing
            (hconsistent.seen earlier hearlier overload hoverload location site hsite hsame)
      | typed own range =>
          obtain ⟨hown, hnew, hseeing⟩ := Parse.finding?_typed hsome
          have hfresh : ∀ held ∈ earlier.overloads, held.definition ≠ own.definition.id := by
            intro held hheld hdefinition
            exact hnew
              (hconsistent.seen earlier hearlier held hheld _ own hown hdefinition.symm)
          rcases List.mem_append.mp ((Groups.overloads_add _ _ _ hfresh).mem_iff.mp hoverload) with
            hold | hadded
          · exact Parse.mem_seeing
              (hconsistent.seen earlier hearlier overload hold location site hsite hsame)
          · rw [List.mem_singleton.mp hadded] at hsame
            show site.parameter.whole ∈ result.seeing before.seen diagnostic
            rw [hseeing, Parse.parameter_eq_of_site? hown hsite hsame]
            exact List.mem_cons_self ..

/-- **A first pass.**  What it has collected is consistent with the queue that it leaves. -/
theorem sweep_consistent {before : Workspace} (hqueue : before.queue.Ordered) :
    (sweep true result).Ensures before
      (fun ending after => after.queue.Ordered ∧
        ∀ groups ∈ ending.2, groups.Consistent after.queue)
      fun _ _ => True := by
  have hbegun : Sweep.Consistent result { before with groups := some [] } := by
    refine ⟨hqueue, ?_, ?_⟩
    · intro groups hgroups
      cases hgroups
      exact Groups.consistent_nil _
    · intro groups hgroups
      cases hgroups
      exact List.forall_mem_nil _
  have hall := resolveDiagnostics_ensures
    (fun diagnostic (_ : diagnostic ∈ result.diagnostics) _ hbetween =>
      resolveDiagnostic_consistent diagnostic hbetween) hbegun
  refine ensures_sweep.mpr (hall.imp ?_ fun _ _ _ => trivial)
  intro resolved swept hswept
  exact ⟨hswept.ordered, hswept.each⟩

end

/-! ## Failures that are no missing mission -/

namespace Failure

theorem ofMisfit_ne_notQueued {α : Type} (value : Except Misfit α) :
    ofMisfit value ≠ .error .notQueued := by
  cases value <;> simp [ofMisfit, Except.mapError]

theorem ofLookup_ne_notQueued {α : Type} (item : Except Misfit (Option α)) :
    ofLookup item ≠ .error .notQueued := by
  rcases item with cause | _ | value <;> simp [ofLookup]

end Failure

theorem abovePlace_ne_notQueued (result : Parse) (definition : Location)
    (contents : Json.Number → Except Misfit Text) :
    abovePlace result definition contents ≠ .error .notQueued := by
  refine except_bind_ne_error (Failure.ofLookup_ne_notQueued _) fun start => ?_
  refine except_bind_ne_error (Failure.ofMisfit_ne_notQueued _) fun depth => ?_
  refine except_bind_ne_error (Failure.ofMisfit_ne_notQueued _) fun text => ?_
  intro h
  cases h

theorem Buffer.refusal_ne_notQueued (buffer : Buffer) (offset length : Json.Number) :
    buffer.refusal offset length ≠ .notQueued := by
  unfold refusal
  split
  · exact Failure.noConfusion
  · split
    · exact Failure.noConfusion
    · split <;> exact Failure.noConfusion

/-! ## Merging -/

section

open Step Workspace

variable {result : Parse} {table : NameTable} {name : Text} {before : Workspace}

/-- A replacement leaves the queue alone, and does not ask for a mission. -/
theorem Workspace.replaceAt_queue (offset length : Json.Number) (inserted : Text) :
    (replaceAt offset length inserted).Ensures before (fun _ after => after.queue = before.queue)
      fun failure _ => failure ≠ .notQueued := by
  unfold replaceAt
  split
  · exact edit_ensures (fun _ _ => rfl) fun _ _ => Failure.noConfusion
  · rw [ensures_bind, ensures_get, ensures_throw]
    exact Buffer.refusal_ne_notQueued _ _ _

/-- Missions that wait are removed, one after another. -/
theorem removeMissions_without {missions : List Mission} (hordered : before.queue.Ordered)
    (hwait : ∀ mission ∈ missions, mission ∈ before.queue.missions) (hnodup : missions.Nodup) :
    (removeMissions missions).Ensures before
      (fun _ after => after.queue = before.queue.without missions) fun _ _ => False := by
  induction missions generalizing before with
  | nil => exact ensures_pure.mpr before.queue.without_nil.symm
  | cons mission rest ih =>
      rw [List.forall_mem_cons] at hwait
      rw [List.nodup_cons] at hnodup
      rw [removeMissions, ensures_bind, removeMission, ensures_bind, ensures_get,
        hordered.remove?_eq hwait.1, ensures_modify]
      have hrest : ∀ other ∈ rest, other ∈ (before.queue.without [mission]).missions := by
        intro other hmem
        refine Queue.mem_without.mpr ⟨hwait.2 other hmem, fun hsame => ?_⟩
        rw [List.mem_singleton.mp hsame] at hmem
        exact hnodup.1 hmem
      have hothers := @ih { before with queue := before.queue.without [mission] }
        (hordered.without _) hrest hnodup.2
      refine hothers.imp (fun _ after hafter => ?_) fun _ _ hbroken => hbroken
      rw [hafter, Queue.without_append, List.singleton_append]

/-- A definition is renamed and its missions are removed. -/
theorem renameOverload_without {ordinal : Nat} {overload : Overload}
    (hordered : before.queue.Ordered)
    (hwait : ∀ mission ∈ overload.missions, mission ∈ before.queue.missions)
    (hnodup : overload.missions.Nodup) :
    (renameOverload result.tree.index table name ordinal overload).Ensures before
      (fun _ after => after.queue = before.queue.without overload.missions)
      fun failure _ => failure ≠ .notQueued := by
  rw [renameOverload, ensures_bind]
  refine ensures_ofExcept (fun definition _ => ?_) fun failure herror hfailure => ?_
  · rw [ensures_bind]
    refine ensures_orFail (fun location _ => ?_) fun _ => Failure.noConfusion
    rw [ensures_bind]
    refine ensures_ofMisfit (fun length _ => ?_) fun _ _ => Failure.noConfusion
    refine (replaceAt_queue ..).bind fun _ between hbetween => ?_
    rw [← hbetween] at hordered hwait ⊢
    exact (removeMissions_without hordered hwait hnodup).imp (fun _ _ hafter => hafter)
      fun _ _ hbroken => hbroken.elim
  · rw [hfailure] at herror
    exact Failure.ofLookup_ne_notQueued _ herror

/-- The definitions of a group are renamed, and their missions are removed. -/
theorem renameEach_without {ordinal : Nat} {overloads : List Overload}
    (hordered : before.queue.Ordered)
    (hwait : ∀ mission ∈ overloads.flatMap Overload.missions, mission ∈ before.queue.missions)
    (hnodup : (overloads.flatMap Overload.missions).Nodup) :
    (renameEach result.tree.index table name ordinal overloads).Ensures before
      (fun _ after => after.queue = before.queue.without (overloads.flatMap Overload.missions))
      fun failure _ => failure ≠ .notQueued := by
  induction overloads generalizing before ordinal with
  | nil => exact ensures_pure.mpr before.queue.without_nil.symm
  | cons overload rest ih =>
      rw [List.flatMap_cons, List.forall_mem_append] at hwait
      rw [List.flatMap_cons, List.nodup_append] at hnodup
      rw [renameEach]
      refine (renameOverload_without hordered hwait.1 hnodup.1).bind fun _ between hbetween => ?_
      have hrest : ∀ mission ∈ rest.flatMap Overload.missions,
          mission ∈ between.queue.missions := by
        intro mission hmem
        rw [hbetween]
        exact Queue.mem_without.mpr ⟨hwait.2 mission hmem, fun hown =>
          hnodup.2.2 mission hown mission hmem rfl⟩
      have hothers := @ih between (ordinal + 1) (hbetween ▸ hordered.without _) hrest hnodup.2.1
      refine hothers.imp (fun _ after hafter => ?_) fun _ _ hbroken => hbroken
      rw [hafter, hbetween, Queue.without_append, List.flatMap_cons]

/-- A dispatcher leaves the queue alone. -/
theorem addDispatcher_queue (first : Nat) (overloads : List Overload) :
    (addDispatcher result.tree.index result table name first overloads).Ensures before
      (fun _ after => after.queue = before.queue) fun failure _ => failure ≠ .notQueued := by
  rw [addDispatcher, ensures_bind]
  refine ensures_ofExcept (fun definition _ => ?_) fun failure herror hfailure => ?_
  · dsimp only
    rw [ensures_bind]
    refine ensures_ofExcept (fun insertion _ => ?_) fun failure herror hfailure => ?_
    · refine (replaceAt_queue ..).bind fun _ between hbetween => ?_
      exact ensures_modify.mpr hbetween
    · rw [hfailure] at herror
      exact abovePlace_ne_notQueued _ _ _ herror
  · rw [hfailure] at herror
    exact Failure.ofLookup_ne_notQueued _ herror

theorem Groups.mergedMissions_cons (group : OverloadGroup) (rest : Groups) :
    mergedMissions (group :: rest) = mergedMissions [group] ++ mergedMissions rest := by
  rw [mergedMissions, mergedMissions, mergedMissions, ← List.flatMap_append, ← List.filter_append]
  rfl

/-- A group is merged if it has several definitions. -/
theorem mergeGroup_without {group : OverloadGroup} (hordered : before.queue.Ordered)
    (hwait : ∀ mission ∈ Groups.mergedMissions [group], mission ∈ before.queue.missions)
    (hnodup : (Groups.mergedMissions [group]).Nodup) :
    (mergeGroup result.tree.index result table group).Ensures before
      (fun merged after => merged = group.merges ∧
        after.queue = before.queue.without (Groups.mergedMissions [group]))
      fun failure _ => failure ≠ .notQueued := by
  obtain ⟨key, overloads⟩ := group
  rcases overloads with _ | ⟨first, _ | ⟨second, rest⟩⟩
  · exact ensures_pure.mpr ⟨rfl, before.queue.without_nil.symm⟩
  · exact ensures_pure.mpr ⟨rfl, before.queue.without_nil.symm⟩
  · have hall : Groups.mergedMissions [⟨key, first :: second :: rest⟩] =
        (first :: second :: rest).flatMap Overload.missions := by
      rw [Groups.mergedMissions, List.filter_cons_of_pos rfl, List.filter_nil,
        List.flatMap_singleton]
    rw [hall] at hwait hnodup ⊢
    refine (renameEach_without hordered hwait hnodup).bind fun _ between hbetween => ?_
    refine (addDispatcher_queue ..).bind fun _ after hafter => ?_
    exact ensures_pure.mpr ⟨rfl, hafter.trans hbetween⟩

/-- The groups are merged one after another. -/
theorem mergeOverloads_without {groups : Groups} (hordered : before.queue.Ordered)
    (hwait : ∀ mission ∈ groups.mergedMissions, mission ∈ before.queue.missions)
    (hnodup : groups.mergedMissions.Nodup) :
    (mergeOverloads result.tree.index result table groups).Ensures before
      (fun count after => count = (groups.filter OverloadGroup.merges).length ∧
        after.queue = before.queue.without groups.mergedMissions)
      fun failure _ => failure ≠ .notQueued := by
  induction groups generalizing before with
  | nil => exact ensures_pure.mpr ⟨rfl, before.queue.without_nil.symm⟩
  | cons group rest ih =>
      rw [Groups.mergedMissions_cons, List.forall_mem_append] at hwait
      rw [Groups.mergedMissions_cons, List.nodup_append] at hnodup
      rw [mergeOverloads]
      refine (mergeGroup_without hordered hwait.1 hnodup.1).bind fun merged between hfirst => ?_
      obtain ⟨hmerged, hbetween⟩ := hfirst
      have hrest : ∀ mission ∈ Groups.mergedMissions rest, mission ∈ between.queue.missions := by
        intro mission hmem
        rw [hbetween]
        exact Queue.mem_without.mpr ⟨hwait.2 mission hmem, fun hown =>
          hnodup.2.2 mission hown mission hmem rfl⟩
      have hordered' := hbetween ▸ hordered.without (Groups.mergedMissions [group])
      refine (ih hordered' hrest hnodup.2.1).bind fun others after hothers => ?_
      obtain ⟨hcount, hafter⟩ := hothers
      refine ensures_pure.mpr ⟨?_, ?_⟩
      · rw [hmerged, hcount, List.filter_cons]
        split <;> rfl
      · rw [hafter, hbetween, Queue.without_append, ← Groups.mergedMissions_cons]

theorem Groups.mergedMissions_sublist (groups : Groups) :
    groups.mergedMissions.Sublist groups.missions := by
  have hall : groups.missions = groups.flatMap fun group =>
      group.overloads.flatMap Overload.missions := List.flatMap_assoc ..
  rw [hall, mergedMissions]
  exact List.filter_sublist.flatMap _

/-- **Groups and the queue.**  After every first pass over any report, on a queue that its
operations have made: each definition has been collected once, with one type and one mission, which
waits with that type, and no two definitions share a mission.  Hence merging never fails for want of
a mission; where it succeeds, exactly the missions of the groups with several definitions are gone,
and it has counted these groups. -/
theorem mergeOverloads_consistent {before swept : Workspace} {resolved : Nat} {groups : Groups}
    (hbuilt : before.queue.Built)
    (hsweep : (sweep true result).start before = (.ok (resolved, some groups), swept))
    (table : NameTable) :
    groups.Consistent swept.queue ∧
      (mergeOverloads result.tree.index result table groups).Ensures swept
        (fun count after => count = (groups.filter OverloadGroup.merges).length ∧
          after.queue = swept.queue.without groups.mergedMissions)
        fun failure _ => failure ≠ .notQueued := by
  obtain ⟨hordered, heach⟩ := (sweep_consistent hbuilt.ordered).of_eq_ok hsweep
  have hconsistent := heach groups rfl
  have hsublist := groups.mergedMissions_sublist
  refine ⟨hconsistent, mergeOverloads_without hordered ?_ ?_⟩
  · intro mission hmem
    exact hconsistent.mem_queue (hsublist.mem hmem)
  · exact (List.Nodup.of_map _ hconsistent.anchors).sublist hsublist

/-- Two definitions of one name are merged on a queue in which another type comment waits. -/
theorem mergeOverloads_consistent_sample :
    ∃ (before swept after : Workspace) (groups : Groups), before.queue.Built ∧
      (sweep true Run.sampleParse).start before = (.ok (3, some groups), swept) ∧
      groups.Consistent swept.queue ∧ swept.queue.missions.length = 4 ∧
      (mergeOverloads Run.sampleParse.tree.index Run.sampleParse [] groups).start swept =
        (.ok 1, after) ∧
      after.queue = swept.queue.without groups.mergedMissions ∧
      after.queue.missions.map Mission.payload = ["Z", "@c = c"] := by
  let before : Workspace :=
    { buffer := { text := Run.sampleParse.text }
      queue := Queue.empty.add 7 .typeComment "Z" }
  let swept : Workspace := ((sweep true Run.sampleParse).start before).2
  let groups : Groups :=
    (((sweep true Run.sampleParse).start before).1.toOption.bind Prod.snd).getD []
  have hbuilt : before.queue.Built := .add .empty ..
  have hsweep : (sweep true Run.sampleParse).start before = (.ok (3, some groups), swept) :=
    Step.eq_ok_of_fst (by decide +kernel)
  obtain ⟨hconsistent, hmerges⟩ := mergeOverloads_consistent hbuilt hsweep []
  have hmerge := @Step.eq_ok_of_fst Workspace Nat
    ((mergeOverloads Run.sampleParse.tree.index Run.sampleParse [] groups).start swept) 1
    (by decide +kernel)
  obtain ⟨-, hqueue⟩ := hmerges.of_eq_ok hmerge
  refine ⟨before, swept, _, groups, hbuilt, hsweep, hconsistent, by decide +kernel, hmerge, hqueue, ?_⟩
  decide +kernel

end

end SyntaxRepair
