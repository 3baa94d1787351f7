import SyntaxRepair.Proofs.Overload.Siblings
import SyntaxRepair.Proofs.Repair.Refusals
import SyntaxRepair.Proofs.Repair.Rounds
import SyntaxRepair.Proofs.Text.Unified

/-!
# Line ends of a repair

A repair puts a text together from parts of the text that it was given, from names of nodes and of
the table, and from what it writes itself.  None of them brings a carriage return in, so the plain
form of a unified text is unified (`repair_unified`).  What carries this through a pass is that the
payloads of the missions and the types in the groups are unified, too.
-/

namespace SyntaxRepair

-- Contracts are gone through by their rules; a step that is unfolded would be evaluated.
attribute [local irreducible] Step.Ensures

open Step

/-! ## What must be unified -/

/-- A report on a unified text in which the names of nodes are unified. -/
structure Parse.Unified (result : Parse) : Prop where
  text : result.text.Unified
  names : ∀ node ∈ result.tree.index.nodes.toList, ∀ name ∈ node.label.name, name.Unified

/-- A unified text under repair, and missions that will not bring a carriage return in. -/
structure Workspace.Unified (workspace : Workspace) : Prop where
  text : workspace.buffer.text.Unified
  payloads : ∀ mission ∈ workspace.queue.missions, mission.payload.Unified

/-- Groups whose dispatchers will not bring a carriage return in. -/
def Groups.Unified (groups : Groups) : Prop :=
  ∀ group ∈ groups, group.key.name.Unified ∧
    ∀ overload ∈ group.overloads, ∀ type ∈ overload.types, type.Unified

/-- A unified workspace with unified groups. -/
structure Sweep.Unified (sweep : Sweep) : Prop where
  workspace : sweep.toWorkspace.Unified
  groups : ∀ groups ∈ sweep.groups, groups.Unified

/-- The name of a node, or nothing. -/
theorem Parse.Unified.name {result : Parse} (h : result.Unified) {node : Outline}
    (hmem : node ∈ result.tree.index.nodes.toList) : (node.label.name.getD []).Unified := by
  cases hname : node.label.name with
  | none => exact Text.unified_nil
  | some name => exact h.names node hmem name hname

theorem Groups.Unified.add {groups : Groups} (h : groups.Unified) {key : OverloadKey}
    (hkey : key.name.Unified) (definition : Nat) {type : Text} (htype : type.Unified)
    (mission : Mission) : (groups.add key definition type mission).Unified := by
  intro group hgroup
  rcases mem_of_mem_updateFirst hgroup with hold | ⟨old, hold, rfl⟩
  · exact h group hold
  · have hgroup : old.key.name.Unified ∧
        ∀ overload ∈ old.overloads, ∀ type ∈ overload.types, type.Unified := by
      rcases hold with hold | rfl
      · exact h old hold
      · exact ⟨hkey, List.forall_mem_nil _⟩
    refine ⟨hgroup.1, fun overload hoverload => ?_⟩
    rcases mem_of_mem_updateFirst hoverload with hkept | ⟨first, hfirst, rfl⟩
    · exact hgroup.2 overload hkept
    · have htypes : ∀ type ∈ first.types, type.Unified := by
        rcases hfirst with hfirst | rfl
        · exact hgroup.2 first hfirst
        · exact List.forall_mem_nil _
      exact List.forall_mem_append.mpr ⟨htypes, List.forall_mem_singleton.mpr htype⟩

/-! ## Operations of the workspace -/

theorem Buffer.unified_of_replace {buffer after : Buffer} {offset length : Int} {inserted : Text}
    (h : buffer.replace offset length inserted = .ok after) (htext : buffer.text.Unified)
    (hinserted : inserted.Unified) : after.text.Unified := by
  obtain ⟨-, -, -, rfl⟩ := replace_eq_ok_iff.mp h
  exact htext.splice _ _ hinserted

namespace Workspace

variable {before : Workspace}

theorem Unified.withBuffer (h : before.Unified) {buffer : Buffer} (hbuffer : buffer.text.Unified) :
    Unified { before with buffer } :=
  ⟨hbuffer, h.payloads⟩

theorem replaceAt_unified (h : before.Unified) {offset length : Json.Number} {inserted : Text}
    (hinserted : inserted.Unified) :
    (replaceAt offset length inserted).Ensures before (fun _ after => after.Unified)
      fun _ _ => True := by
  refine ensures_of_cases (fun done after hok => ?_) fun _ _ _ => trivial
  obtain ⟨start, count, buffer, -, -, hreplace, rfl⟩ := start_replaceAt_eq_ok.mp hok
  exact h.withBuffer (Buffer.unified_of_replace hreplace h.text hinserted)

theorem Unified.add (h : before.Unified) (offset : Int) (purpose : Purpose) {payload : Text}
    (hpayload : payload.Unified) :
    Unified { before with queue := before.queue.add offset purpose payload } := by
  refine ⟨h.text, fun mission hmem => ?_⟩
  rcases List.mem_cons.mp ((Anchor.insert_perm ..).mem_iff.mp hmem) with rfl | hold
  · exact hpayload
  · exact h.payloads mission hold

theorem Unified.relocated (h : before.Unified) (carry : Int → Int) :
    Unified { before with queue := before.queue.relocate carry } := by
  refine ⟨h.text, fun mission hmem => ?_⟩
  obtain ⟨old, hold, rfl⟩ := List.mem_map.mp ((Anchor.sort_perm ..).mem_iff.mp hmem)
  exact h.payloads old hold

theorem removeMissions_unified {missions : List Mission} (h : before.Unified) :
    (removeMissions missions).Ensures before (fun _ after => after.Unified) fun _ _ => True := by
  induction missions generalizing before with
  | nil => exact ensures_pure.mpr h
  | cons mission rest ih =>
      have hfirst : (removeMission mission).Ensures before (fun _ after => after.Unified)
          fun _ _ => True := by
        refine ensures_of_cases (fun done after hok => ?_) fun _ _ _ => trivial
        obtain ⟨queue, hremove, rfl⟩ := start_removeMission_eq_ok.mp hok
        rw [Queue.remove?] at hremove
        split at hremove
        · obtain rfl := Option.some.inj hremove
          exact ⟨h.text, fun other hmem => h.payloads other (List.mem_of_mem_eraseP hmem)⟩
        · cases hremove
      exact hfirst.bind fun _ _ hbetween => ih hbetween

end Workspace

/-! ## Resolving -/

/-- What a finding writes and what its mission carries comes from the text. -/
theorem Finding.unified_found (finding : Finding) {text : Text} {buffer : Buffer}
    (htext : text.Unified) (hbuffer : buffer.text.Unified) :
    (finding.write text).inserted.Unified ∧
      (finding.payload (finding.found text buffer)).Unified := by
  cases finding with
  | field range =>
      have hname := (htext.slice range.start range.stop).of_subset
        (List.tail_sublist _).subset
      refine ⟨hname, ?_⟩
      simp only [payload, found, Text.unified_append]
      exact ⟨⟨⟨by decide, hname⟩, by decide⟩, hname⟩
  | typed site range =>
      exact ⟨Text.unified_nil, (hbuffer.slice _ _).of_subset (dropMarker_subset _)⟩

section

variable {result : Parse}

theorem resolveDiagnostic_unified (hresult : result.Unified) (diagnostic : Diagnostic)
    {before : Sweep} (h : before.Unified) :
    (resolveDiagnostic result.tree.index result diagnostic).Ensures before
      (fun _ after => after.Unified) fun _ _ => True := by
  refine ensures_of_cases (fun resolved after hok => ?_) fun _ _ _ => trivial
  rcases resolveDiagnostic_eq_ok hok with
    ⟨-, -, rfl⟩ | ⟨finding, buffer, hsome, -, -, hperform, rfl⟩
  · exact ⟨⟨h.workspace.text, h.workspace.payloads⟩, h.groups⟩
  · obtain ⟨hinserted, hpayload⟩ := finding.unified_found hresult.text h.workspace.text
    rw [Write.perform_eq_replace] at hperform
    have hbuffer := Buffer.unified_of_replace hperform h.workspace.text hinserted
    have hworkspace := (h.workspace.withBuffer hbuffer).add finding.range.start finding.purpose
      hpayload
    refine ⟨⟨hworkspace.text, hworkspace.payloads⟩, fun groups hgroups => ?_⟩
    obtain ⟨earlier, hearlier, rfl⟩ := Option.map_eq_some_iff.mp hgroups
    cases finding with
    | field range => exact h.groups earlier hearlier
    | typed site range =>
        obtain ⟨parent, hcovers⟩ := Parse.covers_of_finding? hsome
        have hdefinition := result.tree.child_mem_nodes hcovers.parent_mem hcovers.child_mem
        exact (h.groups earlier hearlier).add (hresult.name hdefinition) _ hpayload _

/-! ## Merging -/

open Workspace

variable {table : NameTable} {name : Text} {before : Workspace}

theorem renameEach_unified (htable : table.Unified) (hname : name.Unified) {ordinal : Nat}
    {overloads : List Overload} (h : before.Unified) :
    (renameEach result.tree.index table name ordinal overloads).Ensures before
      (fun _ after => after.Unified) fun _ _ => True := by
  induction overloads generalizing before ordinal with
  | nil => exact ensures_pure.mpr h
  | cons overload rest ih =>
      have hfirst : (renameOverload result.tree.index table name ordinal overload).Ensures before
          (fun _ after => after.Unified) fun _ _ => True := by
        rw [renameOverload, ensures_bind]
        refine ensures_ofExcept (fun definition _ => ?_) fun _ _ => trivial
        rw [ensures_bind]
        refine ensures_orFail (fun location _ => ?_) fun _ => trivial
        rw [ensures_bind]
        refine ensures_ofMisfit (fun length _ => ?_) fun _ _ => trivial
        exact (replaceAt_unified h (htable.rename hname ordinal)).bind
          fun _ _ hbetween => removeMissions_unified hbetween
      exact hfirst.bind fun _ _ hbetween => ih hbetween

/-- Lines above a place are what they are made from. -/
theorem exists_contents_of_abovePlace {definition : Location}
    {contents : Json.Number → Except Misfit Text} {insertion : Insertion}
    (h : abovePlace result definition contents = .ok insertion) :
    ∃ depth, contents depth = .ok insertion.text := by
  simp only [abovePlace, except_bind_eq_ok, Failure.ofMisfit_eq_ok] at h
  obtain ⟨start, -, depth, -, text, htext, hinsertion⟩ := h
  obtain rfl := Except.ok.inj hinsertion
  exact ⟨depth, htext⟩

theorem addDispatcher_unified (htable : table.Unified) (hname : name.Unified) (first : Nat)
    {overloads : List Overload}
    (htypes : ∀ overload ∈ overloads, ∀ type ∈ overload.types, type.Unified)
    (h : before.Unified) :
    (addDispatcher result.tree.index result table name first overloads).Ensures before
      (fun _ after => after.Unified) fun _ _ => True := by
  have htext := htable.dispatcherText hname (List.forall_mem_map.mpr htypes)
  rw [addDispatcher, ensures_bind]
  refine ensures_ofExcept (fun definition _ => ?_) fun _ _ => trivial
  dsimp only
  rw [ensures_bind]
  refine ensures_ofExcept (fun insertion hinsertion => ?_) fun _ _ => trivial
  obtain ⟨depth, hdepth⟩ := exists_contents_of_abovePlace hinsertion
  refine (replaceAt_unified h (htext.indentBy hdepth)).bind fun _ _ hafter => ?_
  exact ensures_modify.mpr ⟨hafter.text, hafter.payloads⟩

theorem mergeOverloads_unified (htable : table.Unified) {groups : Groups} (hgroups : groups.Unified)
    (h : before.Unified) :
    (mergeOverloads result.tree.index result table groups).Ensures before
      (fun _ after => after.Unified) fun _ _ => True := by
  induction groups generalizing before with
  | nil => exact ensures_pure.mpr h
  | cons group groups ih =>
      obtain ⟨⟨hname, htypes⟩, hrest⟩ := List.forall_mem_cons.mp hgroups
      have hfirst : (mergeGroup result.tree.index result table group).Ensures before
          (fun _ after => after.Unified) fun _ _ => True := by
        unfold mergeGroup
        split
        · refine (renameEach_unified htable hname h).bind fun _ between hbetween => ?_
          exact (addDispatcher_unified htable hname _ htypes hbetween).bind
            fun _ _ hafter => ensures_pure.mpr hafter
        · exact ensures_pure.mpr h
      rw [mergeOverloads]
      refine hfirst.bind fun _ between hbetween => ?_
      exact (ih hrest hbetween).bind fun _ _ hafter => ensures_pure.mpr hafter

/-! ## A pass -/

theorem makePass_unified (hresult : result.Unified) {options : Options}
    (htable : options.names.Unified) (number : Nat) (h : before.Unified) :
    (makePass options number result).Ensures before (fun _ after => after.Unified)
      fun _ _ => True := by
  have hcloses : ∀ (event : Event) {between : Workspace}, between.Unified →
      (relocate >>= fun _ => note event).Ensures between (fun _ after => after.Unified)
        fun _ _ => True := fun event between hbetween =>
    have hmoved := hbetween.relocated between.buffer.carry
    ensures_bind.mpr (ensures_modify.mpr (ensures_modify.mpr ⟨hmoved.text, hmoved.payloads⟩))
  let begun : Sweep := { before with groups := if decide (number = 1) then some [] else none }
  have hbegun : begun.Unified := by
    refine ⟨⟨h.text, h.payloads⟩, fun groups hgroups => ?_⟩
    have hempty : groups = [] := by
      by_cases hfirst : number = 1 <;> simp_all [begun]
    rw [hempty]
    exact List.forall_mem_nil _
  have hswept : (sweep (number = 1) result).Ensures before
      (fun ending after => after.Unified ∧ ∀ groups ∈ ending.2, groups.Unified)
      fun _ _ => True := by
    have hall : (resolveDiagnostics result.tree.index result result.diagnostics).Ensures begun
        (fun _ after => after.Unified) fun _ _ => True :=
      resolveDiagnostics_ensures
        (fun diagnostic _ _ hbetween => resolveDiagnostic_unified hresult diagnostic hbetween)
        hbegun
    exact ensures_sweep.mpr (hall.imp (fun _ _ hafter => ⟨hafter.workspace, hafter.groups⟩)
      fun _ _ _ => trivial)
  rw [makePass]
  refine hswept.bind fun ending swept hending => ?_
  obtain ⟨resolved, groups⟩ := ending
  obtain ⟨hworkspace, hgroups⟩ := hending
  cases groups with
  | none => exact hcloses _ hworkspace
  | some groups =>
      exact (mergeOverloads_unified htable (hgroups groups rfl) hworkspace).bind
        fun _ _ hmerged => hcloses _ hmerged

/-! ## Carrying out missions -/

theorem unified_indentedLine {indent : Json.Number} {contents line : Text}
    (hcontents : contents.Unified) (h : indentedLine indent contents = .ok line) :
    line.Unified := by
  obtain ⟨depth, -, hline⟩ := except_bind_eq_ok.mp h
  obtain rfl := Except.ok.inj hline
  exact ((Text.unified_spaces depth).append hcontents).append (by decide)

theorem unified_assignmentPlace {definition : Label} {payload : Text} {insertion : Insertion}
    (hpayload : payload.Unified) (h : assignmentPlace definition payload = .ok insertion) :
    insertion.text.Unified := by
  unfold assignmentPlace at h
  split at h
  · simp only [Failure.ofMisfit_eq_ok, levelPlace, except_bind_eq_ok] at h
    obtain ⟨offset, -, line, hline, hinsertion⟩ := h
    obtain rfl := Except.ok.inj hinsertion
    exact unified_indentedLine hpayload hline
  · simp only [Failure.ofMisfit_eq_ok, deeperPlace, except_bind_eq_ok] at h
    obtain ⟨indent, -, between, -, offset, -, line, hline, hinsertion⟩ := h
    obtain rfl := Except.ok.inj hinsertion
    exact unified_indentedLine hpayload hline
  · cases h

theorem Mission.insertion_unified (hresult : result.Unified) {mission : Mission}
    (hpayload : mission.payload.Unified) {insertion : Insertion}
    (h : mission.insertion result.tree.index result = .ok insertion) : insertion.text.Unified := by
  unfold Mission.insertion at h
  split at h
  · cases h
  · split at h
    · exact unified_assignmentPlace hpayload h
    · split at h
      · cases h
      · next parameter hparameter =>
        have hname := hresult.name
          (result.tree.mem_nodes_of_innermost (Option.filter_eq_some_iff.mp hparameter).1)
        split at h
        · cases h
        · obtain ⟨depth, hline⟩ := exists_contents_of_abovePlace h
          refine unified_indentedLine ?_ hline
          simp only [typeCommentText, Text.unified_append]
          exact ⟨⟨⟨by decide, hname⟩, by decide⟩, hpayload⟩

theorem executeEach_unified (hresult : result.Unified) {missions : List Mission}
    (hmissions : ∀ mission ∈ missions, mission.payload.Unified) (h : before.Unified) :
    (executeEach result.tree.index result missions).Ensures before (fun _ after => after.Unified)
      fun _ _ => True := by
  induction missions generalizing before with
  | nil => exact ensures_pure.mpr h
  | cons mission rest ih =>
      obtain ⟨hpayload, hrest⟩ := List.forall_mem_cons.mp hmissions
      rw [executeEach, ensures_bind, note, ensures_modify, ensures_bind, Mission.execute,
        ensures_bind]
      refine ensures_ofExcept (fun insertion hinsertion => ?_) fun _ _ => trivial
      have hinserted := Mission.insertion_unified hresult hpayload hinsertion
      have hnoted : Unified { before with journal := before.journal ++ [.executes mission] } :=
        ⟨h.text, h.payloads⟩
      exact (replaceAt_unified hnoted hinserted).imp (fun _ _ hafter => ih hrest hafter)
        fun _ _ _ => trivial

theorem executeAll_unified (hresult : result.Unified) (h : before.Unified) :
    (executeAll result).Ensures before (fun _ after => after.Unified) fun _ _ => True := by
  rw [executeAll, ensures_bind, reset, ensures_modify, ensures_bind, ensures_get, ensures_bind,
    ensures_modify]
  exact executeEach_unified hresult h.payloads ⟨h.text, List.forall_mem_nil _⟩

end

/-! ## Repairs -/

/-- A parser that reports on unified texts with unified names. -/
def Parser.Unified {σ : Type} (parser : Parser σ) : Prop :=
  ∀ (text : Text) (state : σ), text.Unified → ∀ result after,
    (parser text).start state = (.ok result, after) → result.Unified

section

variable {σ : Type} {parser : Parser σ} {options : Options}

namespace Run

/-- A round that begins in a unified workspace reports on it and leaves it unified. -/
theorem unified_of_openPass (hparser : parser.Unified) {number : Nat} {result : Parse}
    {before opened : Run σ} (h : before.toWorkspace.Unified)
    (hparse : (openPass parser number).start before = (.ok result, opened)) :
    result.Unified ∧ opened.toWorkspace.Unified := by
  obtain ⟨state, hanswer, rfl⟩ := openPass_eq_ok_iff.mp hparse
  exact ⟨hparser _ _ h.text result state hanswer, ⟨h.text, h.payloads⟩⟩

theorem Passed.unified (hparser : parser.Unified) (htable : options.names.Unified)
    {begun after : Run σ} {results : List Parse} (hbegun : begun.toWorkspace.Unified)
    (h : Passed parser options begun results after) : after.toWorkspace.Unified := by
  induction h with
  | start => exact hbegun
  | next earlier hparse hbroken hprogress hpass ih =>
      obtain ⟨hresult, hopened⟩ := unified_of_openPass hparser ih hparse
      exact (makePass_unified hresult htable _ hopened).of_eq_ok (pass_eq_ok hpass)

end Run

/-- **One kind of line end.**  The plain form of a unified text is unified. -/
theorem repair_unified (hparser : parser.Unified) (htable : options.names.Unified)
    {text plain : Text} {state : σ} {run : Run σ} (htext : text.Unified)
    (h : (repair parser options).start (Run.of text state) = (.ok plain, run)) :
    plain.Unified := by
  have hbegun : (Run.of text state).toWorkspace.Unified := ⟨htext, List.forall_mem_nil _⟩
  obtain ⟨results, before, hpassed, hends⟩ :=
    Run.untilClean_ends parser options (Run.of text state)
  rw [repair, start_bind_eq_ok] at h
  obtain ⟨clean, cleaned, hclean, h⟩ := h
  rw [hclean] at hends
  cases hends with
  | clean hparse hnone =>
      obtain ⟨hresult, hopened⟩ := Run.unified_of_openPass hparser
        (hpassed.unified hparser htable hbegun) hparse
      rw [start_bind_eq_ok] at h
      obtain ⟨_, executed, hexecute, h⟩ := h
      rw [Run.onWorkspace, start_within_eq_ok] at hexecute
      obtain ⟨workspace, hexecute, rfl⟩ := hexecute
      have hworkspace := (executeAll_unified hresult hopened).of_eq_ok hexecute
      rw [start_bind_eq_ok] at h
      obtain ⟨_, _, hget, h⟩ := h
      obtain ⟨rfl, rfl⟩ := start_get_eq_ok.mp hget
      obtain ⟨rfl, rfl⟩ := start_pure_eq_ok.mp h
      exact hworkspace.text

end

end SyntaxRepair
