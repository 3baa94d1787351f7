import SyntaxRepair.Proofs.Repair.Contracts
import SyntaxRepair.Proofs.Repair.Sweeping

/-!
# Diagnostics that cannot be resolved

A diagnostic whose resolution fails has collected nothing, whatever else it has done before it
failed.  If the offsets of the report are written as whole numbers, nothing but a violation
stands in its way (`resolveDiagnostics_fails`): an argument that is no field, a definition
without a name, or an edit that the buffer refuses.
-/

namespace SyntaxRepair

open Json (Number)

/-! ## Offsets that are whole numbers -/

/-- A location whose offsets are written as whole numbers. -/
structure Location.Spanning (location : Location) : Prop where
  start_eq : location.start = .int location.values.start
  stop_eq : location.stop = .int location.values.stop

instance (location : Location) : Decidable location.Spanning :=
  decidable_of_iff (location.start = .int location.values.start ∧
    location.stop = .int location.values.stop) ⟨fun h => ⟨h.1, h.2⟩, fun h => ⟨h.1, h.2⟩⟩

theorem Location.Spanning.range_eq {location : Location} (h : location.Spanning) :
    location.range = .ok location.values :=
  Location.range_eq_ok_iff.mpr ⟨h.start_eq, h.stop_eq⟩

theorem Location.spanning_of_range {location : Location} {range : Range}
    (hrange : location.range = .ok range) : location.Spanning := by
  obtain ⟨hstart, hstop⟩ := Location.range_eq_ok_iff.mp hrange
  rw [← Location.values_of_range hrange] at hstart hstop
  exact ⟨hstart, hstop⟩

/-- A report whose offsets are written as whole numbers. -/
def Parse.Spanning (result : Parse) : Prop := ∀ location ∈ result.locations, location.Spanning

instance (result : Parse) : Decidable result.Spanning :=
  inferInstanceAs (Decidable (∀ _ ∈ _, _))

namespace Parse.Spanning

variable {result : Parse} {site : Sweep.Site}

theorem of_diagnostic (hspanning : result.Spanning) {diagnostic : Diagnostic}
    (hmem : diagnostic ∈ result.diagnostics) : diagnostic.location.Spanning :=
  hspanning _ (location_mem_of_diagnostic hmem)

theorem of_node (hspanning : result.Spanning) {node : Outline}
    (hmem : node ∈ result.tree.index.nodes.toList) : node.location.Spanning :=
  hspanning _ (location_mem_of_node hmem (List.mem_cons_self ..))

/-- The parameter of a site begins at a whole number. -/
theorem parameter_eq (hspanning : result.Spanning) {offset : Int}
    (hsite : Sweep.site? result.tree.index offset = some site) :
    site.parameter = .int site.parameter.whole := by
  simp only [Sweep.site?, bind, Option.bind_eq_some_iff] at hsite
  obtain ⟨definition, hdefinition, _, -, _, -, parameters, hparameters, body, -, parameter,
    hparameter, hsite⟩ := hsite
  cases hsite
  obtain ⟨child, hchild, rfl⟩ := List.mem_map.mp (Number.firstGreatest_mem hparameter)
  have hnode : child ∈ result.tree.index.nodes.toList :=
    result.tree.child_mem_nodes
      (result.tree.child_mem_nodes (result.tree.mem_nodes_of_innermost hdefinition)
        (List.mem_of_find?_eq_some hparameters)) hchild
  exact (hspanning.of_node hnode).start_eq

/-- What follows a marker in the body of a site begins at a whole number. -/
theorem follower_eq (hspanning : result.Spanning) {offset : Int}
    (hsite : Sweep.site? result.tree.index offset = some site) {right : Outline}
    (hright : right ∈ site.body.children) :
    right.location.start = .int right.location.start.whole := by
  obtain ⟨hdefinition, hbody⟩ := Sweep.site?_mem hsite
  have hnode : right ∈ result.tree.index.nodes.toList :=
    result.tree.child_mem_nodes (result.tree.child_mem_nodes hdefinition hbody) hright
  exact (hspanning.of_node hnode).start_eq

end Parse.Spanning

/-! ## Failures of a sweep -/

namespace Sweep

open Step

variable {before : Sweep} {result : Parse}

/-- A sweep that has failed from `before` on has collected nothing, and if its offsets are
`whole`, nothing but a violation has stood in its way. -/
def Refused (before : Sweep) (whole : Prop) (failure : Failure) (after : Sweep) : Prop :=
  after.groups = before.groups ∧ (whole → ∃ cause, failure = .violation cause)

theorem refused_of_misfit {whole : Prop} {α : Type} {outcome : Except Misfit α} {cause : Misfit}
    {after : Sweep} (hgroups : after.groups = before.groups) (hcause : outcome = .error cause)
    (hvalue : whole → ∃ value, outcome = .ok value) :
    Refused before whole (.misfit cause) after := by
  refine ⟨hgroups, fun hwhole => ?_⟩
  obtain ⟨value, hvalue⟩ := hvalue hwhole
  rw [hvalue] at hcause
  cases hcause

theorem resolveField_refused (before : Sweep) (result : Parse) (location : Location) :
    (resolveField result location).Ensures before (fun _ _ => True)
      (Refused before location.Spanning) := by
  unfold resolveField
  rw [ensures_bind]
  refine ensures_ofMisfit (fun range hrange => ?_) fun cause hcause =>
    refused_of_misfit rfl hcause fun hwhole => ⟨_, hwhole.range_eq⟩
  split
  · simp only [onWorkspace, ensures_bind, ensures_within]
    exact Workspace.edit_ensures (fun buffer _ => trivial) fun cause _ => ⟨rfl, fun _ => ⟨_, rfl⟩⟩
  · exact ⟨rfl, fun _ => ⟨_, rfl⟩⟩

theorem collect_refused (before : Sweep) (site : Site) (type : Text) (mission : Mission) :
    (collect site type mission).Ensures before (fun _ _ => True) (Refused before True) := by
  unfold collect
  rw [ensures_bind, ensures_get]
  split
  · trivial
  · split
    · exact ⟨rfl, fun _ => ⟨_, rfl⟩⟩
    · trivial

theorem cutType_refused (before : Sweep) {site : Site} {stop : Number} {whole : Prop}
    (hparameter : whole → site.parameter = .int site.parameter.whole)
    (hstop : whole → stop = .int stop.whole) :
    (cutType site stop).Ensures before (fun _ _ => True) (Refused before whole) := by
  simp only [cutType, onWorkspace, ensures_bind, ensures_get, ensures_within]
  refine ensures_ofMisfit (fun type _ => ?_) fun cause hcause =>
    refused_of_misfit rfl hcause fun hwhole => ?_
  · refine ensures_ofMisfit (fun start _ => ?_) fun cause hcause =>
      refused_of_misfit rfl hcause fun hwhole => ?_
    · refine ensures_ofMisfit (fun last _ => ?_) fun cause hcause =>
        refused_of_misfit rfl hcause fun hwhole => ?_
      · refine Workspace.edit_ensures (fun buffer _ => ?_) fun cause _ => ⟨rfl, fun _ => ⟨_, rfl⟩⟩
        refine (collect_refused _ site (dropMarker type) _).imp (fun _ _ _ => trivial) ?_
        exact fun failure after hrefused => ⟨hrefused.1, fun _ => hrefused.2 trivial⟩
      · rw [hstop hwhole]
        exact ⟨_, Number.bound_int _⟩
    · rw [hparameter hwhole]
      exact ⟨_, Number.bound_int _⟩
  · rw [hparameter hwhole, hstop hwhole]
    exact ⟨_, before.buffer.sliceNumbers_int _ _⟩

theorem resolveTyped_refused (before : Sweep) (result : Parse) (location : Location) :
    (resolveTyped result.tree.index result location).Ensures before (fun _ _ => True)
      (Refused before (result.Spanning ∧ location.Spanning)) := by
  unfold resolveTyped
  rw [ensures_bind]
  refine ensures_ofMisfit (fun marker _ => ?_) fun cause hcause =>
    refused_of_misfit rfl hcause fun hwhole => ⟨_, hwhole.2.range_eq⟩
  split
  · trivial
  · split
    · trivial
    · rename_i site hsite
      rw [ensures_bind, ensures_get]
      split
      · trivial
      · rw [ensures_bind, ensures_modify]
        split
        · trivial
        · rename_i right hright
          exact cutType_refused _ (fun hwhole => hwhole.1.parameter_eq hsite) fun hwhole =>
            hwhole.1.follower_eq hsite (List.mem_of_find?_eq_some hright)

end Sweep

/-- **A diagnostic that is not resolved.**  It has collected nothing, and nothing but a violation
stands in the way of one with whole offsets. -/
theorem resolveDiagnostic_refused (before : Sweep) (result : Parse) (diagnostic : Diagnostic) :
    (resolveDiagnostic result.tree.index result diagnostic).Ensures before (fun _ _ => True)
      (Sweep.Refused before (result.Spanning ∧ diagnostic.location.Spanning)) := by
  unfold resolveDiagnostic
  split
  · exact (Sweep.resolveField_refused before result _).imp (fun _ _ _ => trivial)
      fun failure after hrefused => ⟨hrefused.1, fun hwhole => hrefused.2 hwhole.2⟩
  · exact Sweep.resolveTyped_refused before result _
  · trivial

/-- **Diagnostics one after another.**  What each of them keeps they keep together, and together
they fail as one of them does. -/
theorem resolveDiagnostics_ensures {result : Parse} {diagnostics : List Diagnostic}
    {good : Sweep → Prop} {broken : Failure → Sweep → Prop}
    (hone : ∀ diagnostic ∈ diagnostics, ∀ before, good before →
      (resolveDiagnostic result.tree.index result diagnostic).Ensures before
        (fun _ after => good after) broken)
    {before : Sweep} (hbefore : good before) :
    (resolveDiagnostics result.tree.index result diagnostics).Ensures before
      (fun _ after => good after) broken := by
  induction diagnostics generalizing before with
  | nil => exact hbefore
  | cons diagnostic rest ih =>
      rw [List.forall_mem_cons] at hone
      rw [resolveDiagnostics]
      refine (hone.1 before hbefore).bind fun resolved between hbetween => ?_
      exact (ih hone.2 hbetween).bind fun _ _ hafter => Step.ensures_pure.mpr hafter

/-- Nothing but a violation stands in the way of diagnostics with whole offsets. -/
theorem resolveDiagnostics_fails {result : Parse} (hspanning : result.Spanning) (before : Sweep) :
    (resolveDiagnostics result.tree.index result result.diagnostics).Ensures before
      (fun _ _ => True) fun failure _ => ∃ cause, failure = .violation cause := by
  refine resolveDiagnostics_ensures (fun diagnostic hmem between _ => ?_) trivial
  exact (resolveDiagnostic_refused between result diagnostic).imp (fun _ _ _ => trivial)
    fun failure after hrefused => hrefused.2 ⟨hspanning, hspanning.of_diagnostic hmem⟩

/-- What a sweep ensures is what its diagnostics ensure one after another. -/
theorem ensures_sweep {collecting : Bool} {result : Parse} {before : Workspace}
    {post : Nat × Option Groups → Workspace → Prop} {broken : Failure → Workspace → Prop} :
    (sweep collecting result).Ensures before post broken ↔
      (resolveDiagnostics result.tree.index result result.diagnostics).Ensures
        { before with groups := if collecting then some [] else none }
        (fun resolved swept => post (resolved, swept.groups) swept.toWorkspace)
        fun failure swept => broken failure swept.toWorkspace := by
  unfold Step.Ensures
  rw [sweep, Step.start_of]
  dsimp only
  rcases (resolveDiagnostics result.tree.index result result.diagnostics).start
      { before with groups := if collecting then some [] else none } with
    ⟨failure | resolved, swept⟩ <;> rfl

/-- Nothing but a violation stands in the way of a sweep over whole offsets. -/
theorem sweep_fails {result : Parse} (hspanning : result.Spanning) (collecting : Bool)
    (before : Workspace) :
    (sweep collecting result).Ensures before (fun _ _ => True)
      fun failure _ => ∃ cause, failure = .violation cause :=
  ensures_sweep.mpr (resolveDiagnostics_fails hspanning _)

end SyntaxRepair
