import SyntaxRepair.Proofs.Edit.Reordering
import SyntaxRepair.Proofs.Repair.Following
import SyntaxRepair.Proofs.Repair.Resolvable

/-!
# Diagnostics in another order

Where no two diagnostics are about the type of one parameter, their order does not matter: a sweep
fails in every order, or it leaves in every order the same text and, but for their numbers, the same
missions (`sweep_in_every_order`).

## Strategy

Which diagnostics are resolvable and which writes they ask for is decided by the report
(`sweep_succeeds_iff`), so only the buffer can tell the orders apart.  Writes that it has accepted
are scattered (`Parse.scattered`): no two of them meet, and no two of them insert at one place,
because a type of no characters is found at the parameter that its diagnostic is about.  Scattered
writes are accepted in every order, and since none of them grows they leave one text.
-/

namespace SyntaxRepair

/-! ## Reports and missions without an order -/

/-- A report with its diagnostics in some order. -/
def Parse.inOrder (result : Parse) (order : List Diagnostic) : Parse :=
  { result with diagnostics := order }

/-- What a mission is about, without its number: where it waits, what it adds and what it
carries. -/
def Mission.errand (mission : Mission) : Int × Purpose × Text :=
  (mission.offset, mission.purpose, mission.payload)

/-- What the mission of a finding is about, by the text of the report. -/
def Finding.errand (text : Text) (finding : Finding) : Int × Purpose × Text :=
  (finding.range.start, finding.purpose,
    finding.payload (text.slice finding.range.start finding.range.stop))

theorem Posting.errands_missions (text : Text) (number : Nat) (findings : List Finding) :
    (missions number (findings.map (Finding.posting text))).map Mission.errand =
      findings.map (Finding.errand text) := by
  induction findings generalizing number with
  | nil => rfl
  | cons finding rest ih =>
      rw [List.map_cons, missions_cons, List.map_cons, List.map_cons, ih]
      rfl

namespace Parse

variable {result : Parse} {order : List Diagnostic}

/-- Another order does not bring in other locations. -/
theorem mem_locations_of_inOrder (hperm : order.Perm result.diagnostics) {location : Location}
    (hmem : location ∈ (result.inOrder order).locations) : location ∈ result.locations :=
  ((hperm.map Diagnostic.location).append_right _).mem_iff.mp hmem

theorem Distinct.inOrder (hdistinct : result.Distinct) (hperm : order.Perm result.diagnostics) :
    (result.inOrder order).Distinct :=
  (hperm.pairwise_iff Unrelated.symm).mpr hdistinct

/-- What is found in diagnostics about different parameters. -/
theorem Distinct.findings_eq (hdistinct : result.Distinct) :
    result.findings = result.diagnostics.filterMap (result.finding? []) :=
  findingsFrom_of_distinct hdistinct fun _ _ _ _ => List.not_mem_nil

theorem findings_inOrder_perm (hdistinct : result.Distinct)
    (hperm : order.Perm result.diagnostics) :
    (result.inOrder order).findings.Perm result.findings := by
  rw [hdistinct.findings_eq, (hdistinct.inOrder hperm).findings_eq]
  exact hperm.filterMap _

/-! ## Writes of different diagnostics -/

/-- A finding that removes nothing is found at the parameter that its diagnostic is about. -/
theorem typeOffset?_of_length_eq_zero {diagnostic : Diagnostic} {finding : Finding}
    (hfinding : result.finding? [] diagnostic = some finding)
    (hmarked : finding.Marked result.text) (hshrinks : (finding.write result.text).Shrinks)
    (hempty : (finding.write result.text).length = 0) :
    result.typeOffset? diagnostic = some (finding.write result.text).offset := by
  by_cases hkind : diagnostic.extension? = some .typedParameter
  · obtain ⟨site, right, hsite, -, rfl⟩ := finding?_eq_some_of_typed hkind hfinding
    rw [typeOffset?, if_pos hkind, hsite]
    rfl
  · -- a field leaves its name
    have hfield : ∃ range, finding = .field range := by
      unfold finding? at hfinding
      split at hfinding
      · cases hfinding
        exact ⟨_, rfl⟩
      · rename_i htyped
        exact absurd htyped hkind
      · cases hfinding
    obtain ⟨range, rfl⟩ := hfield
    obtain ⟨c, name, hslice⟩ := hmarked
    have hinserted : ((Finding.field range).write result.text).inserted = c :: name := by
      rw [Finding.write, hslice]
      rfl
    rw [Write.Shrinks, hinserted, hempty] at hshrinks
    rcases hshrinks with hless | ⟨-, hnothing⟩
    · omega
    · cases hnothing

/-- What is found in diagnostics that are resolvable is marked. -/
theorem Resolvable.marked {collecting : Bool} {diagnostic : Diagnostic} {finding : Finding}
    (hresolvable : result.Resolvable collecting diagnostic)
    (hfinding : result.finding? [] diagnostic = some finding) : finding.Marked result.text := by
  unfold Resolvable at hresolvable
  unfold finding? at hfinding
  cases hextension : diagnostic.extension? with
  | none =>
      rw [hextension] at hfinding
      cases hfinding
  | some extension =>
      rw [hextension] at hresolvable hfinding
      cases extension with
      | fieldParameter =>
          cases hfinding
          exact hresolvable.2
      | typedParameter =>
          simp only [bind, Option.bind_eq_some_iff] at hfinding
          obtain ⟨site, -, hfinding⟩ := hfinding
          split at hfinding
          · cases hfinding
          · obtain ⟨right, -, hfinding⟩ := Option.bind_eq_some_iff.mp hfinding
            cases hfinding
            trivial

end Parse

section

variable {result : Parse} {collecting : Bool} {order : List Diagnostic} {before : Workspace}

/-- **Which sweeps succeed.**  Diagnostics about different parameters are swept exactly if each of
them is resolvable and the buffer accepts the writes of what they find. -/
theorem sweep_succeeds_iff (hdistinct : result.Distinct) :
    (∃ outcome after, (sweep collecting result).start before = (.ok outcome, after)) ↔
      (∀ diagnostic ∈ result.diagnostics, result.Resolvable collecting diagnostic) ∧
        ∃ buffer, before.buffer.performAll (result.findings.map (Finding.write result.text)) =
          .ok buffer := by
  let begun : Sweep := { before with groups := if collecting then some [] else none }
  have hcollecting : begun.groups.isSome = collecting := by
    cases collecting <;> rfl
  have hresolves := @resolveDiagnostics_succeeds_iff result begun result.diagnostics hdistinct
    fun _ _ _ _ => List.not_mem_nil
  rw [hcollecting, ← hdistinct.findings_eq] at hresolves
  rw [← hresolves, Step.exists_ok_iff, Step.exists_ok_iff]
  exact ensures_sweep

/-- Writes of diagnostics about different parameters are scattered, if a fresh buffer has accepted
them. -/
theorem Parse.scattered {buffer : Buffer}
    (hdistinct : result.Distinct) (hfollows : buffer.Follows result.text result.findings)
    (hmarked : ∀ finding ∈ result.findings, finding.Marked result.text) :
    Scattered result.text.length (result.findings.map (Finding.write result.text)) := by
  have records := Buffer.records_of_performAll hfollows.performed
  refine ⟨records.nonneg, hfollows.inside, ?_⟩
  have hpoints : (result.findings.map (Finding.write result.text)).Pairwise fun first second =>
      first.length = 0 → second.length = 0 → first.offset ≠ second.offset := by
    have hshrinks := hfollows.shrinks
    rw [hdistinct.findings_eq] at hmarked hshrinks ⊢
    rw [List.pairwise_map, List.pairwise_filterMap]
    refine (List.Pairwise.and_mem.mp hdistinct).imp ?_
    rintro first second ⟨hfirst, hsecond, hunrelated⟩ finding hfinding other hother hempty hempty'
      heq
    have hmem := List.mem_filterMap.mpr ⟨first, hfirst, hfinding⟩
    have hmem' := List.mem_filterMap.mpr ⟨second, hsecond, hother⟩
    have hoffset := typeOffset?_of_length_eq_zero hfinding (hmarked _ hmem)
      (hshrinks _ (List.mem_map_of_mem hmem)) hempty
    have hoffset' := typeOffset?_of_length_eq_zero hother (hmarked _ hmem')
      (hshrinks _ (List.mem_map_of_mem hmem')) hempty'
    exact hunrelated _ hoffset (heq ▸ hoffset')
  exact records.apart.and hpoints

/-- What a sweep leaves that succeeds, whatever the order of the diagnostics. -/
structure Workspace.Swept (before after : Workspace) (text : Text) (result : Parse) : Prop where
  text_eq : after.buffer.text = text
  errands_perm : (after.queue.missions.map Mission.errand).Perm
    (before.queue.missions.map Mission.errand ++ result.findings.map (Finding.errand result.text))

/-- A sweep in another order succeeds as well, and leaves the same. -/
theorem sweep_of_perm {outcome : Nat × Option Groups} {after : Workspace}
    (hlocations : ∀ location ∈ result.locations, location.Within result.text.length)
    (hdistinct : result.Distinct) (hfresh : before.buffer = { text := result.text })
    (hperm : order.Perm result.diagnostics)
    (h : (sweep collecting result).start before = (.ok outcome, after)) :
    ∃ outcome after', (sweep collecting (result.inOrder order)).start before =
        (.ok outcome, after') ∧ before.Swept after' after.buffer.text result := by
  obtain ⟨hresolvable, -⟩ := (sweep_succeeds_iff hdistinct).mp ⟨outcome, after, h⟩
  obtain ⟨hfollows, -⟩ := sweep_eq_ok hlocations hfresh h
  obtain ⟨-, hmarked, -⟩ := sweep_missions hlocations hfresh h
  have hfindings := Parse.findings_inOrder_perm hdistinct hperm
  have hwrites := hfindings.map (Finding.write result.text)
  have hscattered := result.scattered hdistinct hfollows hmarked
  have hperforms : ∃ buffer, before.buffer.performAll
      ((result.inOrder order).findings.map (Finding.write result.text)) = .ok buffer := by
    rw [hfresh]
    exact Buffer.exists_performAll (hscattered.perm hwrites.symm)
  obtain ⟨outcome', after', h'⟩ := (sweep_succeeds_iff (hdistinct.inOrder hperm)).mpr
    ⟨fun diagnostic hmem => hresolvable diagnostic (hperm.mem_iff.mp hmem), hperforms⟩
  have hlocations' : ∀ location ∈ (result.inOrder order).locations,
      location.Within result.text.length := fun location hmem =>
    hlocations location (Parse.mem_locations_of_inOrder hperm hmem)
  obtain ⟨hfollows', -⟩ := sweep_eq_ok hlocations' hfresh h'
  obtain ⟨hpostings, -, hmissions⟩ := sweep_missions hlocations' hfresh h'
  refine ⟨outcome', after', h', ?_, ?_⟩
  · have hcommutes : (result.findings.map (Finding.write result.text)).Pairwise Write.Commutes :=
      List.pairwise_of_forall_mem_list fun first hfirst second hsecond =>
        ⟨Write.yields_of_growth_le (hfollows.shrinks second hsecond).growth_le,
          Write.yields_of_growth_le (hfollows.shrinks first hfirst).growth_le⟩
    exact (Buffer.text_eq_of_perm hwrites.symm hscattered hcommutes hfollows.performed
      hfollows'.performed).symm
  · rw [hpostings] at hmissions
    have herrands := hmissions.map Mission.errand
    rw [List.map_append, Posting.errands_missions] at herrands
    exact herrands.trans ((hfindings.map _).append_left _)

/-- **Diagnostics in every order.**  If no two diagnostics are about the type of one parameter, a
sweep fails in all orders of the diagnostics, with a violation if the offsets are whole numbers; or
it succeeds in all of them, and what it leaves is the same: one text, and for each finding a mission
that carries what stood in the text of the report. -/
theorem sweep_in_every_order
    (hlocations : ∀ location ∈ result.locations, location.Within result.text.length)
    (hdistinct : result.Distinct) (hfresh : before.buffer = { text := result.text }) :
    (∀ order, order.Perm result.diagnostics → ∃ failure after,
        (sweep collecting (result.inOrder order)).start before = (.error failure, after) ∧
          (result.Spanning → ∃ cause, failure = .violation cause)) ∨
      ∃ text, ∀ order, order.Perm result.diagnostics → ∃ outcome after,
        (sweep collecting (result.inOrder order)).start before = (.ok outcome, after) ∧
          before.Swept after text result := by
  by_cases hsucceeds : ∃ outcome after,
      (sweep collecting result).start before = (.ok outcome, after)
  · obtain ⟨outcome, after, h⟩ := hsucceeds
    exact Or.inr ⟨after.buffer.text, fun order hperm =>
      sweep_of_perm hlocations hdistinct hfresh hperm h⟩
  · refine Or.inl fun order hperm => ?_
    rcases hending : (sweep collecting (result.inOrder order)).start before with
      ⟨failure | outcome, after⟩
    · refine ⟨failure, after, rfl, fun hspanning => ?_⟩
      have hspanning' : (result.inOrder order).Spanning := fun location hmem =>
        hspanning location (Parse.mem_locations_of_inOrder hperm hmem)
      exact (sweep_fails hspanning' collecting before).of_eq_error hending
    · -- back to the order of the report
      have hlocations' : ∀ location ∈ (result.inOrder order).locations,
          location.Within result.text.length := fun location hmem =>
        hlocations location (Parse.mem_locations_of_inOrder hperm hmem)
      obtain ⟨outcome', after', h', -⟩ := sweep_of_perm hlocations' (hdistinct.inOrder hperm) hfresh
        hperm.symm hending
      exact absurd ⟨outcome', after', h'⟩ hsucceeds

/-- The two types and the field of three definitions are removed in each of the six orders. -/
theorem sweep_in_every_order_sample :
    Run.sampleParse.diagnostics.length = 3 ∧
      ∀ order, order.Perm Run.sampleParse.diagnostics → ∃ outcome after,
        (sweep true (Run.sampleParse.inOrder order)).start
            { buffer := { text := Run.sampleParse.text } } = (.ok outcome, after) ∧
          after.buffer.text = "def f(a)end\ndef f(b)end\ndef g(c)end" ∧
          (after.queue.missions.map Mission.errand).Perm
            [(36, .assignment, "@c = c"), (6, .typeComment, "A"), (21, .typeComment, "B")] := by
  let before : Workspace := { buffer := { text := Run.sampleParse.text } }
  have hends : ((sweep true Run.sampleParse).start before).1.toOption.isSome = true ∧
      ((sweep true Run.sampleParse).start before).2.buffer.text =
        "def f(a)end\ndef f(b)end\ndef g(c)end" := by decide +kernel
  have herrands : Run.sampleParse.findings.map (Finding.errand Run.sampleParse.text) =
      ([(36, .assignment, "@c = c"), (6, .typeComment, "A"), (21, .typeComment, "B")] :
        List (Int × Purpose × Text)) := by decide +kernel
  have horders := @sweep_in_every_order Run.sampleParse true before (by decide +kernel)
    (by decide +kernel) rfl
  have hself : Run.sampleParse.inOrder Run.sampleParse.diagnostics = Run.sampleParse := rfl
  refine ⟨rfl, ?_⟩
  rcases horders with hfails | ⟨text, hsucceeds⟩
  · obtain ⟨failure, after, hending, -⟩ := hfails _ (List.Perm.refl _)
    rw [hself] at hending
    rw [hending] at hends
    cases hends.1
  · obtain ⟨_, after, hending, htext, -⟩ := hsucceeds _ (List.Perm.refl _)
    rw [hself] at hending
    rw [hending] at hends
    intro order hperm
    obtain ⟨outcome, after', hending', htext', hperrands⟩ := hsucceeds order hperm
    rw [herrands] at hperrands
    exact ⟨outcome, after', hending', htext'.trans (htext.symm.trans hends.2), hperrands⟩

end

end SyntaxRepair
