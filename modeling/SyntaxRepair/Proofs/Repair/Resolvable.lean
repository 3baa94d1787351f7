import SyntaxRepair.Proofs.Repair.Refusals

/-!
# When diagnostics are resolved

What resolving a diagnostic depends on is of two kinds.  `Parse.Resolvable` is decided by the
report: offsets that are whole numbers, an argument that is a field, a definition with a name.  The
rest is whether the buffer accepts the write of what is found.

A type is looked for once, so what is found in a diagnostic also depends on the parameters before
it.  Where no two diagnostics are about one parameter (`Parse.Distinct`), each finds what it would
find alone, and a list of diagnostics is resolved exactly if each of them is resolvable and the
buffer accepts their writes one after another (`resolveDiagnostics_succeeds_iff`).
-/

namespace SyntaxRepair

open Json (Number)

/-- A step ends with a value exactly if it cannot fail. -/
theorem Step.exists_ok_iff {σ α : Type} {step : Step σ α} {before : σ} :
    (∃ value after, step.start before = (.ok value, after)) ↔
      step.Ensures before (fun _ _ => True) fun _ _ => False := by
  unfold Ensures
  rcases step.start before with ⟨failure | value, after⟩
  · exact iff_of_false (by simp) id
  · exact iff_of_true ⟨value, after, rfl⟩ trivial

/-! ## Parameters whose type is looked for -/

namespace Parse

/-- Where the parameter begins whose type a diagnostic is about. -/
def typeOffset? (result : Parse) (diagnostic : Diagnostic) : Option Int :=
  if diagnostic.extension? = some .typedParameter then
    (result.site? diagnostic.location).map fun site => site.parameter.whole
  else none

/-- Two diagnostics that are not about the type of one parameter. -/
def Unrelated (result : Parse) (first second : Diagnostic) : Prop :=
  ∀ offset ∈ result.typeOffset? first, offset ∉ result.typeOffset? second

instance (result : Parse) (first second : Diagnostic) : Decidable (result.Unrelated first second) :=
  inferInstanceAs (Decidable (∀ _ ∈ _, _))

/-- A report in which no two diagnostics are about the type of one parameter. -/
def Distinct (result : Parse) : Prop := result.diagnostics.Pairwise result.Unrelated

instance (result : Parse) : Decidable result.Distinct :=
  inferInstanceAs (Decidable (List.Pairwise _ _))

/-- Diagnostics that are about none of some parameters. -/
def Unseen (result : Parse) (seen : List Int) (diagnostics : List Diagnostic) : Prop :=
  ∀ diagnostic ∈ diagnostics, ∀ offset ∈ result.typeOffset? diagnostic, offset ∉ seen

variable {result : Parse} {seen : List Int} {diagnostic : Diagnostic}
  {diagnostics : List Diagnostic}

theorem Unrelated.symm {first second : Diagnostic} (h : result.Unrelated first second) :
    result.Unrelated second first :=
  fun offset hsecond hfirst => h offset hfirst hsecond

/-- A diagnostic adds the parameter that it is about to those that were looked for. -/
theorem mem_seeing_iff {offset : Int} :
    offset ∈ result.seeing seen diagnostic ↔
      offset ∈ seen ∨ offset ∈ result.typeOffset? diagnostic := by
  unfold seeing typeOffset?
  cases hextension : diagnostic.extension? with
  | none => simp
  | some extension =>
      cases extension with
      | fieldParameter => simp
      | typedParameter =>
          cases hsite : result.site? diagnostic.location with
          | none => simp
          | some site =>
              by_cases hseen : seen.contains site.parameter.whole = true
              · have hmem : site.parameter.whole ∈ seen := List.contains_iff_mem.mp hseen
                simp only [hseen, if_true, Option.map_some, Option.mem_some_iff]
                exact ⟨Or.inl, fun h => h.elim id fun hsame => hsame ▸ hmem⟩
              · simp only [hseen, if_false, Bool.false_eq_true, if_true, Option.map_some,
                  Option.mem_some_iff, List.mem_cons]
                exact ⟨fun h => h.symm.imp_right Eq.symm, fun h => h.symm.imp_left Eq.symm⟩

/-- Diagnostics behind one that they are unrelated to are about other parameters. -/
theorem Unseen.tail (hunseen : result.Unseen seen (diagnostic :: diagnostics))
    (hunrelated : ∀ other ∈ diagnostics, result.Unrelated diagnostic other) :
    result.Unseen (result.seeing seen diagnostic) diagnostics := by
  intro other hother offset hoffset hseen
  rcases mem_seeing_iff.mp hseen with hold | hown
  · exact hunseen other (List.mem_cons_of_mem _ hother) offset hoffset hold
  · exact hunrelated other hother offset hown hoffset

/-- What is found where a parameter is looked for the first time does not depend on the others. -/
theorem finding?_of_unseen (hunseen : ∀ offset ∈ result.typeOffset? diagnostic, offset ∉ seen) :
    result.finding? seen diagnostic = result.finding? [] diagnostic := by
  unfold finding?
  unfold typeOffset? at hunseen
  cases hextension : diagnostic.extension? with
  | none => rfl
  | some extension =>
      cases extension with
      | fieldParameter => rfl
      | typedParameter =>
          rw [hextension, if_pos rfl] at hunseen
          cases hsite : result.site? diagnostic.location with
          | none => rfl
          | some site =>
              rw [hsite] at hunseen
              have hnew : ¬ seen.contains site.parameter.whole = true := fun hseen =>
                hunseen _ rfl (List.contains_iff_mem.mp hseen)
              simp only [bind, Option.bind_some, if_neg hnew, List.contains_nil, Bool.false_eq_true,
                if_false]

/-- Diagnostics about different parameters find what each of them finds alone. -/
theorem findingsFrom_of_distinct (hdistinct : diagnostics.Pairwise result.Unrelated)
    (hunseen : result.Unseen seen diagnostics) :
    result.findingsFrom seen diagnostics = diagnostics.filterMap (result.finding? []) := by
  induction diagnostics generalizing seen with
  | nil => rfl
  | cons diagnostic rest ih =>
      rw [List.pairwise_cons] at hdistinct
      have hfirst := hunseen diagnostic (List.mem_cons_self ..)
      rw [findingsFrom, finding?_of_unseen hfirst, ih hdistinct.2 (hunseen.tail hdistinct.1),
        List.filterMap_cons]
      cases result.finding? [] diagnostic <;> rfl

/-! ## What the report decides -/

/-- A diagnostic that can be resolved as far as the report is concerned; `collecting` tells whether
types are collected, for which a definition needs a name. -/
def Resolvable (result : Parse) (collecting : Bool) (diagnostic : Diagnostic) : Prop :=
  match diagnostic.extension? with
  | some .fieldParameter =>
      diagnostic.location.Spanning ∧ (Finding.field diagnostic.location.values).Marked result.text
  | some .typedParameter =>
      diagnostic.location.Spanning ∧ ∀ site ∈ result.site? diagnostic.location,
        ∀ right ∈ site.follower? diagnostic.location.values.stop,
          site.parameter = .int site.parameter.whole ∧
            right.location.start = .int right.location.start.whole ∧
            (collecting = true → site.key.name ≠ [])
  | none => True

end Parse

section

open Step Sweep

variable {result : Parse} {before after : Sweep} {diagnostic : Diagnostic}

/-- A diagnostic that was resolved is resolvable. -/
theorem resolvable_of_eq_ok {resolved : Bool}
    (hunseen : ∀ offset ∈ result.typeOffset? diagnostic, offset ∉ before.seen)
    (h : (resolveDiagnostic result.tree.index result diagnostic).start before =
      (.ok resolved, after)) : result.Resolvable before.groups.isSome diagnostic := by
  unfold resolveDiagnostic at h
  unfold Parse.Resolvable
  unfold Parse.typeOffset? at hunseen
  cases hextension : diagnostic.extension? with
  | none => trivial
  | some extension =>
      rw [hextension] at h hunseen
      cases extension with
      | fieldParameter =>
          obtain ⟨-, hstart, hstop, hmarked, -⟩ := resolveField_eq_ok h
          exact ⟨⟨hstart, hstop⟩, hmarked⟩
      | typedParameter =>
          rw [if_pos rfl] at hunseen
          obtain ⟨hstart, hstop, hcases⟩ := resolveTyped_eq_ok h
          refine ⟨⟨hstart, hstop⟩, fun site hsite right hright => ?_⟩
          rw [hsite] at hunseen hcases
          rcases hcases with
            ⟨hnone, -⟩ | ⟨other, hother, hseen | ⟨-, hlacks | ⟨next, hnext, hcut⟩⟩⟩
          · cases hnone
          · cases hother
            exact absurd (List.contains_iff_mem.mp hseen.1) (hunseen _ rfl)
          · cases hother
            rw [hlacks.1] at hright
            cases hright
          · cases hother
            rw [hright] at hnext
            cases hnext
            obtain ⟨-, hparameter, hnumber, hnamed, -⟩ := cutType_eq_ok hcut
            exact ⟨hparameter, hnumber, hnamed⟩

theorem resolveField_succeeds {location : Location} {buffer : Buffer}
    (hspanning : location.Spanning)
    (hmarked : (Finding.field location.values).Marked result.text)
    (hperform : ((Finding.field location.values).write result.text).perform before.buffer =
      .ok buffer) :
    (resolveField result location).Ensures before (fun _ _ => True) fun _ _ => False := by
  obtain ⟨c, name, hslice⟩ := hmarked
  rw [Finding.write, hslice] at hperform
  rw [resolveField, ensures_bind, hspanning.range_eq, ensures_ofMisfit_ok, hslice]
  simp only [onWorkspace, ensures_bind, ensures_within]
  have haccepted : before.buffer.replace location.values.start location.values.length (c :: name) =
      .ok buffer := hperform
  refine Workspace.edit_ensures (fun _ _ => trivial) fun cause hcause => ?_
  rw [haccepted] at hcause
  cases hcause

theorem collect_succeeds {site : Site} {type : Text} {mission : Mission}
    (hnamed : before.groups.isSome = true → site.key.name ≠ []) :
    (collect site type mission).Ensures before (fun _ _ => True) fun _ _ => False := by
  rw [collect, ensures_bind, ensures_get]
  cases hgroups : before.groups with
  | none => trivial
  | some groups =>
      rw [hgroups] at hnamed
      dsimp only
      split
      · rename_i hname
        exact hnamed rfl hname
      · trivial

theorem cutType_succeeds {site : Site} {start stop : Int} {buffer : Buffer}
    (hparameter : site.parameter = .int start)
    (hnamed : before.groups.isSome = true → site.key.name ≠ [])
    (hperform : ((Finding.typed site ⟨start, stop⟩).write result.text).perform before.buffer =
      .ok buffer) :
    (cutType site (.int stop)).Ensures before (fun _ _ => True) fun _ _ => False := by
  simp only [cutType, hparameter, onWorkspace, ensures_bind, ensures_get, ensures_within,
    Buffer.sliceNumbers_int, Number.bound_int, ensures_ofMisfit_ok]
  have haccepted : before.buffer.delete start (Range.length ⟨start, stop⟩) = .ok buffer := hperform
  refine Workspace.edit_ensures (fun _ _ => ?_) fun cause hcause => ?_
  · exact collect_succeeds hnamed
  · rw [haccepted] at hcause
    cases hcause

theorem resolveTyped_succeeds {location : Location} (hspanning : location.Spanning)
    (hsites : ∀ site ∈ result.site? location, ∀ right ∈ site.follower? location.values.stop,
      site.parameter = .int site.parameter.whole ∧
        right.location.start = .int right.location.start.whole ∧
        (before.groups.isSome = true → site.key.name ≠ []) ∧
        ∃ buffer, ((Finding.typed site
          ⟨site.parameter.whole, right.location.start.whole⟩).write result.text).perform
            before.buffer = .ok buffer) :
    (resolveTyped result.tree.index result location).Ensures before (fun _ _ => True)
      fun _ _ => False := by
  rw [resolveTyped, ensures_bind, hspanning.range_eq, ensures_ofMisfit_ok]
  unfold Parse.site? at hsites
  split
  · trivial
  · rename_i hmarker
    rw [if_pos (not_not.mp hmarker)] at hsites
    split
    · trivial
    · rename_i site hsite
      rw [ensures_bind, ensures_get]
      split
      · trivial
      · rw [ensures_bind, ensures_modify]
        split
        · trivial
        · rename_i right hright
          obtain ⟨hparameter, hstop, hnamed, buffer, hperform⟩ := hsites site hsite right hright
          rw [hstop]
          exact cutType_succeeds hparameter hnamed hperform

/-- A diagnostic that is resolvable is resolved if the buffer accepts its write. -/
theorem resolveDiagnostic_succeeds
    (hresolvable : result.Resolvable before.groups.isSome diagnostic)
    (hperform : ∀ finding ∈ result.finding? [] diagnostic,
      ∃ buffer, (finding.write result.text).perform before.buffer = .ok buffer) :
    (resolveDiagnostic result.tree.index result diagnostic).Ensures before (fun _ _ => True)
      fun _ _ => False := by
  unfold resolveDiagnostic
  unfold Parse.Resolvable at hresolvable
  unfold Parse.finding? at hperform
  cases hextension : diagnostic.extension? with
  | none => trivial
  | some extension =>
      rw [hextension] at hresolvable hperform
      cases extension with
      | fieldParameter =>
          obtain ⟨buffer, hperform⟩ := hperform _ rfl
          exact resolveField_succeeds hresolvable.1 hresolvable.2 hperform
      | typedParameter =>
          refine resolveTyped_succeeds hresolvable.1 fun site hsite right hright => ?_
          obtain ⟨hparameter, hstop, hnamed⟩ := hresolvable.2 site hsite right hright
          refine ⟨hparameter, hstop, hnamed, ?_⟩
          rw [Option.mem_def] at hsite hright
          refine hperform _ ?_
          simp only [hsite, hright, bind, Option.bind_some, List.contains_nil, Bool.false_eq_true,
            if_false]
          rfl

/-! ## Several diagnostics -/

/-- What a diagnostic that is resolved leaves to those behind it. -/
theorem resolveDiagnostic_leaves {resolved : Bool}
    (hunseen : ∀ offset ∈ result.typeOffset? diagnostic, offset ∉ before.seen)
    (h : (resolveDiagnostic result.tree.index result diagnostic).start before =
      (.ok resolved, after)) :
    after.groups.isSome = before.groups.isSome ∧
      after.seen = result.seeing before.seen diagnostic ∧
      before.buffer.performAll ((result.finding? [] diagnostic).toList.map
        (Finding.write result.text)) = .ok after.buffer := by
  rw [← Parse.finding?_of_unseen hunseen]
  rcases resolveDiagnostic_eq_ok h with
    ⟨hnone, -, rfl⟩ | ⟨finding, buffer, hsome, -, -, hperform, rfl⟩
  · rw [hnone]
    exact ⟨rfl, rfl, rfl⟩
  · rw [hsome, Option.toList_some, List.map_singleton, Buffer.performAll_singleton]
    exact ⟨Option.isSome_map, rfl, hperform⟩

/-- **Which diagnostics are resolved.**  Diagnostics about different parameters are resolved one
after another exactly if each of them is resolvable and the buffer accepts the writes of what they
find. -/
theorem resolveDiagnostics_succeeds_iff {diagnostics : List Diagnostic}
    (hdistinct : diagnostics.Pairwise result.Unrelated)
    (hunseen : result.Unseen before.seen diagnostics) :
    (∃ count after, (resolveDiagnostics result.tree.index result diagnostics).start before =
        (.ok count, after)) ↔
      (∀ diagnostic ∈ diagnostics, result.Resolvable before.groups.isSome diagnostic) ∧
        ∃ buffer, before.buffer.performAll
          ((diagnostics.filterMap (result.finding? [])).map (Finding.write result.text)) =
            .ok buffer := by
  induction diagnostics generalizing before with
  | nil => exact iff_of_true ⟨0, before, rfl⟩ ⟨List.forall_mem_nil _, before.buffer, rfl⟩
  | cons diagnostic rest ih =>
      rw [List.pairwise_cons] at hdistinct
      have hown := hunseen diagnostic (List.mem_cons_self ..)
      have hwrites : ((diagnostic :: rest).filterMap (result.finding? [])).map
          (Finding.write result.text) =
            (result.finding? [] diagnostic).toList.map (Finding.write result.text) ++
              (rest.filterMap (result.finding? [])).map (Finding.write result.text) := by
        rw [List.filterMap_cons]
        cases result.finding? [] diagnostic <;> rfl
      rw [List.forall_mem_cons, hwrites]
      constructor
      · rintro ⟨count, after, h⟩
        obtain ⟨resolved, between, others, hfirst, hrest, -⟩ := resolveDiagnostics_cons_eq_ok.mp h
        obtain ⟨hcollecting, hseen, hperform⟩ := resolveDiagnostic_leaves hown hfirst
        obtain ⟨hresolvable, buffer, hperforms⟩ :=
          (ih hdistinct.2 (hseen ▸ hunseen.tail hdistinct.1)).mp ⟨others, after, hrest⟩
        rw [hcollecting] at hresolvable
        exact ⟨⟨resolvable_of_eq_ok hown hfirst, hresolvable⟩, buffer,
          Buffer.performAll_append.mpr ⟨between.buffer, hperform, hperforms⟩⟩
      · rintro ⟨⟨hresolvable, hothers⟩, buffer, hperforms⟩
        obtain ⟨middle, hperform, hperformRest⟩ := Buffer.performAll_append.mp hperforms
        have haccepted : ∀ finding ∈ result.finding? [] diagnostic,
            ∃ buffer, (finding.write result.text).perform before.buffer = .ok buffer := by
          intro finding hfinding
          rw [Option.mem_def.mp hfinding, Option.toList_some, List.map_singleton,
            Buffer.performAll_singleton] at hperform
          exact ⟨middle, hperform⟩
        obtain ⟨resolved, between, hfirst⟩ :=
          exists_ok_iff.mpr (resolveDiagnostic_succeeds hresolvable haccepted)
        obtain ⟨hcollecting, hseen, hperform'⟩ := resolveDiagnostic_leaves hown hfirst
        rw [hperform, Except.ok.injEq] at hperform'
        rw [hperform'] at hperformRest
        rw [← hcollecting] at hothers
        obtain ⟨count, after, hrest⟩ := (ih hdistinct.2 (hseen ▸ hunseen.tail hdistinct.1)).mpr
          ⟨hothers, buffer, hperformRest⟩
        exact ⟨_, after, resolveDiagnostics_cons_eq_ok.mpr
          ⟨resolved, between, count, hfirst, hrest, rfl⟩⟩

end

end SyntaxRepair
