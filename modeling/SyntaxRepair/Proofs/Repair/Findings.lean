import SyntaxRepair.Repair.Pass
import SyntaxRepair.Proofs.Edit.Shrinking
import SyntaxRepair.Proofs.Repair.Steps
import SyntaxRepair.Proofs.Tree.Nodes

/-!
# What a pass finds in its diagnostics

Which diagnostics are resolved, and where, is decided by the report alone: by the
diagnostic, the tree, and the parameters whose type has been looked for already.
`Parse.finding?` is this decision, without the buffer and the queue.

## Strategy

`resolveDiagnostic_eq_ok` says once everything that resolving a diagnostic can do: leave it
alone, or make the write of its finding, add one mission and collect its type.  A mission
of a cut type carries what stood in the range at that moment; `Buffer.Follows`, which holds
throughout a pass (`resolveDiagnostics_follows`), shows that this is what stood there in the
first place.
-/

namespace SyntaxRepair

open Json (Number)

/-! ## Findings -/

/-- The offsets of a location by their values. -/
def Location.values (location : Location) : Range :=
  ⟨location.start.whole, location.stop.whole⟩

/-- The range of a location that has one is that of its values. -/
theorem Location.values_of_range {location : Location} {range : Range}
    (hrange : location.range = .ok range) : location.values = range := by
  obtain ⟨hstart, hstop⟩ := Location.range_eq_ok_iff.mp hrange
  rw [Location.values, hstart, hstop]
  rfl

namespace Sweep.Site

/-- What tells the overload group of a site apart. -/
def key (site : Site) : OverloadKey := ⟨site.scope, site.definition.label.name.getD []⟩

/-- The first child of the body that begins at an offset or behind it. -/
def follower? (site : Site) (offset : Int) : Option Outline :=
  site.body.children.find? fun child => offset ≤ child.location.start.whole

end Sweep.Site

/-- A diagnostic that is resolved, with the range that is written. -/
inductive Finding
  /-- A field that stands as a parameter. -/
  | field (range : Range)
  /-- A type in front of a parameter. -/
  | typed (site : Sweep.Site) (range : Range)

namespace Finding

/-- The range that a finding is about. -/
def range : Finding → Range
  | field range => range
  | typed _ range => range

/-- The write that a finding asks for: a field loses its first character, a type and its
marker are removed. -/
def write (text : Text) : Finding → Write
  | field range =>
      .replace range.start range.length (text.slice range.start range.stop).tail
  | typed _ range => .delete range.start range.length

/-- What the mission of a finding adds. -/
def purpose : Finding → Purpose
  | field _ => .assignment
  | typed _ _ => .typeComment

/-- What the mission of a finding carries, by what stands in the range. -/
def payload (found : Text) : Finding → Text
  | field _ => "@" ++ found.tail ++ " = " ++ found.tail
  | typed _ _ => dropMarker found

/-- The overload groups with the type of a finding. -/
def collect (type : Text) (mission : Mission) (groups : Groups) : Finding → Groups
  | field _ => groups
  | typed site _ => groups.add site.key site.definition.id type mission

end Finding

namespace Parse

/-- The site of a typed parameter that a location marks. -/
def site? (result : Parse) (location : Location) : Option Sweep.Site :=
  if result.text.slice location.values.start location.values.stop = typeMarker then
    Sweep.site? result.tree.index location.values.start
  else none

/-- What is found in a diagnostic, if the types of some parameters have been looked for
before. -/
def finding? (result : Parse) (seen : List Int) (diagnostic : Diagnostic) : Option Finding :=
  match diagnostic.extension? with
  | some .fieldParameter => some (.field diagnostic.location.values)
  | some .typedParameter => do
      let site ← result.site? diagnostic.location
      if seen.contains site.parameter.whole then none
      else
        let right ← site.follower? diagnostic.location.values.stop
        return .typed site ⟨site.parameter.whole, right.location.start.whole⟩
  | none => none

/-- The parameters whose type has been looked for, after one more diagnostic. -/
def seeing (result : Parse) (seen : List Int) (diagnostic : Diagnostic) : List Int :=
  match diagnostic.extension? with
  | some .typedParameter =>
      match result.site? diagnostic.location with
      | some site =>
          if seen.contains site.parameter.whole then seen else site.parameter.whole :: seen
      | none => seen
  | _ => seen

/-- What is found in some diagnostics, in their order. -/
def findingsFrom (result : Parse) (seen : List Int) : List Diagnostic → List Finding
  | [] => []
  | diagnostic :: rest =>
      (result.finding? seen diagnostic).toList ++
        result.findingsFrom (result.seeing seen diagnostic) rest

/-- What a pass finds in the diagnostics of a parse. -/
def findings (result : Parse) : List Finding := result.findingsFrom [] result.diagnostics

end Parse

/-! ## Resolving one diagnostic -/

namespace Sweep

variable {before after : Sweep} {resolved : Bool}

/-- A sweep after a finding was resolved: `buffer` is the text behind its write, and
`found` is what stood in its range. -/
def resolving (before : Sweep) (finding : Finding) (found : Text) (buffer : Buffer)
    (seen : List Int) : Sweep :=
  { before with
    buffer
    seen
    queue := before.queue.add finding.range.start finding.purpose (finding.payload found)
    groups := before.groups.map fun groups =>
      finding.collect (finding.payload found)
        (before.queue.nextMission finding.range.start finding.purpose (finding.payload found))
        groups }

theorem resolveField_eq_ok {result : Parse} {location : Location}
    (h : (resolveField result location).start before = (.ok resolved, after)) :
    resolved = true ∧ location.start = .int location.values.start ∧
      location.stop = .int location.values.stop ∧
      (∃ (c : CodePoint) (name : Text),
        result.text.slice location.values.start location.values.stop = .char '@' :: c :: name) ∧
      ∃ buffer, ((Finding.field location.values).write result.text).perform before.buffer =
          .ok buffer ∧
        after = before.resolving (.field location.values)
          (result.text.slice location.values.start location.values.stop) buffer before.seen := by
  unfold resolveField at h
  rw [Step.start_bind_eq_ok] at h
  obtain ⟨range, between, hfirst, h⟩ := h
  obtain ⟨hrange, rfl⟩ := Step.start_ofMisfit_eq_ok.mp hfirst
  obtain ⟨hstart, hstop⟩ := Location.range_eq_ok_iff.mp hrange
  have hvalues : location.values = range := Location.values_of_range hrange
  rw [hvalues]
  split at h
  · rename_i c name hslice
    rw [Step.start_bind_eq_ok] at h
    obtain ⟨_, between, hedit, h⟩ := h
    rw [onWorkspace, Step.start_within_eq_ok] at hedit
    obtain ⟨workspace, hedit, rfl⟩ := hedit
    obtain ⟨buffer, hreplace, rfl⟩ := Workspace.start_edit_eq_ok.mp hedit
    rw [Step.start_bind_eq_ok] at h
    obtain ⟨mission, between, hmission, h⟩ := h
    rw [onWorkspace, Step.start_within_eq_ok] at hmission
    obtain ⟨workspace, hmission, rfl⟩ := hmission
    rw [Workspace.start_addMission] at hmission
    cases hmission
    obtain ⟨rfl, rfl⟩ := Step.start_pure_eq_ok.mp h
    refine ⟨rfl, hstart, hstop, ⟨c, name, hslice⟩, buffer, ?_, ?_⟩
    · rw [Finding.write, hslice]
      exact hreplace
    · rw [resolving, hslice]
      cases before.groups <;> rfl
  · exact absurd h Step.start_throw_ne_ok

theorem collect_eq_ok {site : Site} {type : Text} {mission : Mission} {done : Unit}
    (h : (collect site type mission).start before = (.ok done, after)) :
    (before.groups.isSome → site.key.name ≠ []) ∧
      after = { before with
        groups := before.groups.map fun groups =>
          groups.add site.key site.definition.id type mission } := by
  simp only [collect, Step.start_bind, Step.start_get] at h
  cases hgroups : before.groups with
  | none =>
      rw [hgroups] at h
      obtain ⟨-, rfl⟩ := Step.start_pure_eq_ok.mp h
      refine ⟨fun hsome => absurd hsome (by simp), ?_⟩
      rw [Option.map_none, ← hgroups]
  | some groups =>
      rw [hgroups] at h
      dsimp only at h
      split at h
      · exact absurd h Step.start_throw_ne_ok
      · rename_i hnamed
        rw [Step.start_modify_eq_ok] at h
        subst h
        exact ⟨fun _ => hnamed, rfl⟩

theorem cutType_eq_ok {site : Site} {stop : Number}
    (h : (cutType site stop).start before = (.ok resolved, after)) :
    resolved = true ∧ site.parameter = .int site.parameter.whole ∧ stop = .int stop.whole ∧
      (before.groups.isSome → site.key.name ≠ []) ∧
      ∃ buffer,
        before.buffer.delete site.parameter.whole (stop.whole - site.parameter.whole) =
            .ok buffer ∧
          after = before.resolving (.typed site ⟨site.parameter.whole, stop.whole⟩)
            (before.buffer.slice site.parameter.whole stop.whole) buffer before.seen := by
  simp only [cutType, Step.start_bind_eq_ok, Step.start_get_eq_ok, Step.start_ofMisfit_eq_ok,
    Number.bound_eq_ok_iff] at h
  obtain ⟨_, _, ⟨rfl, rfl⟩, found, _, ⟨hfound, rfl⟩, start, _, ⟨hstart, rfl⟩, last, _,
    ⟨hstop, rfl⟩, _, _, hedit, mission, _, hmission, _, _, hcollect, rfl, rfl⟩ := h
  rw [onWorkspace, Step.start_within_eq_ok] at hedit hmission
  obtain ⟨workspace, hedit, rfl⟩ := hedit
  obtain ⟨buffer, hdelete, rfl⟩ := Workspace.start_edit_eq_ok.mp hedit
  obtain ⟨workspace, hmission, rfl⟩ := hmission
  rw [Workspace.start_addMission] at hmission
  cases hmission
  obtain ⟨hnamed, rfl⟩ := collect_eq_ok hcollect
  rw [hstart, hstop, Buffer.sliceNumbers_int] at hfound
  cases hfound
  rw [hstart, hstop]
  exact ⟨rfl, rfl, rfl, hnamed, buffer, hdelete, rfl⟩

/-- **Resolving a typed parameter.**  It is left alone where nothing is found, and
otherwise its type is cut out. -/
theorem resolveTyped_eq_ok {result : Parse} {location : Location}
    (h : (resolveTyped result.tree.index result location).start before = (.ok resolved, after)) :
    location.start = .int location.values.start ∧ location.stop = .int location.values.stop ∧
      (result.site? location = none ∧ resolved = false ∧ after = before ∨
        ∃ site, result.site? location = some site ∧
          (before.seen.contains site.parameter.whole = true ∧ resolved = false ∧ after = before ∨
            before.seen.contains site.parameter.whole = false ∧
              (site.follower? location.values.stop = none ∧ resolved = false ∧
                  after = { before with seen := site.parameter.whole :: before.seen } ∨
                ∃ right, site.follower? location.values.stop = some right ∧
                  (cutType site right.location.start).start
                    { before with seen := site.parameter.whole :: before.seen } =
                      (.ok resolved, after)))) := by
  rw [resolveTyped, Step.start_bind_eq_ok] at h
  obtain ⟨range, _, hfirst, h⟩ := h
  obtain ⟨hrange, rfl⟩ := Step.start_ofMisfit_eq_ok.mp hfirst
  obtain ⟨hstart, hstop⟩ := Location.range_eq_ok_iff.mp hrange
  have hvalues : location.values = range := Location.values_of_range hrange
  rw [hvalues]
  refine ⟨hstart, hstop, ?_⟩
  rw [Parse.site?, hvalues]
  split at h
  · rename_i hmarker
    obtain ⟨rfl, rfl⟩ := Step.start_pure_eq_ok.mp h
    exact Or.inl ⟨if_neg hmarker, rfl, rfl⟩
  · rename_i hmarker
    rw [if_pos (not_not.mp hmarker)]
    split at h
    · rename_i hsite
      obtain ⟨rfl, rfl⟩ := Step.start_pure_eq_ok.mp h
      exact Or.inl ⟨hsite, rfl, rfl⟩
    · rename_i site hsite
      refine Or.inr ⟨site, hsite, ?_⟩
      simp only [Step.start_bind, Step.start_get] at h
      split at h
      · rename_i hseen
        obtain ⟨rfl, rfl⟩ := Step.start_pure_eq_ok.mp h
        exact Or.inl ⟨hseen, rfl, rfl⟩
      · rename_i hseen
        refine Or.inr ⟨Bool.eq_false_iff.mpr hseen, ?_⟩
        rw [Step.start_bind, Step.start_modify] at h
        dsimp only at h
        split at h
        · rename_i hright
          obtain ⟨rfl, rfl⟩ := Step.start_pure_eq_ok.mp h
          exact Or.inl ⟨hright, rfl, rfl⟩
        · rename_i right hright
          exact Or.inr ⟨right, hright, h⟩

end Sweep

/-! ## What resolving a diagnostic can do -/

namespace Finding

/-- What the mission of a finding is made from: the field as it was reported, and the type
as it stands in the buffer. -/
def found (text : Text) (buffer : Buffer) : Finding → Text
  | field range => text.slice range.start range.stop
  | typed _ range => buffer.slice range.start range.stop

/-- A field in fact begins with the mark of a field, with a name behind it. -/
def Marked (text : Text) : Finding → Prop
  | field range =>
      ∃ (c : CodePoint) (name : Text), text.slice range.start range.stop = .char '@' :: c :: name
  | typed _ _ => True

end Finding

/-- **Resolving a diagnostic.**  It is left alone where nothing is found in it, and
otherwise its write is made, its mission waits and its type is collected. -/
theorem resolveDiagnostic_eq_ok {result : Parse} {diagnostic : Diagnostic} {before after : Sweep}
    {resolved : Bool}
    (h : (resolveDiagnostic result.tree.index result diagnostic).start before =
      (.ok resolved, after)) :
    result.finding? before.seen diagnostic = none ∧ resolved = false ∧
        after = { before with seen := result.seeing before.seen diagnostic } ∨
      ∃ finding buffer, result.finding? before.seen diagnostic = some finding ∧
        resolved = true ∧ finding.Marked result.text ∧
        (finding.write result.text).perform before.buffer = .ok buffer ∧
        after = before.resolving finding (finding.found result.text before.buffer) buffer
          (result.seeing before.seen diagnostic) := by
  unfold resolveDiagnostic at h
  unfold Parse.finding? Parse.seeing
  split at h
  · rename_i hextension
    rw [hextension]
    obtain ⟨rfl, -, -, hmarked, buffer, hperform, rfl⟩ := Sweep.resolveField_eq_ok h
    exact Or.inr ⟨_, buffer, rfl, rfl, hmarked, hperform, rfl⟩
  · rename_i hextension
    rw [hextension]
    obtain ⟨-, -, ⟨hsite, rfl, rfl⟩ | ⟨site, hsite, hcases⟩⟩ := Sweep.resolveTyped_eq_ok h
    · refine Or.inl ⟨?_, rfl, ?_⟩
      · simp [hsite]
      · simp [hsite]
    · rcases hcases with ⟨hseen, rfl, rfl⟩ | ⟨hnew, ⟨hright, rfl, rfl⟩ | ⟨right, hright, hcut⟩⟩
      · refine Or.inl ⟨?_, rfl, ?_⟩
        · simp only [hsite, bind, Option.bind_some, hseen, if_true]
        · simp only [hsite, hseen, if_true]
      · refine Or.inl ⟨?_, rfl, ?_⟩
        · simp [hsite, hright]
        · simp only [hsite, hnew, Bool.false_eq_true, if_false]
      · obtain ⟨rfl, -, -, -, buffer, hdelete, rfl⟩ := Sweep.cutType_eq_ok hcut
        refine Or.inr ⟨.typed site ⟨site.parameter.whole, right.location.start.whole⟩, buffer,
          ?_, rfl, trivial, hdelete, ?_⟩
        · simp only [hsite, Option.bind_some, bind, hnew, Bool.false_eq_true, if_false, hright]
          rfl
        · simp only [hsite, hnew, Bool.false_eq_true, if_false]
          rfl
  · rename_i hextension
    rw [hextension]
    obtain ⟨rfl, rfl⟩ := Step.start_pure_eq_ok.mp h
    exact Or.inl ⟨rfl, rfl, rfl⟩

/-- A marker in which nothing is found is left alone. -/
theorem Sweep.resolveTyped_of_finding?_eq_none {result : Parse} {diagnostic : Diagnostic}
    {before : Sweep} (hextension : diagnostic.extension? = some .typedParameter)
    (hrange : diagnostic.location.range = .ok diagnostic.location.values)
    (hnone : result.finding? before.seen diagnostic = none) :
    (resolveTyped result.tree.index result diagnostic.location).start before =
      (.ok false, { before with seen := result.seeing before.seen diagnostic }) := by
  rw [Parse.finding?, hextension] at hnone
  rw [Parse.seeing, hextension]
  unfold Parse.site? at hnone ⊢
  refine Step.start_bind_eq_ok.mpr
    ⟨_, before, Step.start_ofMisfit_eq_ok.mpr ⟨hrange, rfl⟩, ?_⟩
  dsimp only at hnone ⊢
  split
  · rfl
  · rename_i hmarker
    rw [if_pos (not_not.mp hmarker)] at hnone ⊢
    split
    · rename_i hsite
      rw [hsite]
      rfl
    · rename_i site hsite
      rw [hsite] at hnone ⊢
      refine Step.start_bind_eq_ok.mpr ⟨before, before, Step.start_get before, ?_⟩
      dsimp only at hnone ⊢
      split
      · rfl
      · rename_i hnew
        refine Step.start_bind_eq_ok.mpr ⟨_, _, Step.start_modify .., ?_⟩
        split
        · rfl
        · -- a parameter follows, so something would be found
          rename_i right hright
          have hfollower : site.follower? diagnostic.location.values.stop = some right := hright
          rw [Option.bind_eq_bind, Option.bind_some, if_neg hnew, hfollower] at hnone
          cases hnone

/-- **Diagnostics that are left alone.**  Nothing is found in such a diagnostic, and only the
parameters that were looked for can change. -/
theorem resolveDiagnostic_eq_false_iff {result : Parse} {diagnostic : Diagnostic}
    {before after : Sweep} :
    (resolveDiagnostic result.tree.index result diagnostic).start before = (.ok false, after) ↔
      result.finding? before.seen diagnostic = none ∧
        (diagnostic.extension? = some .typedParameter →
          diagnostic.location.range = .ok diagnostic.location.values) ∧
        after = { before with seen := result.seeing before.seen diagnostic } := by
  constructor
  · intro h
    rcases resolveDiagnostic_eq_ok h with ⟨hnone, -, hafter⟩ | ⟨_, _, -, hresolved, -⟩
    · refine ⟨hnone, fun hextension => ?_, hafter⟩
      rw [resolveDiagnostic, hextension] at h
      obtain ⟨hstart, hstop, -⟩ := Sweep.resolveTyped_eq_ok h
      exact Location.range_eq_ok_iff.mpr ⟨hstart, hstop⟩
    · cases hresolved
  · rintro ⟨hnone, hrange, rfl⟩
    cases hextension : diagnostic.extension? with
    | none =>
        rw [resolveDiagnostic, Parse.seeing, hextension]
        rfl
    | some extension =>
        cases extension with
        | fieldParameter =>
            rw [Parse.finding?, hextension] at hnone
            cases hnone
        | typedParameter =>
            have hdeclined :=
              Sweep.resolveTyped_of_finding?_eq_none hextension (hrange hextension) hnone
            rw [resolveDiagnostic, hextension]
            exact hdeclined

/-! ## Diagnostics one after another -/

section

variable {result : Parse} {diagnostic : Diagnostic} {rest : List Diagnostic} {count : Nat}

/-- The diagnostics behind the first one are resolved in the state that it leaves. -/
theorem resolveDiagnostics_cons_eq_ok {before after : Sweep} :
    (resolveDiagnostics result.tree.index result (diagnostic :: rest)).start before =
        (.ok count, after) ↔
      ∃ resolved between others,
        (resolveDiagnostic result.tree.index result diagnostic).start before =
          (.ok resolved, between) ∧
        (resolveDiagnostics result.tree.index result rest).start between = (.ok others, after) ∧
        (if resolved then others + 1 else others) = count := by
  simp only [resolveDiagnostics, Step.start_bind_eq_ok, Step.start_pure_eq_ok]
  constructor
  · rintro ⟨resolved, between, hfirst, others, _, hrest, hcount, rfl⟩
    exact ⟨resolved, between, others, hfirst, hrest, hcount⟩
  · rintro ⟨resolved, between, others, hfirst, hrest, hcount⟩
    exact ⟨resolved, between, hfirst, others, after, hrest, hcount, rfl⟩

/-- A sweep resolves all diagnostics and hands on the groups that it has collected. -/
theorem start_sweep_eq_ok {first : Bool} {before after : Workspace} {groups : Option Groups} :
    (sweep first result).start before = (.ok (count, groups), after) ↔
      ∃ swept, (resolveDiagnostics result.tree.index result result.diagnostics).start
          { before with groups := if first then some [] else none } = (.ok count, swept) ∧
        swept.groups = groups ∧ swept.toWorkspace = after := by
  rw [sweep, Step.start_of]
  dsimp only
  rcases (resolveDiagnostics result.tree.index result result.diagnostics).start
      { before with groups := if first then some [] else none } with ⟨failure | resolved, swept⟩
  · simp [Except.map]
  · simp only [Except.map, Prod.mk.injEq, Except.ok.injEq, and_assoc]
    constructor
    · rintro ⟨rfl, hgroups, hafter⟩
      exact ⟨swept, rfl, rfl, hgroups, hafter⟩
    · rintro ⟨_, rfl, rfl, hgroups, hafter⟩
      exact ⟨rfl, hgroups, hafter⟩

end

end SyntaxRepair
