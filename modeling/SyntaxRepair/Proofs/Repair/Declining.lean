import SyntaxRepair.Proofs.Edit.Reordering
import SyntaxRepair.Proofs.Repair.Agreement
import SyntaxRepair.Proofs.Repair.Rewriting

/-!
# Diagnostics that are left alone

A diagnostic that is left alone makes nothing: no edit, no mission and no entry of a group.  It can
still matter for those behind it.  The type of a parameter is looked for once in a pass, and it
counts as looked for even if nothing follows the marker, so a second marker for that parameter is
left alone as well (`Parse.Preempts`).

That is all.  The pass that goes on behind the declined diagnostic is compared with one in which it
and everything that it preempts were not reported (`resolveDiagnostics_ahead`).  The two sweeps have
made the same at every moment, and one is ahead of the other in the parameters it has looked for
(`Sweep.Ahead`).  Resolving diagnostics is indifferent to that relation except for those parameters,
and a diagnostic about one of them is not resolved on the one side and not there on the other.
-/

namespace SyntaxRepair

/-! ## What a declined diagnostic takes away -/

namespace Parse

/-- A diagnostic that is the first one about the type of the parameter at an offset. -/
def FirstAbout (result : Parse) (seen : List Int) (diagnostic : Diagnostic) (offset : Int) : Prop :=
  offset ∈ result.typeOffset? diagnostic ∧ offset ∉ seen

instance (result : Parse) (seen : List Int) (diagnostic : Diagnostic) (offset : Int) :
    Decidable (result.FirstAbout seen diagnostic offset) :=
  inferInstanceAs (Decidable (_ ∧ _))

/-- A later diagnostic, with offsets that are whole numbers, about a parameter which `diagnostic` is
the first one about. -/
def Preempts (result : Parse) (seen : List Int) (diagnostic later : Diagnostic) : Prop :=
  later.location.Spanning ∧
    ∃ offset ∈ result.typeOffset? later, result.FirstAbout seen diagnostic offset

instance (result : Parse) (seen : List Int) (diagnostic later : Diagnostic) :
    Decidable (result.Preempts seen diagnostic later) :=
  inferInstanceAs (Decidable (_ ∧ _))

variable {result : Parse} {seen : List Int} {diagnostic : Diagnostic} {offset : Int}

/-- A diagnostic adds the parameter that it is the first one about. -/
theorem mem_seeing_iff_firstAbout :
    offset ∈ result.seeing seen diagnostic ↔
      offset ∈ seen ∨ result.FirstAbout seen diagnostic offset := by
  rw [mem_seeing_iff, FirstAbout]
  tauto

/-- Nothing is found where a parameter was looked for before, and nothing more is looked for. -/
theorem finding?_of_seen (hoffset : offset ∈ result.typeOffset? diagnostic)
    (hseen : offset ∈ seen) :
    result.finding? seen diagnostic = none ∧ result.seeing seen diagnostic = seen := by
  rw [typeOffset?, Option.mem_def] at hoffset
  split at hoffset
  · rename_i hextension
    obtain ⟨site, hsite, rfl⟩ := Option.map_eq_some_iff.mp hoffset
    have hcontains : seen.contains site.parameter.whole = true := List.contains_iff_mem.mpr hseen
    rw [finding?, seeing, hextension]
    simp only [hsite, bind, Option.bind_some, hcontains, if_true]
    exact ⟨trivial, trivial⟩
  · cases hoffset

/-- A diagnostic that is the first one about a parameter is declined only if nothing follows its
marker. -/
theorem FirstAbout.follower?_eq_none (hfirst : result.FirstAbout seen diagnostic offset)
    (hnone : result.finding? seen diagnostic = none) :
    ∃ site ∈ result.site? diagnostic.location,
      site.follower? diagnostic.location.values.stop = none := by
  obtain ⟨hoffset, hnew⟩ := hfirst
  rw [typeOffset?, Option.mem_def] at hoffset
  split at hoffset
  · rename_i hextension
    obtain ⟨site, hsite, rfl⟩ := Option.map_eq_some_iff.mp hoffset
    refine ⟨site, hsite, ?_⟩
    have hcontains : ¬ seen.contains site.parameter.whole = true := fun hseen =>
      hnew (List.contains_iff_mem.mp hseen)
    cases hright : site.follower? diagnostic.location.values.stop with
    | none => rfl
    | some right =>
        simp only [finding?, hextension, hsite, bind, Option.bind_some, if_neg hcontains,
          hright] at hnone
        cases hnone
  · cases hoffset

end Parse

namespace Sweep

open Step

/-- What a sweep has made: the text, the missions and the journal, and the groups. -/
def made (sweep : Sweep) : Workspace × Option Groups := (sweep.toWorkspace, sweep.groups)

/-- Two sweeps that have made the same, where the first one has looked for the types of some more
parameters. -/
structure Ahead (more : Int → Prop) (sweep mate : Sweep) : Prop where
  made_eq : sweep.made = mate.made
  seen_iff : ∀ offset, offset ∈ sweep.seen ↔ offset ∈ mate.seen ∨ more offset

variable {more : Int → Prop} {sweep mate : Sweep}

theorem Ahead.workspace_eq (ahead : Ahead more sweep mate) :
    sweep.toWorkspace = mate.toWorkspace :=
  congrArg Prod.fst ahead.made_eq

theorem Ahead.groups_eq (ahead : Ahead more sweep mate) : sweep.groups = mate.groups :=
  congrArg Prod.snd ahead.made_eq

/-- Both sweeps look for one more type. -/
theorem Ahead.looked (ahead : Ahead more sweep mate) (offset : Int) :
    Ahead more { sweep with seen := offset :: sweep.seen }
      { mate with seen := offset :: mate.seen } where
  made_eq := ahead.made_eq
  seen_iff other := by
    rw [List.mem_cons, List.mem_cons, ahead.seen_iff, or_assoc]

/-- A step of the workspace does not see which types have been looked for. -/
theorem onWorkspace_agree {α : Type} (step : Step Workspace α) :
    Agree (fun _ => True) Eq (Ahead more) (onWorkspace step) (onWorkspace step) := by
  intro sweep mate ahead
  rw [onWorkspace, start_within, start_within, ahead.workspace_eq]
  rcases step.start mate.toWorkspace with ⟨failure | value, workspace⟩
  · exact .error trivial ⟨congrArg (Prod.mk workspace) ahead.groups_eq, ahead.seen_iff⟩
  · exact .ok rfl ⟨congrArg (Prod.mk workspace) ahead.groups_eq, ahead.seen_iff⟩

theorem collect_agree (site : Site) (type : Text) (mission : Mission) :
    Agree (fun _ => True) Eq (Ahead more) (collect site type mission)
      (collect site type mission) := by
  refine agree_bind agree_get fun sweep mate ahead => ?_
  rw [ahead.groups_eq]
  split
  · exact agree_pure rfl
  · split
    · exact agree_throw trivial
    · refine agree_modify fun _ _ hstate => ⟨?_, hstate.seen_iff⟩
      exact congrArg (Prod.mk · _) hstate.workspace_eq

/-- The parameters that only one of the sweeps has looked for are all that tells them apart. -/
theorem ahead_indifferent :
    Indifferent (fun _ => True) Eq (fun offset => ¬ more offset) (Ahead more) where
  misfit _ := trivial
  violation _ := trivial
  buffer_eq ahead := congrArg Workspace.buffer ahead.workspace_eq
  edited {sweep mate} buffer ahead := by
    refine ⟨?_, ahead.seen_iff⟩
    show (({ sweep.toWorkspace with buffer }, sweep.groups) : Workspace × Option Groups) = _
    rw [ahead.workspace_eq, ahead.groups_eq]
    rfl
  addMission _ _ _ := onWorkspace_agree _
  collect site type mission other hmission := hmission ▸ collect_agree site type mission
  seen_iff hlooked ahead := (ahead.seen_iff _).trans (or_iff_left hlooked)
  looked _ ahead := ahead.looked _

end Sweep

section

open Step Sweep

variable {result : Parse} {seen : List Int} {diagnostic later : Diagnostic} {before after : Sweep}
  {resolved : Bool} {offset : Int}

/-! ## One diagnostic behind it -/

/-- A diagnostic about a parameter whose type was looked for before is left alone. -/
theorem resolveDiagnostic_of_seen (hspanning : later.location.Spanning)
    (hoffset : offset ∈ result.typeOffset? later) (hseen : offset ∈ before.seen) :
    (resolveDiagnostic result.tree.index result later).start before = (.ok false, before) := by
  obtain ⟨hnone, hseeing⟩ := Parse.finding?_of_seen hoffset hseen
  refine resolveDiagnostic_eq_false_iff.mpr ⟨hnone, fun _ => hspanning.range_eq, ?_⟩
  rw [hseeing]

/-- A diagnostic that is not preempted does the same in both sweeps. -/
theorem resolveDiagnostic_ahead (hpasses : ¬ result.Preempts seen diagnostic later) :
    Agree (fun _ => True) Eq (Ahead (result.FirstAbout seen diagnostic))
      (resolveDiagnostic result.tree.index result later)
      (resolveDiagnostic result.tree.index result later) :=
  ahead_indifferent.resolveDiagnostic_agree fun hspanning offset hoffset hfirst =>
    hpasses ⟨hspanning, offset, hoffset, hfirst⟩

/-- A diagnostic that is preempted is left alone and changes nothing at all. -/
theorem resolveDiagnostic_preempted {sweep mate : Sweep}
    (hpreempts : result.Preempts seen diagnostic later)
    (ahead : Ahead (result.FirstAbout seen diagnostic) sweep mate) :
    (resolveDiagnostic result.tree.index result later).start sweep = (.ok false, sweep) := by
  obtain ⟨hspanning, offset, hoffset, hfirst⟩ := hpreempts
  have hseen : offset ∈ sweep.seen := (ahead.seen_iff offset).mpr (Or.inr hfirst)
  exact resolveDiagnostic_of_seen hspanning hoffset hseen

/-! ## The pass behind it -/

/-- The diagnostics behind a declined one, in a pass that has met it and in one that has met neither
it nor what it preempts. -/
theorem resolveDiagnostics_ahead (rest : List Diagnostic) :
    Agree (fun _ => True) Eq (Ahead (result.FirstAbout seen diagnostic))
      (resolveDiagnostics result.tree.index result rest)
      (resolveDiagnostics result.tree.index result
        (rest.filter fun other => ¬ result.Preempts seen diagnostic other)) := by
  induction rest with
  | nil => exact agree_pure rfl
  | cons other rest ih =>
      by_cases hpreempts : result.Preempts seen diagnostic other
      · rw [List.filter_cons_of_neg (by simpa using hpreempts)]
        intro sweep mate ahead
        rw [resolveDiagnostics, start_bind, resolveDiagnostic_preempted hpreempts ahead]
        dsimp only
        rw [start_bind]
        have hrest := ih sweep mate ahead
        generalize (resolveDiagnostics result.tree.index result rest).start sweep = outcome
          at hrest ⊢
        generalize (resolveDiagnostics result.tree.index result _).start mate = other at hrest ⊢
        cases hrest with
        | ok hvalue hafter => exact .ok hvalue hafter
        | error hfailure hafter => exact .error hfailure hafter
      · rw [List.filter_cons_of_pos (by simpa using hpreempts)]
        unfold resolveDiagnostics
        refine agree_bind (resolveDiagnostic_ahead hpreempts) ?_
        rintro resolved _ rfl
        refine agree_bind ih ?_
        rintro others _ rfl
        exact agree_pure rfl

/-- A diagnostic somewhere behind a declined one. -/
theorem resolveDiagnostic_behind (rest : List Diagnostic) (later : Diagnostic) :
    Agree (fun _ => True) Eq (Ahead (result.FirstAbout seen diagnostic))
      (do
        let _ ← resolveDiagnostics result.tree.index result rest
        resolveDiagnostic result.tree.index result later)
      (do
        let _ ← resolveDiagnostics result.tree.index result
          (rest.filter fun other => ¬ result.Preempts seen diagnostic other)
        if result.Preempts seen diagnostic later then return false
        else resolveDiagnostic result.tree.index result later) := by
  refine agree_bind (resolveDiagnostics_ahead rest) fun _ _ _ => ?_
  split
  · rename_i hpreempts
    intro sweep mate ahead
    rw [resolveDiagnostic_preempted hpreempts ahead]
    exact .ok rfl ahead
  · rename_i hpasses
    exact resolveDiagnostic_ahead hpasses

/-- **Declined diagnostics.**  A diagnostic that is left alone has made nothing, and all that comes
behind it ends and makes the same as if neither it nor the diagnostics that it preempts had been
there; it preempts others only if its parameter has nothing behind the marker.  A diagnostic that is
resolved has made one edit and added one mission. -/
theorem resolveDiagnostic_declines
    (h : (resolveDiagnostic result.tree.index result diagnostic).start before =
      (.ok resolved, after)) :
    (resolved = false →
      after.made = before.made ∧
        (∀ offset, result.FirstAbout before.seen diagnostic offset →
          ∃ site ∈ result.site? diagnostic.location,
            site.follower? diagnostic.location.values.stop = none) ∧
        ∀ rest later,
          let behind : Step Sweep Bool := do
            let _ ← resolveDiagnostics result.tree.index result rest
            resolveDiagnostic result.tree.index result later
          let without : Step Sweep Bool := do
            let _ ← resolveDiagnostics result.tree.index result
              (rest.filter fun other => ¬ result.Preempts before.seen diagnostic other)
            if result.Preempts before.seen diagnostic later then return false
            else resolveDiagnostic result.tree.index result later
          (behind.start after).1 = (without.start before).1 ∧
            (behind.start after).2.made = (without.start before).2.made) ∧
      (resolved = true →
        ∃ write edit mission, Write.perform before.buffer write = .ok after.buffer ∧
          after.buffer.history.edits.Perm (edit :: before.buffer.history.edits) ∧
          after.queue.missions.Perm (mission :: before.queue.missions)) := by
  rcases resolveDiagnostic_eq_ok h with
    ⟨hnone, rfl, rfl⟩ | ⟨finding, buffer, -, rfl, -, hperform, rfl⟩
  · refine ⟨fun _ => ⟨rfl, fun offset hfirst => hfirst.follower?_eq_none hnone, ?_⟩,
      fun hresolved => absurd hresolved Bool.false_ne_true⟩
    intro rest later
    have ahead : Ahead (result.FirstAbout before.seen diagnostic)
        { before with seen := result.seeing before.seen diagnostic } before :=
      ⟨rfl, fun _ => Parse.mem_seeing_iff_firstAbout⟩
    have hbehind := resolveDiagnostic_behind rest later _ _ ahead
    exact ⟨hbehind.fst_eq, hbehind.states.made_eq⟩
  · refine ⟨fun hdeclined => absurd hdeclined.symm Bool.false_ne_true, fun _ => ?_⟩
    let write := finding.write result.text
    let edit := before.buffer.history.nextEdit write.offset write.growth
    have hedits : buffer.history.edits.Perm (edit :: before.buffer.history.edits) := by
      rw [Buffer.history_of_perform hperform]
      exact Anchor.insert_perm ..
    exact ⟨write, edit, _, hperform, hedits, Anchor.insert_perm ..⟩

/-! ### A marker that is doubled -/

/-- The second marker of one type.  Nothing follows it. -/
def secondMarker : Diagnostic := ⟨"unexpected_token_ignore", Run.sampleLocation 0 1 9 2, []⟩

/-- The first marker of that type. -/
def firstMarker : Diagnostic := ⟨"unexpected_token_ignore", Run.sampleLocation 0 1 7 2, []⟩

/-- The marker of another type. -/
def otherMarker : Diagnostic := ⟨"unexpected_token_ignore", Run.sampleLocation 16 2 7 2, []⟩

/-- Two definitions of one name.  In the first one the marker is doubled, and the second marker is
reported before the first one. -/
def doubledParse : Parse where
  text := "def f(A=>=>)end\ndef f(B=>b)end"
  tree := .mk { kind := "program_node", location := Run.sampleLocation 0 1 0 30 }
    [some (Run.sampleDefinition 0 1), some (Run.sampleDefinition 16 2)]
  diagnostics := [secondMarker, firstMarker, otherMarker]

/-- The first pass over it before any diagnostic. -/
def doubledBegun : Sweep := { buffer := { text := doubledParse.text }, groups := some [] }

/-- Resolves one of its diagnostics. -/
def resolveDoubled : Diagnostic → Step Sweep Bool :=
  resolveDiagnostic doubledParse.tree.index doubledParse

/-- Behind the second marker, which is declined, the first one is preempted and the other one is
resolved; at the beginning the first one is resolved. -/
theorem resolveDiagnostic_declines_doubled :
    ∃ declined resolved : Sweep,
      (resolveDoubled secondMarker).start doubledBegun = (.ok false, declined) ∧
      declined.made = doubledBegun.made ∧
      doubledParse.Preempts doubledBegun.seen secondMarker firstMarker ∧
      ¬ doubledParse.Preempts doubledBegun.seen secondMarker otherMarker ∧
      ((do
          let _ ← resolveDiagnostics doubledParse.tree.index doubledParse [firstMarker]
          resolveDoubled otherMarker).start declined).2.made =
        ((resolveDoubled otherMarker).start doubledBegun).2.made ∧
      (resolveDoubled firstMarker).start doubledBegun = (.ok true, resolved) ∧
      ∃ mission, resolved.queue.missions.Perm [mission] := by
  let declined := ((resolveDoubled secondMarker).start doubledBegun).2
  let resolved := ((resolveDoubled firstMarker).start doubledBegun).2
  have hdeclined : (resolveDoubled secondMarker).start doubledBegun = (.ok false, declined) :=
    Step.eq_ok_of_fst (by decide +kernel)
  have hresolved : (resolveDoubled firstMarker).start doubledBegun = (.ok true, resolved) :=
    Step.eq_ok_of_fst (by decide +kernel)
  have hpreempted : doubledParse.Preempts doubledBegun.seen secondMarker firstMarker := by
    decide +kernel
  have hpasses : ¬ doubledParse.Preempts doubledBegun.seen secondMarker otherMarker := by
    decide +kernel
  obtain ⟨hmade, -, hbehind⟩ := (resolveDiagnostic_declines hdeclined).1 rfl
  obtain ⟨-, -, mission, -, -, hmission⟩ := (resolveDiagnostic_declines hresolved).2 rfl
  obtain ⟨-, hothers⟩ := hbehind [firstMarker] otherMarker
  rw [List.filter_cons_of_neg (by simpa using hpreempted), if_neg hpasses] at hothers
  exact ⟨declined, resolved, hdeclined, hmade, hpreempted, hpasses, hothers, hresolved, mission,
    hmission⟩

/-- A diagnostic that is declined can have an effect: the first marker is left alone behind the
second one, and it is resolved where the second one is not there. -/
theorem resolveDiagnostic_preempts_doubled :
    ∃ declined : Sweep,
      (resolveDoubled secondMarker).start doubledBegun = (.ok false, declined) ∧
      ((resolveDoubled firstMarker).start declined).1 = .ok false ∧
      ((resolveDoubled firstMarker).start doubledBegun).1 = .ok true :=
  ⟨_, Step.eq_ok_of_fst (by decide +kernel), by decide +kernel, by decide +kernel⟩

end

end SyntaxRepair
