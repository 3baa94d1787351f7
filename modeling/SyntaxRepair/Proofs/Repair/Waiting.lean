import SyntaxRepair.Proofs.Edit.Landing
import SyntaxRepair.Proofs.Repair.Accounting

/-!
# Where the missions of a pass wait

A mission that waits after a pass waited before it, or a finding of the pass has posted it at the
start of its range.  Either way it has moved along with the writes of the pass
(`makePass_missions`).

Between a sweep and the move missions are only dropped (`mergeOverloads_missions`).
-/

namespace SyntaxRepair

/-! ## What is posted -/

/-- What a finding in a text posts. -/
def Finding.posting (text : Text) (finding : Finding) : Posting :=
  ⟨finding, finding.payload (text.slice finding.range.start finding.range.stop)⟩

/-- The missions of some postings, numbered from `number` on. -/
def Posting.missions (number : Nat) (postings : List Posting) : List Mission :=
  (postings.zipIdx number).map fun numbered => numbered.1.mission numbered.2

theorem Posting.missions_cons (number : Nat) (posting : Posting) (rest : List Posting) :
    missions number (posting :: rest) = posting.mission number :: missions (number + 1) rest := by
  rw [missions, List.zipIdx_cons, List.map_cons]
  rfl

section

variable {result : Parse} {before after : Sweep} {found : List Finding}

/-- What some diagnostics post is told by the text before the pass, and waits at the start of their
ranges. -/
theorem resolveDiagnostics_missions
    (hlocations : ∀ location ∈ result.locations, location.Within result.text.length)
    {diagnostics : List Diagnostic} (hsub : ∀ diagnostic ∈ diagnostics,
      diagnostic ∈ result.diagnostics) {count : Nat}
    (hfollows : before.buffer.Follows result.text found)
    (h : (resolveDiagnostics result.tree.index result diagnostics).start before =
      (.ok count, after)) :
    result.postingsFrom before.buffer before.seen diagnostics =
        (result.findingsFrom before.seen diagnostics).map (Finding.posting result.text) ∧
      (∀ finding ∈ result.findingsFrom before.seen diagnostics, finding.Marked result.text) ∧
      after.queue.missions.Perm (before.queue.missions ++ Posting.missions before.queue.next
        (result.postingsFrom before.buffer before.seen diagnostics)) := by
  induction diagnostics generalizing before found count with
  | nil =>
      obtain ⟨rfl, rfl⟩ := Step.start_pure_eq_ok.mp h
      refine ⟨rfl, List.forall_mem_nil _, ?_⟩
      rw [Parse.postingsFrom, Posting.missions, List.zipIdx_nil, List.map_nil, List.append_nil]
  | cons diagnostic rest ih =>
      obtain ⟨resolved, between, others, hfirst, hrest, -⟩ := resolveDiagnostics_cons_eq_ok.mp h
      have hdiagnostic := hsub diagnostic (List.mem_cons_self ..)
      have hbetween := (resolveDiagnostic_follows hlocations hdiagnostic hfollows hfirst).1
      have hothers := ih (fun other hmem => hsub other (List.mem_cons_of_mem _ hmem)) hbetween hrest
      rw [Parse.postingsFrom, Parse.findingsFrom]
      rcases resolveDiagnostic_eq_ok hfirst with
        ⟨hnone, -, rfl⟩ | ⟨finding, buffer, hsome, -, hmarked, hperform, rfl⟩
      · rw [hnone]
        exact hothers
      · obtain ⟨hpostings, hmarks, hmissions⟩ := hothers
        have hstop := Parse.finding_stop_le hlocations hdiagnostic hsome
        have hbuffer : before.buffer.afterWrite (finding.write result.text) = buffer := by
          rw [Buffer.afterWrite, hperform]
          rfl
        rw [hsome]
        dsimp only
        rw [hbuffer]
        refine ⟨?_, ?_, ?_⟩
        · -- it reads what stood in the text before the pass
          rw [hfollows.found_eq hstop hperform, Option.toList_some, List.singleton_append,
            List.map_cons]
          exact congrArg (_ :: ·) hpostings
        · rw [Option.toList_some, List.singleton_append, List.forall_mem_cons]
          exact ⟨hmarked, hmarks⟩
        · have hadded := Anchor.insert_perm Mission.toAnchor (before.queue.nextMission
            finding.range.start finding.purpose (finding.payload (finding.found result.text
              before.buffer))) before.queue.missions
          rw [Posting.missions_cons]
          refine hmissions.trans ((hadded.append_right _).trans ?_)
          exact List.perm_middle.symm

/-- **The missions of a sweep.**  Its findings post theirs at the start of their ranges, with what
stood there in the text. -/
theorem sweep_missions {first : Bool} {before after : Workspace} {resolved : Nat}
    {groups : Option Groups}
    (hlocations : ∀ location ∈ result.locations, location.Within result.text.length)
    (hfresh : before.buffer = { text := result.text })
    (h : (sweep first result).start before = (.ok (resolved, groups), after)) :
    result.postings result.text = result.findings.map (Finding.posting result.text) ∧
      (∀ finding ∈ result.findings, finding.Marked result.text) ∧
      after.queue.missions.Perm (before.queue.missions ++
        Posting.missions before.queue.next (result.postings result.text)) := by
  obtain ⟨swept, hresolve, -, rfl⟩ := start_sweep_eq_ok.mp h
  have hbegun : before.buffer.Follows result.text [] := by
    rw [hfresh]
    exact Buffer.follows_nil result.text
  have hswept := resolveDiagnostics_missions hlocations (fun _ hmem => hmem) hbegun hresolve
  dsimp only at hswept
  rw [hfresh] at hswept
  exact hswept

end

/-! ## What is dropped -/

section

open Workspace

variable {index : Index} {table : NameTable} {name : Text} {before after : Workspace}

theorem removeMissions_sublist {missions : List Mission} {done : Unit}
    (h : (removeMissions missions).start before = (.ok done, after)) :
    after.queue.missions.Sublist before.queue.missions := by
  induction missions generalizing before with
  | nil =>
      obtain ⟨-, rfl⟩ := Step.start_pure_eq_ok.mp h
      exact List.Sublist.refl _
  | cons mission rest ih =>
      obtain ⟨queue, hremove, hrest⟩ := removeMissions_cons_eq_ok.mp h
      refine (ih hrest).trans ?_
      unfold Queue.remove? at hremove
      split at hremove
      · cases hremove
        exact List.eraseP_sublist
      · cases hremove

theorem renameEach_sublist {ordinal : Nat} {overloads : List Overload} {done : Unit}
    (h : (renameEach index table name ordinal overloads).start before = (.ok done, after)) :
    after.queue.missions.Sublist before.queue.missions := by
  induction overloads generalizing ordinal before with
  | nil =>
      obtain ⟨-, rfl⟩ := Step.start_pure_eq_ok.mp h
      exact List.Sublist.refl _
  | cons overload rest ih =>
      rw [renameEach, Step.start_bind_eq_ok] at h
      obtain ⟨_, between, hfirst, hrest⟩ := h
      obtain ⟨-, -, -, -, buffer, -, -, -, -, -, hremove⟩ := start_renameOverload_eq_ok hfirst
      have hdropped := removeMissions_sublist hremove
      exact (ih hrest).trans hdropped

theorem mergeGroup_sublist {result : Parse} {group : OverloadGroup} {merged : Bool}
    (h : (mergeGroup index result table group).start before = (.ok merged, after)) :
    after.queue.missions.Sublist before.queue.missions := by
  rcases start_mergeGroup_eq_ok h with ⟨-, rfl⟩ | ⟨_, _, _, between, -, hrename, hadd⟩
  · exact List.Sublist.refl _
  · -- a dispatcher leaves the queue alone
    obtain ⟨-, -, -, buffer, -, -, -, -, rfl⟩ := start_addDispatcher_eq_ok hadd
    have hdropped := renameEach_sublist hrename
    exact hdropped

/-- Merging leaves some of the missions where they are and adds none. -/
theorem mergeOverloads_sublist {result : Parse} {groups : Groups} {merged : Nat}
    (h : (mergeOverloads index result table groups).start before = (.ok merged, after)) :
    after.queue.missions.Sublist before.queue.missions := by
  induction groups generalizing before merged with
  | nil =>
      obtain ⟨-, rfl⟩ := Step.start_pure_eq_ok.mp h
      exact List.Sublist.refl _
  | cons group rest ih =>
      obtain ⟨_, between, _, hfirst, hrest⟩ := mergeOverloads_cons_eq_ok h
      exact (ih hrest).trans (mergeGroup_sublist hfirst)

end

/-! ## Passes -/

section

variable {result : Parse} {options : Options} {number : Nat} {before after : Workspace}

/-- **The missions that a pass has to move.**  They have waited before, or were posted by its
findings at the start of their ranges; only the first pass drops some of them. -/
theorem editPass_missions {resolved : Nat}
    (hlocations : ∀ location ∈ result.locations, location.Within result.text.length)
    (hfresh : before.buffer = { text := result.text })
    (h : (editPass options number result).start before = (.ok resolved, after)) :
    result.postings result.text = result.findings.map (Finding.posting result.text) ∧
      (∀ finding ∈ result.findings, finding.Marked result.text) ∧
      (∀ mission ∈ after.queue.missions, mission ∈ before.queue.missions ++
        Posting.missions before.queue.next (result.postings result.text)) ∧
      (number ≠ 1 → after.queue.missions.Perm (before.queue.missions ++
        Posting.missions before.queue.next (result.postings result.text))) := by
  obtain ⟨groups, swept, hsweep, hmerge⟩ := editPass_cases h
  obtain ⟨hpostings, hmarked, hperm⟩ := sweep_missions hlocations hfresh hsweep
  refine ⟨hpostings, hmarked, ?_⟩
  rcases hmerge with ⟨-, rfl⟩ | ⟨collected, merged, rfl, hmerge⟩
  · exact ⟨fun mission => hperm.mem_iff.mp, fun _ => hperm⟩
  · refine ⟨fun mission hmem => ?_, fun hlater => ?_⟩
    · exact hperm.mem_iff.mp ((mergeOverloads_sublist hmerge).mem hmem)
    · obtain ⟨-, hgroups, -⟩ := sweep_eq_ok hlocations hfresh hsweep
      rw [decide_eq_false hlater] at hgroups
      cases hgroups

/-- **The missions of a pass.**  Each mission that waits after a pass has waited before it or was
posted by a finding at the start of its range, and has moved along with the writes of the pass. -/
theorem makePass_missions {done : Unit} (hlocated : result.Located)
    (hfresh : before.buffer = { text := result.text })
    (h : (makePass options number result).start before = (.ok done, after)) :
    result.postings result.text = result.findings.map (Finding.posting result.text) ∧
      (∀ finding ∈ result.findings, finding.Marked result.text) ∧
      ∀ mission ∈ after.queue.missions, ∃ origin : Mission,
        mission = { origin with offset := after.buffer.carry origin.offset } ∧
          (origin ∈ before.queue.missions ∨
            origin ∈ Posting.missions before.queue.next (result.postings result.text)) := by
  obtain ⟨resolved, edited, hedit, hbuffer, hqueue, -⟩ := exists_editPass h
  obtain ⟨hpostings, hmarked, horigins, -⟩ := editPass_missions hlocated.within hfresh hedit
  refine ⟨hpostings, hmarked, ?_⟩
  intro mission hmem
  rw [hqueue, Queue.relocate, (Anchor.sort_perm ..).mem_iff, List.mem_map] at hmem
  obtain ⟨origin, horigin, rfl⟩ := hmem
  rw [hbuffer]
  exact ⟨origin, rfl, List.mem_append.mp (horigins origin horigin)⟩

end

/-- A mission whose type is not merged with others is not dropped. -/
theorem Posting.mem_kept_of_alone {text : Text} {findings : List Finding} {finding : Finding}
    {first : Bool} {next sequence : Nat} (hmem : (finding, sequence) ∈ findings.zipIdx next)
    (halone : ∀ other ∈ findings, finding.overloads other = false) :
    ((finding.posting text).mission sequence).task ∈
      kept first next (findings.map (Finding.posting text)) := by
  have hmapped : (finding.posting text, sequence) ∈
      (findings.map (Finding.posting text)).zipIdx next := by
    rw [List.zipIdx_map]
    exact List.mem_map_of_mem hmem
  have hsingle : (finding.posting text).mergedAmong (findings.map (Finding.posting text)) =
      false := by
    rw [mergedAmong, List.any_eq_false]
    intro other hother
    obtain ⟨found, hfound, rfl⟩ := List.mem_map.mp hother
    exact Bool.eq_false_iff.mp (halone found hfound)
  refine List.mem_map_of_mem (f := fun numbered => (numbered.1.mission numbered.2).task)
    (List.mem_filter.mpr ⟨hmapped, ?_⟩)
  rw [hsingle, Bool.and_false]
  rfl

/-! ## Rounds -/

namespace Run

variable {σ : Type} {parser : Parser σ} {options : Options} {number : Nat} {result : Parse}
  {rewriting : Rewriting} {before opened after : Run σ}

/-- A round that has made a rewriting of its text and moved the missions along. -/
structure Round (options : Options) (number : Nat) (result : Parse) (rewriting : Rewriting)
    (before after : Run σ) : Prop where
  text_eq : before.buffer.text = result.text
  rewriting_eq : result.rewriting? options.names (number = 1) = some rewriting
  performed : Buffer.performAll { text := result.text } (rewriting.writes result.text) =
    .ok after.buffer
  shrinks : ∀ finding ∈ result.findings, (finding.write result.text).Shrinks
  marked : ∀ finding ∈ result.findings, finding.Marked result.text
  placed : ∀ merge ∈ rewriting.merges, merge.Placed result.text.length
  inside : ∀ write ∈ rewriting.writes result.text, write.Inside result.text.length
  origins : ∀ mission ∈ after.queue.missions, ∃ origin : Mission,
    mission = { origin with offset := after.buffer.carry origin.offset } ∧
      (origin ∈ before.queue.missions ∨ origin ∈ Posting.missions before.queue.next
        (result.findings.map (Finding.posting result.text)))
  accounts : before.toWorkspace.Accounts result.findings.length
    (Posting.kept (number = 1) before.queue.next
      (result.findings.map (Finding.posting result.text))) [result.findings.length]
    after.toWorkspace

theorem Round.write_mem (hround : Round options number result rewriting before after)
    {finding : Finding} (hmem : finding ∈ result.findings) :
    finding.write result.text ∈ rewriting.writes result.text := by
  rw [Rewriting.mem_writes, findings_of_rewriting? hround.rewriting_eq]
  exact Or.inl (List.mem_map_of_mem hmem)

/-- A write that removes something is alone at its start if no dispatcher goes there. -/
theorem Round.lone (hround : Round options number result rewriting before after) {write : Write}
    (hmem : write ∈ rewriting.writes result.text) (hpositive : 0 < write.length)
    (hfree : ∀ merge ∈ rewriting.merges, merge.dispatcher.offset ≠ write.offset) :
    write.Lone (rewriting.writes result.text) := by
  refine ⟨hmem, hpositive, ?_⟩
  intro other hother hsame hempty
  rw [Rewriting.mem_writes, findings_of_rewriting? hround.rewriting_eq] at hother
  rcases hother with hfinding | ⟨merge, hmerge, hname | rfl⟩
  · obtain ⟨found, hfound, rfl⟩ := List.mem_map.mp hfinding
    rcases hround.shrinks found hfound with hless | ⟨-, hnothing⟩
    · omega
    · exact hnothing
  · have hnamed := (hround.placed merge hmerge).renamings_positive other hname
    omega
  · exact absurd hsame (hfree merge hmerge)

theorem exists_round (htext : result.text = before.buffer.text) (hlocated : result.Located)
    (hparse : (openPass parser number).start before = (.ok result, opened))
    (hpass : (pass options number result).start opened = (.ok ⟨⟩, after)) :
    ∃ rewriting, Round options number result rewriting before after := by
  have hfresh : opened.buffer = { text := result.text } := by
    rw [htext]
    exact openPass_eq_ok hparse
  have hmade := pass_eq_ok hpass
  obtain ⟨rewriting, hrewriting, hperform, hfindings, hmerges, -⟩ :=
    makePass_eq_ok hlocated hfresh hmade
  obtain ⟨hpostings, hmarked, hmissions⟩ := makePass_missions hlocated hfresh hmade
  have hsame := findings_of_rewriting? hrewriting
  have haccounts := (openPass_accounts hparse).trans (makePass_accounts hfresh hmade)
  have hqueue : opened.queue = before.queue := by
    obtain ⟨state, -, rfl⟩ := openPass_eq_ok_iff.mp hparse
    rfl
  rw [hpostings, List.length_map, hqueue, Nat.zero_add] at haccounts
  rw [hpostings, hqueue] at hmissions
  rw [hsame] at hfindings
  refine ⟨rewriting, htext.symm, hrewriting, hperform, ?_, hmarked, hmerges, ?_, hmissions,
    haccounts⟩
  · intro finding hmem
    exact (hfindings _ (List.mem_map_of_mem hmem)).2
  · refine Rewriting.inside_of_mem_writes ?_ hmerges
    rw [hsame]
    exact fun write hmem => (hfindings write hmem).1

end Run

end SyntaxRepair
