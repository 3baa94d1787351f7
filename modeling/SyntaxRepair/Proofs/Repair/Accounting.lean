import SyntaxRepair.Proofs.Mission.Execution
import SyntaxRepair.Proofs.Repair.Postings
import SyntaxRepair.Proofs.Repair.Rewriting
import Mathlib.Algebra.GroupWithZero.Nat

/-!
# No mission is lost

The missions that wait in the end of a repair are accounted for by its passes.  A pass posts its
postings, and the first one takes those back whose types have gone into a dispatcher
(`makePass_accounts`).  What is left stays, whatever later passes do and wherever they move the
anchors (`untilClean_accounts`).

`Workspace.Drops` relates two states of a workspace by the missions that were dropped between
them; it goes through the recursion of `mergeOverloads` as `Sweep.Posts` goes through that of
`resolveDiagnostics`.
-/

namespace SyntaxRepair

/-! ## What merging drops -/

/-- How many diagnostics an entry of the journal counts as resolved. -/
def Event.resolved? : Event → Option Nat
  | .passEnds _ resolved _ => some resolved
  | _ => none

/-- A workspace that has lost some missions and no others, and whose journal counts as many
resolved diagnostics as before. -/
structure Workspace.Drops (before : Workspace) (dropped : List Mission) (after : Workspace) :
    Prop where
  queue : before.queue.Drops dropped after.queue
  counts_eq : after.journal.filterMap Event.resolved? = before.journal.filterMap Event.resolved?

section

open Workspace

variable {index : Index} {table : NameTable} {name : Text} {before between after : Workspace}

theorem Workspace.Drops.trans {first second : List Mission} (hfirst : before.Drops first between)
    (hsecond : between.Drops second after) : before.Drops (first ++ second) after :=
  ⟨hfirst.queue.trans hsecond.queue, hsecond.counts_eq.trans hfirst.counts_eq⟩

theorem Workspace.drops_of_queue_eq (hqueue : after.queue = before.queue)
    (hjournal : after.journal.filterMap Event.resolved? =
      before.journal.filterMap Event.resolved?) : before.Drops [] after := by
  refine ⟨?_, hjournal⟩
  rw [hqueue]
  exact before.queue.drops_nil

theorem removeMissions_drops {missions : List Mission} {done : Unit}
    (h : (removeMissions missions).start before = (.ok done, after)) :
    before.Drops missions after := by
  induction missions generalizing before with
  | nil =>
      obtain ⟨-, rfl⟩ := Step.start_pure_eq_ok.mp h
      exact drops_of_queue_eq rfl rfl
  | cons mission rest ih =>
      obtain ⟨queue, hremove, hrest⟩ := removeMissions_cons_eq_ok.mp h
      have hone : before.Drops [mission] { before with queue } :=
        ⟨Queue.drops_of_remove? hremove, rfl⟩
      exact hone.trans (ih hrest)

theorem renameOverload_drops {ordinal : Nat} {overload : Overload} {done : Unit}
    (h : (renameOverload index table name ordinal overload).start before = (.ok done, after)) :
    before.Drops overload.missions after := by
  obtain ⟨-, -, -, -, buffer, -, -, -, -, -, hremove⟩ := start_renameOverload_eq_ok h
  have hedit : before.Drops [] { before with buffer } := drops_of_queue_eq rfl rfl
  exact hedit.trans (removeMissions_drops hremove)

theorem renameEach_drops {ordinal : Nat} {overloads : List Overload} {done : Unit}
    (h : (renameEach index table name ordinal overloads).start before = (.ok done, after)) :
    before.Drops (overloads.flatMap Overload.missions) after := by
  induction overloads generalizing ordinal before with
  | nil =>
      obtain ⟨-, rfl⟩ := Step.start_pure_eq_ok.mp h
      exact drops_of_queue_eq rfl rfl
  | cons overload rest ih =>
      rw [renameEach, Step.start_bind_eq_ok] at h
      obtain ⟨_, between, hfirst, hrest⟩ := h
      exact (renameOverload_drops hfirst).trans (ih hrest)

theorem addDispatcher_drops {result : Parse} {first : Nat} {overloads : List Overload}
    {done : Unit}
    (h : (addDispatcher index result table name first overloads).start before =
      (.ok done, after)) : before.Drops [] after := by
  obtain ⟨-, -, -, buffer, -, -, -, -, rfl⟩ := start_addDispatcher_eq_ok h
  refine drops_of_queue_eq rfl ?_
  rw [List.filterMap_append]
  exact List.append_nil _

theorem mergeGroup_drops {result : Parse} {group : OverloadGroup} {merged : Bool}
    (h : (mergeGroup index result table group).start before = (.ok merged, after)) :
    before.Drops (Groups.mergedMissions [group]) after := by
  rcases start_mergeGroup_eq_ok h with ⟨hfew, rfl⟩ |
    ⟨first, second, rest, between, hoverloads, hrename, hadd⟩
  · have hmerges : ¬ group.merges = true := by
      rw [OverloadGroup.merges, decide_eq_true_iff]
      omega
    rw [Groups.mergedMissions, List.filter_cons_of_neg hmerges]
    exact drops_of_queue_eq rfl rfl
  · have hmerges : group.merges = true := by
      rw [OverloadGroup.merges, hoverloads, List.length_cons, List.length_cons, decide_eq_true_iff]
      omega
    have hdrops := (renameEach_drops hrename).trans (addDispatcher_drops hadd)
    rw [List.append_nil] at hdrops
    rw [Groups.mergedMissions, List.filter_cons_of_pos hmerges, List.filter_nil,
      List.flatMap_singleton]
    exact hdrops

/-- **Merging.**  The missions of the merged definitions are dropped, and no others. -/
theorem mergeOverloads_drops {result : Parse} {groups : Groups} {merged : Nat}
    (h : (mergeOverloads index result table groups).start before = (.ok merged, after)) :
    before.Drops groups.mergedMissions after := by
  induction groups generalizing before merged with
  | nil =>
      obtain ⟨-, rfl⟩ := Step.start_pure_eq_ok.mp h
      exact drops_of_queue_eq rfl rfl
  | cons group rest ih =>
      obtain ⟨_, between, _, hfirst, hrest⟩ := mergeOverloads_cons_eq_ok h
      have hdrops := (mergeGroup_drops hfirst).trans (ih hrest)
      rw [Groups.mergedMissions, Groups.mergedMissions, ← List.flatMap_append,
        ← List.filter_append] at hdrops
      exact hdrops

end

/-! ## What a pass leaves -/

/-- Whether two findings are types of different definitions in one overload group. -/
def Finding.overloads : Finding → Finding → Bool
  | typed site _, typed other _ =>
      site.key = other.key && site.definition.id ≠ other.definition.id
  | _, _ => false

/-- Whether a posting is one of a definition that is merged with others. -/
def Posting.mergedAmong (postings : List Posting) (posting : Posting) : Bool :=
  postings.any fun other => posting.finding.overloads other.finding

/-- The tasks that a pass leaves of its postings, which are numbered from `number` on.  The
first pass takes back those of merged definitions. -/
def Posting.kept (first : Bool) (number : Nat) (postings : List Posting) : List Task :=
  ((postings.zipIdx number).filter fun numbered =>
    !(first && numbered.1.mergedAmong postings)).map fun numbered =>
      (numbered.1.mission numbered.2).task

namespace Posting

variable {number : Nat} {postings : List Posting} {posting : Posting}

theorem mem_entries {entry : GroupEntry} :
    entry ∈ entries number postings ↔ ∃ posting place, (posting, place) ∈ postings.zipIdx number ∧
      posting.grouped? place = some entry := by
  simp only [entries, List.mem_filterMap, Prod.exists]

theorem overloads_eq_true_iff {other : Posting} {place place' : Nat} :
    posting.finding.overloads other.finding = true ↔
      ∃ entry entry', posting.grouped? place = some entry ∧ other.grouped? place' = some entry' ∧
        entry'.key = entry.key ∧ entry'.definition ≠ entry.definition := by
  obtain ⟨finding, payload⟩ := posting
  obtain ⟨other, payload'⟩ := other
  cases finding with
  | field range => simp [grouped?, Finding.overloads]
  | typed site range =>
      cases other with
      | field range' => simp [grouped?, Finding.overloads]
      | typed site' range' =>
          simp only [Finding.overloads, grouped?, Bool.and_eq_true, decide_eq_true_eq,
            Option.some.injEq, exists_and_left, exists_eq_left']
          exact and_congr eq_comm ne_comm

theorem number_of_grouped? {place : Nat} {entry : GroupEntry}
    (h : posting.grouped? place = some entry) : entry.mission.sequence = place := by
  unfold grouped? at h
  split at h
  · cases h
  · cases h
    rfl

/-- Postings with one number are the same. -/
theorem eq_of_mem_zipIdx {other : Posting} {place : Nat}
    (hposting : (posting, place) ∈ postings.zipIdx number)
    (hother : (other, place) ∈ postings.zipIdx number) : other = posting := by
  rw [List.mem_zipIdx_iff_le_and_getElem?_sub] at hposting hother
  exact Option.some.inj (hother.2.symm.trans hposting.2)

theorem exists_mem_zipIdx (number : Nat) (hmem : posting ∈ postings) :
    ∃ place, (posting, place) ∈ postings.zipIdx number := by
  obtain ⟨index, hindex⟩ := List.getElem?_of_mem hmem
  refine ⟨number + index, List.mem_zipIdx_iff_le_and_getElem?_sub.mpr ⟨Nat.le_add_right .., ?_⟩⟩
  rw [Nat.add_sub_cancel_left]
  exact hindex

/-- The missions that merging drops are those of the postings of merged definitions. -/
theorem mergedAmong_iff {groups : Groups} (hsound : groups.Sound)
    (hentries : groups.entries.Perm (entries number postings)) {place : Nat}
    (hposting : (posting, place) ∈ postings.zipIdx number) :
    posting.mergedAmong postings = true ↔
      place ∈ groups.mergedMissions.map fun mission => mission.sequence := by
  simp only [mergedAmong, List.any_eq_true, List.mem_map, hsound.mem_mergedMissions,
    hentries.mem_iff, mem_entries]
  constructor
  · rintro ⟨other, hother, hoverloads⟩
    obtain ⟨place', hplace'⟩ := exists_mem_zipIdx number hother
    obtain ⟨entry, rival, hentry, hrival, hkey, hne⟩ := overloads_eq_true_iff.mp hoverloads
    exact ⟨entry.mission, ⟨entry, ⟨posting, place, hposting, hentry⟩, rfl, rival,
      ⟨other, place', hplace', hrival⟩, hkey, hne⟩, number_of_grouped? hentry⟩
  · rintro ⟨mission, ⟨entry, ⟨same, place', hsame, hentry⟩, rfl, rival,
      ⟨other, rivalPlace, hother, hrival⟩, hkey, hne⟩, hplace⟩
    rw [number_of_grouped? hentry] at hplace
    subst hplace
    rw [eq_of_mem_zipIdx hposting hsame] at hentry
    exact ⟨other, List.fst_mem_of_mem_zipIdx hother,
      overloads_eq_true_iff.mpr ⟨entry, rival, hentry, hrival, hkey, hne⟩⟩

/-- What is left of the tasks of a first pass when the missions of its groups are dropped. -/
theorem filter_tasks_eq_kept {groups : Groups} (hsound : groups.Sound)
    (hentries : groups.entries.Perm (entries number postings)) :
    ((tasks number postings).filter fun task =>
        task.sequence ∉ groups.mergedMissions.map fun mission => mission.sequence) =
      kept true number postings := by
  rw [tasks, kept, List.filter_map]
  refine congrArg _ (List.filter_congr fun numbered hmem => ?_)
  have hmerged := mergedAmong_iff hsound hentries hmem
  rw [Bool.true_and, Bool.eq_iff_iff, Bool.not_eq_true', Bool.eq_false_iff, Ne, hmerged]
  exact decide_eq_true_iff

theorem kept_false (number : Nat) (postings : List Posting) :
    kept false number postings = tasks number postings := by
  simp only [kept, tasks, Bool.false_and, Bool.not_false, List.filter_true]

/-- The missions that merging drops have been posted in this pass. -/
theorem le_of_mem_mergedMissions {groups : Groups} (hsound : groups.Sound)
    (hentries : groups.entries.Perm (entries number postings)) {mission : Mission}
    (hmem : mission ∈ groups.mergedMissions) : number ≤ mission.sequence := by
  obtain ⟨entry, hentry, rfl, -⟩ := hsound.mem_mergedMissions.mp hmem
  rw [hentries.mem_iff, mem_entries] at hentry
  obtain ⟨posting, place, hposting, hentry⟩ := hentry
  rw [number_of_grouped? hentry]
  exact List.le_snd_of_mem_zipIdx hposting

end Posting

/-! ## Accounts -/

/-- A workspace whose queue has given out some numbers and kept some tasks, and whose journal
has counted resolved diagnostics. -/
structure Workspace.Accounts (before : Workspace) (posted : Nat) (kept : List Task)
    (counts : List Nat) (after : Workspace) : Prop where
  ordered : before.queue.Ordered → after.queue.Ordered
  next_eq : after.queue.next = before.queue.next + posted
  tasks_perm : before.queue.Ordered → after.queue.tasks.Perm (before.queue.tasks ++ kept)
  counts_eq : after.journal.filterMap Event.resolved? =
    before.journal.filterMap Event.resolved? ++ counts

section

open Workspace

variable {before between after : Workspace} {posted : Nat} {kept : List Task} {counts : List Nat}

theorem Workspace.accounts_of_queue_eq (hqueue : after.queue = before.queue)
    (hcounts : after.journal.filterMap Event.resolved? =
      before.journal.filterMap Event.resolved?) : before.Accounts 0 [] [] after := by
  refine ⟨?_, ?_, fun _ => ?_, ?_⟩
  · rw [hqueue]
    exact id
  · rw [hqueue, Nat.add_zero]
  · rw [hqueue, List.append_nil]
  · rw [hcounts, List.append_nil]

theorem Workspace.Accounts.trans {more : Nat} {others : List Task} {further : List Nat}
    (hfirst : before.Accounts posted kept counts between)
    (hsecond : between.Accounts more others further after) :
    before.Accounts (posted + more) (kept ++ others) (counts ++ further) after := by
  refine ⟨fun hqueue => hsecond.ordered (hfirst.ordered hqueue), ?_, fun hqueue => ?_, ?_⟩
  · rw [hsecond.next_eq, hfirst.next_eq, Nat.add_assoc]
  · rw [← List.append_assoc]
    exact (hsecond.tasks_perm (hfirst.ordered hqueue)).trans
      ((hfirst.tasks_perm hqueue).append_right _)
  · rw [hsecond.counts_eq, hfirst.counts_eq, List.append_assoc]

/-- The end of a pass moves the missions and counts the diagnostics that it has resolved. -/
theorem Workspace.Accounts.closing {number resolved diagnostics : Nat} {done : Unit}
    (haccounts : before.Accounts posted kept [] between)
    (h : (do relocate; note (.passEnds number resolved diagnostics) : Step Workspace Unit).start
      between = (.ok done, after)) : before.Accounts posted kept [resolved] after := by
  simp only [Step.start_bind, start_relocate, start_note, Prod.mk.injEq, true_and] at h
  subst h
  refine ⟨fun hqueue => (haccounts.ordered hqueue).relocate _, haccounts.next_eq,
    fun hqueue => (Queue.tasks_relocate ..).trans (haccounts.tasks_perm hqueue), ?_⟩
  rw [List.filterMap_append, haccounts.counts_eq, List.append_nil]
  rfl

variable {result : Parse} {text : Text}

/-- Merging takes back the postings of merged definitions and leaves all older tasks. -/
theorem merge_accounts {index : Index} {table : NameTable} {groups : Groups} {merged : Nat}
    {postings : List Posting} (hsound : groups.Sound)
    (hentries : groups.entries.Perm (Posting.entries before.queue.next postings))
    (hswept : before.Accounts postings.length (Posting.tasks before.queue.next postings) []
      between)
    (h : (mergeOverloads index result table groups).start between = (.ok merged, after)) :
    before.Accounts postings.length (Posting.kept true before.queue.next postings) [] after := by
  obtain ⟨hdrops, hcounts⟩ := mergeOverloads_drops h
  refine ⟨fun hqueue => hdrops.ordered (hswept.ordered hqueue),
    hdrops.next_eq.trans hswept.next_eq, fun hqueue => ?_, hcounts.trans hswept.counts_eq⟩
  -- older tasks have smaller numbers than all postings, so none of them is dropped
  have hold : ∀ task ∈ before.queue.tasks,
      task.sequence ∉ groups.mergedMissions.map fun mission => mission.sequence := by
    intro task htask hdropped
    obtain ⟨mission, hmission, hsequence⟩ := List.mem_map.mp hdropped
    have hlt := hqueue.issued task htask
    have hle := Posting.le_of_mem_mergedMissions hsound hentries hmission
    omega
  have hperm := (hswept.tasks_perm hqueue).filter fun task =>
    task.sequence ∉ groups.mergedMissions.map fun mission => mission.sequence
  rw [List.filter_append,
    List.filter_eq_self.mpr fun task htask => decide_eq_true (hold task htask),
    Posting.filter_tasks_eq_kept hsound hentries] at hperm
  rw [hdrops.tasks_eq (hswept.ordered hqueue)]
  exact hperm

/-- **One pass.**  It leaves the tasks that were there and those of its own postings that it
keeps, and counts its postings. -/
theorem makePass_accounts {options : Options} {number : Nat} {done : Unit}
    (hfresh : before.buffer = { text })
    (h : (makePass options number result).start before = (.ok done, after)) :
    before.Accounts (result.postings text).length
      (Posting.kept (number = 1) before.queue.next (result.postings text))
      [(result.postings text).length] after := by
  rw [makePass, Step.start_bind_eq_ok] at h
  obtain ⟨⟨resolved, groups⟩, swept, hsweep, h⟩ := h
  obtain ⟨rfl, hnext, htasks, hordered, hjournal, hsome, hgroups⟩ := sweep_posts hfresh hsweep
  have hswept : before.Accounts (result.postings text).length
      (Posting.tasks before.queue.next (result.postings text)) [] swept :=
    ⟨hordered, hnext, fun _ => htasks, by rw [hjournal, List.append_nil]⟩
  cases groups with
  | none =>
      rw [← hsome, Option.isSome_none, Posting.kept_false]
      exact hswept.closing h
  | some groups =>
      rw [Step.start_bind_eq_ok] at h
      obtain ⟨_, merged, hmerge, h⟩ := h
      obtain ⟨hsound, hentries⟩ := hgroups groups rfl
      rw [← hsome, Option.isSome_some]
      exact (merge_accounts hsound hentries hswept hmerge).closing h

end

/-! ## A whole repair -/

/-- The tasks that passes over reports of some texts leave, numbered from `number` on. -/
def tasksOfPasses (first : Bool) (number : Nat) : List (Parse × Text) → List Task
  | [] => []
  | (result, text) :: rest =>
      Posting.kept first number (result.postings text) ++
        tasksOfPasses false (number + (result.postings text).length) rest

/-- How many diagnostics passes over reports of some texts resolve. -/
def countsOfPasses (passes : List (Parse × Text)) : List Nat :=
  passes.map fun pass => (pass.1.postings pass.2).length

theorem tasksOfPasses_concat (first : Bool) (number : Nat) (passes : List (Parse × Text))
    (result : Parse) (text : Text) :
    tasksOfPasses first number (passes ++ [(result, text)]) =
      tasksOfPasses first number passes ++
        Posting.kept (first && passes.isEmpty) (number + (countsOfPasses passes).sum)
          (result.postings text) := by
  induction passes generalizing first number with
  | nil =>
      rw [List.nil_append, tasksOfPasses, tasksOfPasses, tasksOfPasses, List.append_nil,
        List.isEmpty_nil, Bool.and_true]
      rfl
  | cons pass rest ih =>
      have hsum : (countsOfPasses (pass :: rest)).sum =
          (pass.1.postings pass.2).length + (countsOfPasses rest).sum := List.sum_cons
      rw [List.cons_append, tasksOfPasses, tasksOfPasses, ih, hsum, List.append_assoc,
        Nat.add_assoc, List.isEmpty_cons, Bool.and_false, Bool.false_and]

namespace Run

variable {σ : Type} {parser : Parser σ} {options : Options} {begun before : Run σ}

theorem openPass_accounts {number : Nat} {result : Parse} {opened : Run σ}
    (h : (openPass parser number).start before = (.ok result, opened)) :
    before.toWorkspace.Accounts 0 [] [] opened.toWorkspace := by
  obtain ⟨state, -, rfl⟩ := openPass_eq_ok_iff.mp h
  refine Workspace.accounts_of_queue_eq rfl ?_
  rw [List.filterMap_append]
  exact List.append_nil _

/-- **The passes of a repair.**  Between two rounds the queue holds the tasks that the passes so
far have left. -/
theorem Passed.accounts {results : List Parse}
    (hpassed : Passed parser options begun results before) (hbegun : begun.parsed = []) :
    before.parsed.length = results.length ∧
      begun.toWorkspace.Accounts (countsOfPasses (results.zip before.parsed)).sum
        (tasksOfPasses true begun.queue.next (results.zip before.parsed))
        (countsOfPasses (results.zip before.parsed)) before.toWorkspace := by
  induction hpassed with
  | start =>
      rw [hbegun]
      exact ⟨rfl, Workspace.accounts_of_queue_eq rfl rfl⟩
  | @next results result before opened after earlier hparse hbroken hprogress hpass ih =>
      obtain ⟨hlength, haccounts⟩ := ih
      have hopen := openPass_accounts hparse
      have hmade := makePass_accounts (openPass_eq_ok hparse) (pass_eq_ok hpass)
      have hparsed := parsed_round hparse hpass
      -- the new postings are numbered from behind those of the passes before
      have hnext := (haccounts.trans hopen).next_eq
      -- and it is the first pass if there was none before
      have hfirst : (decide (results.length + 1 = 1)) =
          (true && (results.zip before.parsed).isEmpty) := by
        rw [Bool.true_and, Bool.eq_iff_iff, decide_eq_true_iff, List.isEmpty_iff_length_eq_zero,
          List.length_zip, hlength, Nat.min_self, Nat.add_eq_right]
      have hzip : (results ++ [result]).zip after.parsed =
          results.zip before.parsed ++ [(result, before.buffer.text)] := by
        rw [hparsed, List.zip_append hlength.symm]
        rfl
      refine ⟨?_, ?_⟩
      · rw [hparsed, List.length_append, List.length_append, hlength]
        rfl
      · have hall := (haccounts.trans hopen).trans hmade
        simp only [List.append_nil, Nat.add_zero] at hall hnext
        rw [hzip, tasksOfPasses_concat, ← hfirst, ← hnext, countsOfPasses, List.map_append,
          ← countsOfPasses, List.sum_append]
        exact hall

end Run

/-- **No mission is lost.**  If a repair that begins with no mission waiting ends with a clean
text, then what waits in its queue are the tasks that its passes have left: one for each
diagnostic that a pass has resolved, with what it was posted with, except for the types of
merged definitions.  They stand in the order of their anchors.  If they can all be carried out,
each is carried out once, in this order, and none is left. -/
theorem untilClean_accounts {σ : Type} {parser : Parser σ} {options : Options} {text : Text}
    {next : Nat} {state : σ} {clean : Parse} {run : Run σ}
    (h : (untilClean parser options).start (Run.onQueue text { next } state) = (.ok clean, run)) :
    ∃ reports : List Parse,
      parser.answers state run.parsed = reports.map Except.ok ++ [.ok clean] ∧
      run.queue.tasks.Perm (tasksOfPasses true next (reports.zip run.parsed)) ∧
      run.journal.filterMap Event.resolved? = countsOfPasses (reports.zip run.parsed) ∧
      (run.queue.missions.Pairwise fun first second =>
        first.toAnchor.Before second.toAnchor) ∧
      ∀ ended, (executeAll clean).start run.toWorkspace = (.ok ⟨⟩, ended) →
        ended.queue.missions = [] ∧
        ended.journal = run.journal ++ run.queue.missions.map Event.executes ∧
        ∃ insertions, List.Forall₂ (Mission.Inserts clean) run.queue.missions insertions ∧
          Buffer.performAll { text := run.buffer.text } (insertions.map Insertion.write) =
            .ok ended.buffer := by
  obtain ⟨reports, before, hpassed, hends⟩ :=
    Run.untilClean_ends parser options (Run.onQueue text { next } state)
  rw [h] at hends
  obtain ⟨-, hparsed, -, hanswers⟩ := hends.answers_eq rfl hpassed
  obtain ⟨hlength, hpasses⟩ := hpassed.accounts rfl
  cases hends with
  | clean hparse hclean =>
      have hbegun : (Run.onQueue text { next } state).queue.Ordered :=
        Queue.ordered_of_missions_eq_nil rfl
      have hall := hpasses.trans (Run.openPass_accounts hparse)
      simp only [List.append_nil] at hall
      -- no pass is made over the clean report, so its text counts for nothing
      have hzip : reports.zip run.parsed = reports.zip before.parsed := by
        rw [hparsed, ← List.append_nil reports, List.zip_append hlength.symm, List.append_nil]
        exact List.append_nil _
      rw [hparse] at hanswers
      refine ⟨reports, hanswers, ?_, ?_, (hall.ordered hbegun).ordered, ?_⟩
      · rw [hzip]
        exact hall.tasks_perm hbegun
      · rw [hzip]
        exact hall.counts_eq
      · intro ended hexecute
        obtain ⟨hqueue, hjournal, hinsertions⟩ := executeAll_eq_ok hexecute
        refine ⟨?_, hjournal, hinsertions⟩
        rw [hqueue]
        rfl

/-- The clean report of the sample once it is rewritten: its last definition, which the field
belonged to. -/
def sampleClean : Parse where
  text := Run.sampleRewritten
  tree := .mk { kind := "program_node", location := ⟨0, 203, 1, 0⟩ }
    [some (.mk { kind := definitionKind, location := ⟨192, 203, 14, 0⟩, name := some "g",
                 endLocation := some ⟨200, 203, 14, 8⟩ } [])]

/-- A parser that knows the sample and nothing else. -/
def sampleParser : Parser Unit := fun text =>
  pure (if text = Run.sampleParse.text then Run.sampleParse else sampleClean)

/-- Of three missions with the numbers 5, 6 and 7 those of the merged types are dropped, and the
statement of the field is left and carried out. -/
theorem untilClean_accounts_sample :
    ∃ (run : Run Unit) (ended : Workspace),
      (untilClean sampleParser {}).start (Run.onQueue Run.sampleParse.text { next := 5 } ()) =
        (.ok sampleClean, run) ∧
      run.queue.tasks = [⟨5, .assignment, "@c = c"⟩] ∧
      (executeAll sampleClean).start run.toWorkspace = (.ok (), ended) ∧
      ended.queue.missions = [] := by
  generalize hrun : (untilClean sampleParser {}).start
    (Run.onQueue Run.sampleParse.text { next := 5 } ()) = ending
  -- the run is evaluated for the two texts that it asks about and for its going through
  have hends : (ending.1.map (fun _ => ()), ending.2.parsed,
      ((executeAll sampleClean).start ending.2.toWorkspace).1) =
        (.ok (), [Run.sampleParse.text, Run.sampleRewritten], .ok ()) := by
    rw [← hrun]
    decide +kernel
  obtain ⟨hdone, hpair⟩ := Prod.mk.inj hends
  obtain ⟨hasked, hexecuted⟩ := Prod.mk.inj hpair
  obtain ⟨failure | clean, run⟩ := ending
  · cases hdone
  · obtain ⟨reports, hanswers, htasks, -, -, hexecute⟩ := untilClean_accounts hrun
    dsimp only at hasked hexecuted
    have hknown : sampleParser.answers () [Run.sampleParse.text, Run.sampleRewritten] =
        [Run.sampleParse].map Except.ok ++ [.ok sampleClean] := by rfl
    rw [hasked, hknown] at hanswers
    obtain ⟨hreports, hclean⟩ := List.append_inj' hanswers.symm rfl
    have hsample : clean = sampleClean := Except.ok.inj (List.cons.inj hclean).1
    rw [← List.map_injective_iff.mpr (fun _ _ => Except.ok.inj) hreports.symm, hasked] at htasks
    have hkept : tasksOfPasses true 5 ([Run.sampleParse].zip
        [Run.sampleParse.text, Run.sampleRewritten]) = [⟨5, .assignment, "@c = c"⟩] := by
      decide +kernel
    rw [hkept, List.perm_singleton] at htasks
    have hended := Step.eq_ok_of_fst hexecuted
    rw [hsample] at hrun hexecute ⊢
    exact ⟨run, _, rfl, htasks, hended, (hexecute _ hended).1⟩

end SyntaxRepair
