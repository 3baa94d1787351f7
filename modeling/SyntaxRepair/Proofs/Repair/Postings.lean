import SyntaxRepair.Proofs.Mission.Queue
import SyntaxRepair.Proofs.Overload.Entries
import SyntaxRepair.Proofs.Repair.Findings

/-!
# What a sweep posts

Each diagnostic that is resolved posts one mission.  `Parse.postings` tells the postings of a
pass from the report and the text that was parsed, in the order of the diagnostics; their
numbers follow the next number of the queue.

`Sweep.Posts` relates two states of a sweep by the postings between them: the queue has grown by
their tasks, and the overload groups, where they are collected, by their entries.  One diagnostic
posts what is found in it, and the rest of a sweep posts the rest (`resolveDiagnostics_posts`).
-/

namespace SyntaxRepair

/-! ## Postings -/

/-- A diagnostic that is resolved: what is found in it, and what its mission carries. -/
structure Posting where
  finding : Finding
  payload : Text

namespace Posting

/-- The mission of a posting. -/
def mission (number : Nat) (posting : Posting) : Mission :=
  ⟨⟨posting.finding.range.start, number⟩, posting.finding.purpose, posting.payload⟩

/-- The entry of a type in its overload group. -/
def grouped? (number : Nat) (posting : Posting) : Option GroupEntry :=
  match posting.finding with
  | .field _ => none
  | .typed site _ => some ⟨site.key, site.definition.id, posting.mission number⟩

/-- The tasks of some postings, numbered from `number` on. -/
def tasks (number : Nat) (postings : List Posting) : List Task :=
  (postings.zipIdx number).map fun numbered => (numbered.1.mission numbered.2).task

/-- The entries of some postings, numbered from `number` on. -/
def entries (number : Nat) (postings : List Posting) : List GroupEntry :=
  (postings.zipIdx number).filterMap fun numbered => numbered.1.grouped? numbered.2

theorem tasks_append (number : Nat) (first second : List Posting) :
    tasks number (first ++ second) =
      tasks number first ++ tasks (number + first.length) second := by
  rw [tasks, List.zipIdx_append, List.map_append]
  rfl

theorem entries_append (number : Nat) (first second : List Posting) :
    entries number (first ++ second) =
      entries number first ++ entries (number + first.length) second := by
  rw [entries, List.zipIdx_append, List.filterMap_append]
  rfl

end Posting

/-- The text with one more write; a write that is refused changes nothing. -/
def Buffer.afterWrite (buffer : Buffer) (write : Write) : Buffer :=
  (write.perform buffer).toOption.getD buffer

namespace Parse

/-- What some diagnostics post, in their order, if the types of some parameters have been looked
for before.  The missions of types carry what stands in the buffer at their moment. -/
def postingsFrom (result : Parse) (buffer : Buffer) (seen : List Int) :
    List Diagnostic → List Posting
  | [] => []
  | diagnostic :: rest =>
      let seen' := result.seeing seen diagnostic
      match result.finding? seen diagnostic with
      | none => result.postingsFrom buffer seen' rest
      | some finding =>
          ⟨finding, finding.payload (finding.found result.text buffer)⟩ ::
            result.postingsFrom (buffer.afterWrite (finding.write result.text)) seen' rest

/-- What a pass over a report of `text` posts. -/
def postings (result : Parse) (text : Text) : List Posting :=
  result.postingsFrom { text } [] result.diagnostics

end Parse

/-! ## Sweeps -/

namespace Sweep

/-- A sweep that has posted something between two of its states. -/
structure Posts (before after : Sweep) (posted : List Posting) : Prop where
  next_eq : after.queue.next = before.queue.next + posted.length
  tasks_perm : after.queue.tasks.Perm
    (before.queue.tasks ++ Posting.tasks before.queue.next posted)
  ordered : before.queue.Ordered → after.queue.Ordered
  journal_eq : after.journal = before.journal
  isSome_eq : after.groups.isSome = before.groups.isSome
  entries_perm : ∀ groups ∈ after.groups, ∃ earlier ∈ before.groups,
    (earlier.Sound → groups.Sound) ∧
      groups.entries.Perm (earlier.entries ++ Posting.entries before.queue.next posted)

variable {before between after : Sweep} {first second : List Posting}

theorem Posts.of_same (hqueue : after.queue = before.queue)
    (hjournal : after.journal = before.journal) (hgroups : after.groups = before.groups) :
    Posts before after [] := by
  refine ⟨?_, ?_, ?_, hjournal, ?_, ?_⟩
  · rw [hqueue]
    rfl
  · rw [hqueue, Posting.tasks, List.zipIdx_nil, List.map_nil, List.append_nil]
  · rw [hqueue]
    exact id
  · rw [hgroups]
  · intro groups hmem
    rw [hgroups] at hmem
    refine ⟨groups, hmem, id, ?_⟩
    rw [Posting.entries, List.zipIdx_nil, List.filterMap_nil, List.append_nil]

theorem Posts.trans (hfirst : Posts before between first) (hsecond : Posts between after second) :
    Posts before after (first ++ second) := by
  refine ⟨?_, ?_, ?_, ?_, ?_, ?_⟩
  · rw [hsecond.next_eq, hfirst.next_eq, List.length_append, Nat.add_assoc]
  · rw [Posting.tasks_append, ← List.append_assoc, ← hfirst.next_eq]
    exact hsecond.tasks_perm.trans (hfirst.tasks_perm.append_right _)
  · exact fun hordered => hsecond.ordered (hfirst.ordered hordered)
  · rw [hsecond.journal_eq, hfirst.journal_eq]
  · rw [hsecond.isSome_eq, hfirst.isSome_eq]
  · intro groups hmem
    obtain ⟨middle, hmiddle, hsound, hperm⟩ := hsecond.entries_perm groups hmem
    obtain ⟨earlier, hearlier, hsound', hperm'⟩ := hfirst.entries_perm middle hmiddle
    refine ⟨earlier, hearlier, fun h => hsound (hsound' h), ?_⟩
    rw [Posting.entries_append, ← List.append_assoc, ← hfirst.next_eq]
    exact hperm.trans (hperm'.append_right _)

/-- Resolving a finding posts it. -/
theorem posts_resolving (before : Sweep) (finding : Finding) (found : Text) (buffer : Buffer)
    (seen : List Int) :
    Posts before (before.resolving finding found buffer seen)
      [⟨finding, finding.payload found⟩] := by
  refine ⟨rfl, before.queue.tasks_add .., fun hordered => hordered.add .., rfl, ?_, ?_⟩
  · exact Option.isSome_map
  · intro groups hmem
    obtain ⟨earlier, hearlier, rfl⟩ := Option.map_eq_some_iff.mp hmem
    refine ⟨earlier, hearlier, ?_⟩
    cases finding with
    | field range =>
        refine ⟨id, ?_⟩
        rw [Finding.collect]
        exact .of_eq (List.append_nil _).symm
    | typed site range =>
        exact ⟨fun hsound => hsound.add .., Groups.entries_add ..⟩

end Sweep

section

variable {result : Parse} {before after : Sweep}

/-- **What a sweep posts.**  Some diagnostics that are resolved one after another post what is
found in them, and their number is counted. -/
theorem resolveDiagnostics_posts {diagnostics : List Diagnostic} {count : Nat}
    (h : (resolveDiagnostics result.tree.index result diagnostics).start before =
      (.ok count, after)) :
    before.Posts after (result.postingsFrom before.buffer before.seen diagnostics) ∧
      count = (result.postingsFrom before.buffer before.seen diagnostics).length := by
  induction diagnostics generalizing before count with
  | nil =>
      obtain ⟨rfl, rfl⟩ := Step.start_pure_eq_ok.mp h
      exact ⟨.of_same rfl rfl rfl, rfl⟩
  | cons diagnostic rest ih =>
      obtain ⟨resolved, between, others, hfirst, hrest, rfl⟩ := resolveDiagnostics_cons_eq_ok.mp h
      obtain ⟨hposts, rfl⟩ := ih hrest
      rw [Parse.postingsFrom]
      rcases resolveDiagnostic_eq_ok hfirst with
        ⟨hnone, rfl, rfl⟩ | ⟨finding, buffer, hsome, rfl, -, hperform, rfl⟩
      · -- it posts nothing, but the parameter that it looked for counts as seen
        rw [hnone]
        have hsame : before.Posts
            { before with seen := result.seeing before.seen diagnostic } [] := .of_same rfl rfl rfl
        exact ⟨hsame.trans hposts, rfl⟩
      · -- the diagnostics behind it see the buffer with its edit
        have hbuffer : before.buffer.afterWrite (finding.write result.text) = buffer := by
          rw [Buffer.afterWrite, hperform]
          rfl
        rw [hsome]
        dsimp only
        rw [hbuffer]
        exact ⟨(Sweep.posts_resolving before finding _ buffer _).trans hposts, rfl⟩

/-- **The sweep of a pass.**  It posts the postings of its report and counts them, and only the
first one collects groups, which hold the entries of the postings. -/
theorem sweep_posts {first : Bool} {text : Text} {before after : Workspace} {resolved : Nat}
    {groups : Option Groups} (hfresh : before.buffer = { text })
    (h : (sweep first result).start before = (.ok (resolved, groups), after)) :
    resolved = (result.postings text).length ∧
      after.queue.next = before.queue.next + resolved ∧
      after.queue.tasks.Perm
        (before.queue.tasks ++ Posting.tasks before.queue.next (result.postings text)) ∧
      (before.queue.Ordered → after.queue.Ordered) ∧ after.journal = before.journal ∧
      groups.isSome = first ∧ ∀ collected ∈ groups, collected.Sound ∧
        collected.entries.Perm (Posting.entries before.queue.next (result.postings text)) := by
  obtain ⟨swept, hresolve, rfl, rfl⟩ := start_sweep_eq_ok.mp h
  obtain ⟨hposts, hcount⟩ := resolveDiagnostics_posts hresolve
  dsimp only at hposts hcount
  rw [hfresh, ← Parse.postings] at hposts hcount
  refine ⟨hcount, hcount ▸ hposts.next_eq, hposts.tasks_perm, hposts.ordered,
    hposts.journal_eq, ?_, ?_⟩
  · rw [hposts.isSome_eq]
    cases first <;> rfl
  · intro collected hmem
    obtain ⟨earlier, hearlier, hsound, hperm⟩ := hposts.entries_perm collected hmem
    cases first with
    | false => cases hearlier
    | true =>
        cases hearlier
        exact ⟨hsound Groups.sound_nil, hperm⟩

end

end SyntaxRepair
