import SyntaxRepair.Proofs.Mission.Queue
import SyntaxRepair.Proofs.Sequences

/-!
# What is done with a queue

A queue is changed by four operations: a mission is added, a waiting mission is dropped, all anchors
are moved, and all missions are taken out.  After any number of them the missions stand in the order
of their anchors, no number has been given twice, and each task that was added either waits or has
been let go (`Queue.performAll_accounts`).

## Strategy

What an operation does to the tasks is told by one law for all four of them: with what it lets go,
the tasks afterwards are those before it with what it adds (`Queue.Ordered.perform_tasks`).  The law
goes through a run by putting the steps one behind the other (`Queue.Ordered.performAll_tasks`).
-/

namespace SyntaxRepair

namespace Queue

/-- What is done with a queue. -/
inductive Operation
  /-- A mission is added. -/
  | add (offset : Int) (purpose : Purpose) (payload : Text)
  /-- A waiting mission is dropped. -/
  | drop (mission : Mission)
  /-- All anchors are moved. -/
  | relocate (carry : Int → Int)
  /-- All missions are taken out. -/
  | drain

namespace Operation

/-- Carries out an operation; `none` if a mission is to be dropped that does not wait. -/
def perform (queue : Queue) : Operation → Option Queue
  | add offset purpose payload => some (queue.add offset purpose payload)
  | drop mission => if mission ∈ queue.missions then queue.remove? mission.toAnchor else none
  | relocate carry => some (queue.relocate carry)
  | drain => some queue.cleared

/-- Whether an operation drops no other mission than one that waits. -/
def Applies (queue : Queue) : Operation → Prop
  | add _ _ _ => True
  | drop mission => mission ∈ queue.missions
  | relocate _ => True
  | drain => True

/-- The missions that an operation adds. -/
def added (queue : Queue) : Operation → List Mission
  | add offset purpose payload => [queue.nextMission offset purpose payload]
  | drop _ => []
  | relocate _ => []
  | drain => []

/-- The missions that an operation lets go: the one that is dropped, or all that are taken out. -/
def released (queue : Queue) : Operation → List Mission
  | add _ _ _ => []
  | drop mission => [mission]
  | relocate _ => []
  | drain => queue.missions

theorem perform_drop_eq_some {queue after : Queue} {mission : Mission} :
    (drop mission).perform queue = some after ↔
      mission ∈ queue.missions ∧ queue.remove? mission.toAnchor = some after := by
  rw [perform]
  split
  · rename_i hmem
    exact ⟨fun h => ⟨hmem, h⟩, fun h => h.2⟩
  · rename_i hnot
    exact iff_of_false (Option.some_ne_none after).symm fun h => hnot h.1

end Operation

/-- Carries out several operations, one after another. -/
def performAll (queue : Queue) (operations : List Operation) : Option Queue :=
  operations.foldlM Operation.perform queue

/-- The missions that several operations add, in their order. -/
def addedBy (queue : Queue) : List Operation → List Mission
  | [] => []
  | operation :: rest =>
    operation.added queue ++
      match operation.perform queue with
      | some after => after.addedBy rest
      | none => []

/-- The missions that several operations let go, in their order. -/
def releasedBy (queue : Queue) : List Operation → List Mission
  | [] => []
  | operation :: rest =>
    operation.released queue ++
      match operation.perform queue with
      | some after => after.releasedBy rest
      | none => []

variable {queue after : Queue} {operation : Operation} {operations : List Operation}

theorem performAll_cons :
    queue.performAll (operation :: operations) = some after ↔
      ∃ between, operation.perform queue = some between ∧
        between.performAll operations = some after := by
  rw [performAll, List.foldlM_cons]
  exact Option.bind_eq_some_iff

theorem addedBy_cons {between : Queue} (hperform : operation.perform queue = some between)
    (rest : List Operation) :
    queue.addedBy (operation :: rest) = operation.added queue ++ between.addedBy rest := by
  rw [addedBy, hperform]

theorem releasedBy_cons {between : Queue} (hperform : operation.perform queue = some between)
    (rest : List Operation) :
    queue.releasedBy (operation :: rest) = operation.released queue ++ between.releasedBy rest := by
  rw [releasedBy, hperform]

/-! ## One operation -/

namespace Ordered

/-- A mission that waits is dropped, and no other one. -/
theorem exists_drop (hqueue : queue.Ordered) {mission : Mission}
    (hmem : mission ∈ queue.missions) :
    ∃ after, queue.remove? mission.toAnchor = some after ∧
      (after.tasks ++ [mission.task]).Perm queue.tasks := by
  refine ⟨_, hqueue.remove?_eq hmem, ?_⟩
  have htasks := (hqueue.perm_without hmem).map Mission.task
  rwa [List.map_append] at htasks

/-- An operation that applies is carried out. -/
theorem exists_perform (hqueue : queue.Ordered) (happlies : operation.Applies queue) :
    ∃ after, operation.perform queue = some after := by
  cases operation with
  | add offset purpose payload => exact ⟨_, rfl⟩
  | drop mission =>
      obtain ⟨after, hremove, -⟩ := hqueue.exists_drop happlies
      exact ⟨after, Operation.perform_drop_eq_some.mpr ⟨happlies, hremove⟩⟩
  | relocate carry => exact ⟨_, rfl⟩
  | drain => exact ⟨_, rfl⟩

/-- **One operation.**  With what it lets go, the tasks are those before it with what it adds. -/
theorem perform_tasks (hqueue : queue.Ordered) (hperform : operation.perform queue = some after) :
    (after.tasks ++ (operation.released queue).map Mission.task).Perm
      (queue.tasks ++ (operation.added queue).map Mission.task) := by
  cases operation with
  | add offset purpose payload =>
      cases hperform
      rw [Operation.released, List.map_nil, List.append_nil]
      exact queue.tasks_add offset purpose payload
  | drop mission =>
      obtain ⟨hmem, hremove⟩ := Operation.perform_drop_eq_some.mp hperform
      obtain ⟨found, hfound, hperm⟩ := hqueue.exists_drop hmem
      rw [hfound] at hremove
      cases hremove
      rw [Operation.added, List.map_nil, List.append_nil]
      exact hperm
  | relocate carry =>
      cases hperform
      rw [Operation.released, Operation.added, List.map_nil, List.append_nil, List.append_nil]
      exact queue.tasks_relocate carry
  | drain =>
      cases hperform
      rw [Operation.added, List.map_nil, List.append_nil]
      exact List.Perm.refl _

theorem perform (hqueue : queue.Ordered) (hperform : operation.perform queue = some after) :
    after.Ordered := by
  cases operation with
  | add offset purpose payload =>
      cases hperform
      exact hqueue.add offset purpose payload
  | drop mission =>
      exact hqueue.remove? (Operation.perform_drop_eq_some.mp hperform).2
  | relocate carry =>
      cases hperform
      exact hqueue.relocate carry
  | drain =>
      cases hperform
      exact ordered_of_missions_eq_nil rfl

end Ordered

/-- An operation numbers the mission that it adds, and goes on counting. -/
theorem sequence_added (hperform : operation.perform queue = some after) :
    (operation.added queue).map (·.sequence) = List.range' queue.next (after.next - queue.next) ∧
      queue.next ≤ after.next := by
  cases operation with
  | add offset purpose payload =>
      cases hperform
      exact ⟨by rw [add, Nat.add_sub_cancel_left]; rfl, Nat.le_succ _⟩
  | drop mission =>
      rw [next_of_remove? (Operation.perform_drop_eq_some.mp hperform).2, Nat.sub_self]
      exact ⟨rfl, Nat.le_refl _⟩
  | relocate carry =>
      cases hperform
      exact ⟨by rw [relocate, Nat.sub_self]; rfl, Nat.le_refl _⟩
  | drain =>
      cases hperform
      exact ⟨by rw [cleared, Nat.sub_self]; rfl, Nat.le_refl _⟩

/-! ## Runs -/

theorem Ordered.performAll (hqueue : queue.Ordered)
    (hrun : queue.performAll operations = some after) : after.Ordered := by
  induction operations generalizing queue with
  | nil =>
      cases hrun
      exact hqueue
  | cons operation rest ih =>
      obtain ⟨between, hfirst, hrest⟩ := performAll_cons.mp hrun
      exact ih (hqueue.perform hfirst) hrest

/-- **A run.**  With all that was let go, the tasks are those before it with all that was added. -/
theorem Ordered.performAll_tasks (hqueue : queue.Ordered)
    (hrun : queue.performAll operations = some after) :
    (after.tasks ++ (queue.releasedBy operations).map Mission.task).Perm
      (queue.tasks ++ (queue.addedBy operations).map Mission.task) := by
  induction operations generalizing queue with
  | nil =>
      cases hrun
      exact List.Perm.refl _
  | cons operation rest ih =>
      obtain ⟨between, hfirst, hrest⟩ := performAll_cons.mp hrun
      have hstep := hqueue.perform_tasks hfirst
      have hothers := ih (hqueue.perform hfirst) hrest
      rw [releasedBy_cons hfirst, addedBy_cons hfirst, List.map_append, List.map_append]
      exact perm_through hstep hothers

theorem sequence_addedBy (hrun : queue.performAll operations = some after) :
    (queue.addedBy operations).map (·.sequence) =
        List.range' queue.next (after.next - queue.next) ∧ queue.next ≤ after.next := by
  induction operations generalizing queue with
  | nil =>
      cases hrun
      exact ⟨by rw [Nat.sub_self]; rfl, Nat.le_refl _⟩
  | cons operation rest ih =>
      obtain ⟨between, hfirst, hrest⟩ := performAll_cons.mp hrun
      obtain ⟨hnumber, hle⟩ := sequence_added hfirst
      obtain ⟨hnumbers, hle'⟩ := ih hrest
      refine ⟨?_, Nat.le_trans hle hle'⟩
      have hfrom : between.next = queue.next + (between.next - queue.next) := by omega
      have hcount : between.next - queue.next + (after.next - between.next) =
          after.next - queue.next := by omega
      rw [addedBy_cons hfirst, List.map_append, hnumber, hnumbers, ← hcount]
      nth_rewrite 2 [hfrom]
      exact List.range'_append_1

/-- **What a queue holds.**  Whatever is done with a new queue, its missions stand in the strict
order of their anchors, and no two of the missions that it was ever given have one number.  What it
was given is what waits and what it has let go, each with its number, its purpose and its payload.
An operation that is done next adds the task that is new, lets the dropped one go, leaves the tasks
as they are, or lets all of them go. -/
theorem performAll_accounts (hrun : performAll empty operations = some queue) :
    (queue.missions.Pairwise fun first second => first.toAnchor.Before second.toAnchor) ∧
      ((empty.addedBy operations).map (·.sequence)).Nodup ∧
      (queue.tasks ++ (empty.releasedBy operations).map Mission.task).Perm
        ((empty.addedBy operations).map Mission.task) ∧
      ∀ operation : Operation, operation.Applies queue →
        ∃ after, operation.perform queue = some after ∧
          match operation with
          | .add _ purpose payload =>
            after.tasks.Perm (queue.tasks ++ [⟨queue.next, purpose, payload⟩])
          | .drop mission => (after.tasks ++ [mission.task]).Perm queue.tasks
          | .relocate _ => after.tasks.Perm queue.tasks
          | .drain => after.tasks = [] ∧ (operation.released queue).map Mission.task = queue.tasks := by
  have hempty : empty.Ordered := ordered_of_missions_eq_nil rfl
  have hqueue := hempty.performAll hrun
  refine ⟨hqueue.ordered, ?_, hempty.performAll_tasks hrun, ?_⟩
  · rw [(sequence_addedBy hrun).1]
    exact List.nodup_range'
  · intro operation happlies
    obtain ⟨after, hperform⟩ := hqueue.exists_perform happlies
    have htasks := hqueue.perform_tasks hperform
    refine ⟨after, hperform, ?_⟩
    cases operation with
    | add offset purpose payload =>
        rw [Operation.released, List.map_nil, List.append_nil] at htasks
        exact htasks
    | drop mission =>
        rw [Operation.added, List.map_nil, List.append_nil] at htasks
        exact htasks
    | relocate carry =>
        rw [Operation.released, Operation.added, List.map_nil, List.append_nil,
          List.append_nil] at htasks
        exact htasks
    | drain =>
        cases hperform
        exact ⟨rfl, rfl⟩

/-- Two missions change places, the first one is dropped and the other one taken out, and a third
one is numbered behind them. -/
theorem performAll_accounts_reversed :
    ∃ (operations : List Operation) (queue : Queue), operations.length = 6 ∧
      performAll empty operations = some queue ∧
      queue.missions = [⟨⟨7, 2⟩, .assignment, "@c = c"⟩] ∧
      (empty.addedBy operations).map (·.sequence) = [0, 1, 2] ∧
      ((empty.addedBy operations).map (·.sequence)).Nodup ∧
      (queue.tasks ++ (empty.releasedBy operations).map Mission.task).Perm
        ((empty.addedBy operations).map Mission.task) := by
  let operations : List Operation := [.add 5 .typeComment "A", .add 3 .assignment "@b = b",
    .relocate fun offset => 9 - offset, .drop ⟨⟨4, 0⟩, .typeComment, "A"⟩, .drain,
    .add 7 .assignment "@c = c"]
  have hrun : ∃ queue, performAll empty operations = some queue ∧
      queue.missions = [⟨⟨7, 2⟩, .assignment, "@c = c"⟩] := ⟨_, rfl, rfl⟩
  obtain ⟨queue, hrun, hmissions⟩ := hrun
  obtain ⟨-, hnumbers, htasks, -⟩ := performAll_accounts hrun
  exact ⟨operations, queue, rfl, hrun, hmissions, rfl, hnumbers, htasks⟩

end Queue

end SyntaxRepair
