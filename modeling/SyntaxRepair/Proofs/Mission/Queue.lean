import SyntaxRepair.Mission.Queue
import SyntaxRepair.Proofs.Anchors
import Mathlib.Data.List.Perm.Subperm

/-!
# The waiting missions

The offset of a mission moves from pass to pass, and with it the mission's place in the queue.
What it is to do does not: its number and what it adds (`Mission.task`).  The operations of a
queue are therefore told by what they do to its tasks, up to their order.

`Queue.Ordered` is the invariant of a queue.  Its missions stand in the order of their anchors,
and no two have one number.  Dropping a mission that waits is therefore dropping it and nothing
else (`Ordered.remove?_eq`), and the tasks lose the only one with its number
(`Ordered.tasks_of_remove?`).  Of any queue it can be said which missions wait in it, each as often
(`Queue.Holds`).
-/

namespace SyntaxRepair

/-- What a mission is to do, apart from the place: its number and what it adds. -/
structure Task where
  sequence : Nat
  purpose : Purpose
  payload : Text
deriving Repr, DecidableEq

/-- The task of a mission. -/
def Mission.task (mission : Mission) : Task :=
  ⟨mission.sequence, mission.purpose, mission.payload⟩

/-! ## Tasks of a queue -/

namespace Queue

variable {queue after : Queue} {offset : Int} {purpose : Purpose} {payload : Text}

/-- The tasks of a queue, in the order of its missions. -/
def tasks (queue : Queue) : List Task := queue.missions.map Mission.task

/-- Adding a mission adds its task. -/
theorem tasks_add (queue : Queue) (offset : Int) (purpose : Purpose) (payload : Text) :
    (queue.add offset purpose payload).tasks.Perm
      (queue.tasks ++ [⟨queue.next, purpose, payload⟩]) := by
  have hperm := (Anchor.insert_perm Mission.toAnchor (queue.nextMission offset purpose payload)
    queue.missions).map Mission.task
  exact hperm.trans (List.perm_append_singleton _ _).symm

/-- Moving the anchors leaves the tasks alone, wherever they move. -/
theorem tasks_relocate (queue : Queue) (carry : Int → Int) :
    (queue.relocate carry).tasks.Perm queue.tasks := by
  have hperm := (Anchor.sort_perm Mission.toAnchor (queue.missions.map fun mission =>
    { mission with offset := carry mission.offset })).map Mission.task
  rw [List.map_map] at hperm
  exact hperm

theorem next_of_remove? {anchor : Anchor} (h : queue.remove? anchor = some after) :
    after.next = queue.next := by
  unfold remove? at h
  split at h
  · cases h
    rfl
  · cases h

/-- The first mission with an anchor is dropped, if there is one. -/
theorem remove?_of_mem {anchor : Anchor} (hmem : anchor ∈ queue.missions.map Mission.toAnchor) :
    queue.remove? anchor = some { queue with
      missions := queue.missions.eraseP fun mission => mission.toAnchor = anchor } := by
  obtain ⟨mission, hmission, hanchor⟩ := List.mem_map.mp hmem
  rw [remove?, if_pos (List.any_eq_true.mpr ⟨mission, hmission, decide_eq_true hanchor⟩)]

/-! ## The invariant of a queue -/

/-- A queue in the order of its anchors, with a number of its own for each mission, all of
them smaller than the next one. -/
structure Ordered (queue : Queue) : Prop where
  ordered : queue.missions.Pairwise fun first second => first.toAnchor.Before second.toAnchor
  distinct : queue.tasks.Pairwise fun first second => first.sequence ≠ second.sequence
  issued : ∀ task ∈ queue.tasks, task.sequence < queue.next

theorem ordered_of_missions_eq_nil (h : queue.missions = []) : queue.Ordered := by
  refine ⟨?_, ?_, ?_⟩
  · rw [h]
    exact List.Pairwise.nil
  · rw [tasks, h]
    exact List.Pairwise.nil
  · rw [tasks, h]
    exact List.forall_mem_nil _

theorem Ordered.sequence_lt (hqueue : queue.Ordered) {mission : Mission}
    (hmem : mission ∈ queue.missions) : mission.sequence < queue.next :=
  hqueue.issued mission.task (List.mem_map_of_mem hmem)

/-- No two missions of an ordered queue have one anchor. -/
theorem Ordered.nodup_anchors (hqueue : queue.Ordered) :
    (queue.missions.map Mission.toAnchor).Nodup :=
  Anchor.nodup_map hqueue.ordered

/-- No two missions of an ordered queue have one number. -/
theorem Ordered.nodup_sequences (hqueue : queue.Ordered) :
    (queue.missions.map fun mission => mission.sequence).Nodup := by
  have hdistinct := hqueue.distinct
  rw [tasks, List.pairwise_map] at hdistinct
  exact List.pairwise_map.mpr hdistinct

theorem Ordered.add (hqueue : queue.Ordered) (offset : Int) (purpose : Purpose)
    (payload : Text) : (queue.add offset purpose payload).Ordered := by
  have htasks := queue.tasks_add offset purpose payload
  refine ⟨?_, ?_, ?_⟩
  · refine Anchor.pairwise_before_insert hqueue.ordered fun other hother => ?_
    exact Nat.ne_of_gt (hqueue.sequence_lt hother)
  · rw [htasks.pairwise_iff Ne.symm, List.pairwise_append]
    refine ⟨hqueue.distinct, List.pairwise_singleton .., ?_⟩
    intro task htask other hother
    rw [List.mem_singleton.mp hother]
    exact Nat.ne_of_lt (hqueue.issued task htask)
  · intro task htask
    rcases List.mem_append.mp (htasks.mem_iff.mp htask) with hold | hnew
    · exact Nat.lt_succ_of_lt (hqueue.issued task hold)
    · rw [List.mem_singleton.mp hnew]
      exact Nat.lt_succ_self queue.next

/-- Wherever the anchors move, the missions are put into their new order. -/
theorem Ordered.relocate (hqueue : queue.Ordered) (carry : Int → Int) :
    (queue.relocate carry).Ordered := by
  have htasks := queue.tasks_relocate carry
  refine ⟨?_, ?_, ?_⟩
  · refine Anchor.pairwise_before_sort (List.pairwise_map.mpr ?_)
    exact List.pairwise_map.mp hqueue.nodup_sequences
  · rw [htasks.pairwise_iff Ne.symm]
    exact hqueue.distinct
  · intro task htask
    exact hqueue.issued task (htasks.mem_iff.mp htask)

/-! ## Queues without some of their missions -/

section

variable {mission : Mission} {dropped : List Mission}

/-- A queue without some missions. -/
def without (queue : Queue) (dropped : List Mission) : Queue :=
  { queue with missions := queue.missions.filter fun mission => mission ∉ dropped }

theorem without_nil (queue : Queue) : queue.without [] = queue := by
  have hall : (queue.missions.filter fun mission => mission ∉ ([] : List Mission)) =
      queue.missions :=
    List.filter_eq_self.mpr fun _ _ => decide_eq_true List.not_mem_nil
  rw [without, hall]

theorem without_append (queue : Queue) (first second : List Mission) :
    (queue.without first).without second = queue.without (first ++ second) := by
  rw [without, without, without, List.filter_filter]
  refine congrArg (fun missions => { queue with missions }) (List.filter_congr fun mission _ => ?_)
  rw [← Bool.decide_and, decide_eq_decide, List.mem_append, not_or, and_comm]

theorem mem_without :
    mission ∈ (queue.without dropped).missions ↔ mission ∈ queue.missions ∧ mission ∉ dropped := by
  rw [without, List.mem_filter, decide_eq_true_iff]

/-- A queue stays ordered without some of its missions. -/
theorem Ordered.without (hqueue : queue.Ordered) (dropped : List Mission) :
    (queue.without dropped).Ordered := by
  have hsublist : (queue.without dropped).missions.Sublist queue.missions := List.filter_sublist
  refine ⟨hqueue.ordered.sublist hsublist, hqueue.distinct.sublist (hsublist.map _), ?_⟩
  intro task htask
  exact hqueue.issued task ((hsublist.map Mission.task).mem htask)

/-- A mission that waits in an ordered queue is removed, and nothing else is. -/
theorem Ordered.remove?_eq (hqueue : queue.Ordered) (hmem : mission ∈ queue.missions) :
    queue.remove? mission.toAnchor = some (queue.without [mission]) := by
  have hkept : (queue.missions.filter fun other => other.toAnchor ≠ mission.toAnchor) =
      queue.missions.filter fun other => other ∉ [mission] := by
    refine List.filter_congr fun other hother => ?_
    rw [decide_eq_decide, List.mem_singleton, not_iff_not]
    exact ⟨List.inj_on_of_nodup_map hqueue.nodup_anchors hother hmem,
      fun hsame => congrArg Mission.toAnchor hsame⟩
  rw [remove?_of_mem (List.mem_map_of_mem hmem), Anchor.eraseP_eq_filter hqueue.ordered, hkept]
  rfl

/-- What is removed from an ordered queue is a mission that waits, and nothing else. -/
theorem Ordered.exists_without (hqueue : queue.Ordered) {anchor : Anchor}
    (h : queue.remove? anchor = some after) :
    ∃ mission ∈ queue.missions, mission.toAnchor = anchor ∧ after = queue.without [mission] := by
  have hany : queue.missions.any (fun mission => mission.toAnchor = anchor) = true := by
    by_contra hnone
    rw [Queue.remove?, if_neg hnone] at h
    cases h
  obtain ⟨mission, hmem, hanchor⟩ := List.any_eq_true.mp hany
  obtain rfl := of_decide_eq_true hanchor
  rw [hqueue.remove?_eq hmem] at h
  exact ⟨mission, hmem, rfl, (Option.some.inj h).symm⟩

theorem Ordered.remove? (hqueue : queue.Ordered) {anchor : Anchor}
    (h : queue.remove? anchor = some after) : after.Ordered := by
  obtain ⟨mission, -, -, rfl⟩ := hqueue.exists_without h
  exact hqueue.without [mission]

/-- Without a mission, a queue is without the task with its number. -/
theorem Ordered.tasks_without (hqueue : queue.Ordered) (hmem : mission ∈ queue.missions) :
    (queue.without [mission]).tasks =
      queue.tasks.filter fun task => task.sequence ≠ mission.sequence := by
  rw [tasks, tasks, List.filter_map]
  refine congrArg (List.map Mission.task) (List.filter_congr fun other hother => ?_)
  rw [Function.comp_apply, decide_eq_decide, List.mem_singleton, not_iff_not]
  exact ⟨fun hsame => congrArg (fun mission => mission.sequence) hsame,
    fun hsame => List.inj_on_of_nodup_map hqueue.nodup_sequences hother hmem hsame⟩

/-- Dropping a mission drops the task with its number and no other. -/
theorem Ordered.tasks_of_remove? (hqueue : queue.Ordered) {anchor : Anchor}
    (h : queue.remove? anchor = some after) :
    after.tasks = queue.tasks.filter fun task => task.sequence ≠ anchor.sequence := by
  obtain ⟨mission, hmem, rfl, rfl⟩ := hqueue.exists_without h
  exact hqueue.tasks_without hmem

/-- With a mission that it has lost, a queue holds what it held. -/
theorem Ordered.perm_without (hqueue : queue.Ordered) (hmem : mission ∈ queue.missions) :
    ((queue.without [mission]).missions ++ [mission]).Perm queue.missions := by
  have hnodup : queue.missions.Nodup := List.Nodup.of_map _ hqueue.nodup_anchors
  have herase : (queue.without [mission]).missions = queue.missions.erase mission := by
    rw [hnodup.erase_eq_filter]
    refine List.filter_congr fun other _ => ?_
    rw [Bool.eq_iff_iff, decide_eq_true_iff, bne_iff_ne, List.mem_singleton]
  rw [herase]
  exact (List.perm_append_singleton _ _).trans (List.perm_cons_erase hmem).symm

end

/-! ## What the operations keep -/

/-- A queue that its operations have made. -/
inductive Built : Queue → Prop
  | empty : Built empty
  | add {queue : Queue} (earlier : Built queue) (offset : Int) (purpose : Purpose)
      (payload : Text) : Built (queue.add offset purpose payload)
  | remove? {queue after : Queue} (earlier : Built queue) {anchor : Anchor}
      (hremove : queue.remove? anchor = some after) : Built after
  | relocate {queue : Queue} (earlier : Built queue) (carry : Int → Int) :
      Built (queue.relocate carry)
  | cleared {queue : Queue} (earlier : Built queue) : Built queue.cleared

/-- The operations keep the invariant. -/
theorem Built.ordered (hbuilt : queue.Built) : queue.Ordered := by
  induction hbuilt with
  | empty => exact ordered_of_missions_eq_nil rfl
  | add earlier offset purpose payload ih => exact ih.add offset purpose payload
  | remove? earlier hremove ih => exact ih.remove? hremove
  | relocate earlier carry ih => exact ih.relocate carry
  | cleared earlier ih => exact ordered_of_missions_eq_nil rfl

/-! ## Dropping several missions -/

/-- A queue that has lost the missions with some numbers and no others. -/
structure Drops (queue : Queue) (dropped : List Mission) (after : Queue) : Prop where
  next_eq : after.next = queue.next
  ordered : queue.Ordered → after.Ordered
  tasks_eq : queue.Ordered → after.tasks = queue.tasks.filter fun task =>
    task.sequence ∉ dropped.map fun mission => mission.sequence

theorem drops_nil (queue : Queue) : queue.Drops [] queue := by
  refine ⟨rfl, id, fun _ => ?_⟩
  rw [List.map_nil, List.filter_eq_self.mpr]
  exact fun _ _ => decide_eq_true List.not_mem_nil

theorem drops_of_remove? {mission : Mission} (h : queue.remove? mission.toAnchor = some after) :
    queue.Drops [mission] after := by
  refine ⟨next_of_remove? h, fun hqueue => hqueue.remove? h, fun hqueue => ?_⟩
  rw [hqueue.tasks_of_remove? h, List.map_singleton]
  simp only [List.mem_singleton]

theorem Drops.trans {between : Queue} {first second : List Mission}
    (hfirst : queue.Drops first between) (hsecond : between.Drops second after) :
    queue.Drops (first ++ second) after := by
  refine ⟨hsecond.next_eq.trans hfirst.next_eq,
    fun hqueue => hsecond.ordered (hfirst.ordered hqueue), fun hqueue => ?_⟩
  rw [hsecond.tasks_eq (hfirst.ordered hqueue), hfirst.tasks_eq hqueue, List.filter_filter,
    List.map_append]
  refine List.filter_congr fun task _ => ?_
  rw [← Bool.decide_and, decide_eq_decide, List.mem_append, not_or, and_comm]

/-! ## Missions that wait -/

section

variable {missions rest : List Mission}

/-- A queue in which missions at the anchors of some others wait, each as often. -/
def Holds (queue : Queue) (missions : List Mission) : Prop :=
  (missions.map Mission.toAnchor).Subperm (queue.missions.map Mission.toAnchor)

theorem holds_nil : queue.Holds [] := List.nil_subperm

theorem Holds.sublist (hholds : queue.Holds missions) (hsublist : rest.Sublist missions) :
    queue.Holds rest :=
  (hsublist.map _).subperm.trans hholds

theorem Holds.perm (hholds : queue.Holds missions) (hperm : rest.Perm missions) :
    queue.Holds rest :=
  (hperm.map _).subperm.trans hholds

/-- A mission that is added waits with the others. -/
theorem Holds.add (hholds : queue.Holds missions) (offset : Int) (purpose : Purpose)
    (payload : Text) :
    (queue.add offset purpose payload).Holds
      (queue.nextMission offset purpose payload :: missions) := by
  have hadded := (Anchor.insert_perm Mission.toAnchor (queue.nextMission offset purpose payload)
    queue.missions).map Mission.toAnchor
  have hcons := (List.subperm_cons (queue.nextMission offset purpose payload).toAnchor).mpr hholds
  exact hcons.trans hadded.symm.subperm

/-- A mission that waits can be removed, and leaves the others waiting. -/
theorem Holds.remove? {mission : Mission} (hholds : queue.Holds (mission :: rest)) :
    ∃ after, queue.remove? mission.toAnchor = some after ∧ after.Holds rest := by
  have hmem : mission.toAnchor ∈ queue.missions.map Mission.toAnchor :=
    hholds.subset (List.mem_cons_self ..)
  refine ⟨_, remove?_of_mem hmem, ?_⟩
  -- removing a mission is erasing its anchor
  have herase : (queue.missions.eraseP fun other => other.toAnchor = mission.toAnchor).map
      Mission.toAnchor = (queue.missions.map Mission.toAnchor).erase mission.toAnchor := by
    rw [List.erase_eq_eraseP, List.eraseP_map]
    refine congrArg (fun sought => (queue.missions.eraseP sought).map Mission.toAnchor)
      (funext fun other => ?_)
    rw [Function.comp, Bool.eq_iff_iff, decide_eq_true_iff, beq_iff_eq, eq_comm]
  have hrest := hholds.erase mission.toAnchor
  rw [List.map_cons, List.erase_cons_head, ← herase] at hrest
  exact hrest

end

end Queue

end SyntaxRepair
