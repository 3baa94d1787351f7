import SyntaxRepair.Proofs.Edit.Performing
import SyntaxRepair.Proofs.Mission.AssignmentPlace

/-!
# Carrying out all missions

Missions that are carried out make one insertion each, in the order of the queue, and leave it
empty.
-/

namespace SyntaxRepair

/-- The call that makes an insertion. -/
def Insertion.write (insertion : Insertion) : Write :=
  .insert insertion.offset.whole insertion.text

/-- What a mission adds to the text of a clean parse, at an offset that is a whole number. -/
structure Mission.Inserts (result : Parse) (mission : Mission) (insertion : Insertion) : Prop where
  insertion_eq : mission.insertion result.tree.index result = .ok insertion
  offset_eq : insertion.offset = .int insertion.offset.whole

section

variable {result : Parse} {before after : Workspace} {done : Unit}

/-- Missions that are carried out make their insertions one after another. -/
theorem executeEach_eq_ok {missions : List Mission}
    (h : (executeEach result.tree.index result missions).start before = (.ok done, after)) :
    after.queue = before.queue ∧ after.journal = before.journal ++ missions.map Event.executes ∧
      ∃ insertions, List.Forall₂ (Mission.Inserts result) missions insertions ∧
        before.buffer.performAll (insertions.map Insertion.write) = .ok after.buffer := by
  induction missions generalizing before with
  | nil =>
      obtain ⟨-, rfl⟩ := Step.start_pure_eq_ok.mp h
      exact ⟨rfl, (List.append_nil _).symm, [], .nil, rfl⟩
  | cons mission rest ih =>
      simp only [executeEach, Step.start_bind_eq_ok] at h
      obtain ⟨_, noted, hnote, _, between, hfirst, hrest⟩ := h
      rw [Workspace.start_note] at hnote
      cases hnote
      obtain ⟨insertion, offset, buffer, hinsertion, hoffset, hinsert, rfl⟩ :=
        Mission.execute_eq_ok.mp hfirst
      obtain ⟨hqueue, hjournal, insertions, hinsertions, hperform⟩ := ih hrest
      have hwhole : insertion.offset.whole = offset := by
        rw [hoffset, Json.Number.whole_int]
      have hwrite : before.buffer.performAll [insertion.write] = .ok buffer := by
        rw [Buffer.performAll_singleton, Insertion.write, hwhole]
        exact hinsert
      refine ⟨hqueue, ?_, insertion :: insertions, .cons ⟨hinsertion, ?_⟩ hinsertions, ?_⟩
      · rw [hjournal, List.append_assoc, List.map_cons, List.singleton_append]
      · rw [hwhole]
        exact hoffset
      · rw [List.map_cons, ← List.singleton_append]
        exact Buffer.performAll_append.mpr ⟨buffer, hwrite, hperform⟩

/-- **Carrying out all missions.**  Each mission of the queue is written into the journal and
makes its insertion once, in the order of the queue, and the queue is empty afterwards. -/
theorem executeAll_eq_ok
    (h : (executeAll result).start before = (.ok done, after)) :
    after.queue = before.queue.cleared ∧
      after.journal = before.journal ++ before.queue.missions.map Event.executes ∧
      ∃ insertions, List.Forall₂ (Mission.Inserts result) before.queue.missions insertions ∧
        Buffer.performAll { text := before.buffer.text } (insertions.map Insertion.write) =
          .ok after.buffer := by
  simp only [executeAll, Step.start_bind_eq_ok, Step.start_get_eq_ok, Step.start_modify_eq_ok] at h
  obtain ⟨_, _, hreset, _, _, ⟨rfl, rfl⟩, _, _, rfl, hexecute⟩ := h
  rw [Workspace.start_reset] at hreset
  cases hreset
  exact executeEach_eq_ok hexecute

end

end SyntaxRepair
