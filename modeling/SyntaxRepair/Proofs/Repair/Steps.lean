import SyntaxRepair.Repair.Workspace
import SyntaxRepair.Proofs.Json.Numbers
import SyntaxRepair.Proofs.Sequences

/-!
# Steps that succeed

What is known of a step that ended with a value: where a sequence of steps went through,
and what each operation of the workspace has done.  Later proofs take a step apart with
these lemmas and do not open the operations again.
-/

namespace SyntaxRepair

/-! ## Computations without a state -/

namespace Failure

theorem ofMisfit_eq_ok {α : Type} {outcome : Except Misfit α} {value : α} :
    ofMisfit outcome = .ok value ↔ outcome = .ok value := by
  cases outcome with
  | error misfit =>
      constructor
      · intro h
        cases h
      · intro h
        cases h
  | ok found =>
      constructor
      · intro h
        cases h
        rfl
      · intro h
        cases h
        rfl

theorem ofLookup_eq_ok {α : Type} {item : Except Misfit (Option α)} {value : α} :
    ofLookup item = .ok value ↔ item = .ok (some value) := by
  rcases item with misfit | _ | found <;> simp [ofLookup]

end Failure

/-! ## Steps -/

namespace Step

variable {σ τ α β : Type}

/-- A run that ended with a value, and where it ended. -/
theorem eq_ok_of_fst {outcome : Except Failure α × σ} {value : α} (h : outcome.1 = .ok value) :
    outcome = (.ok value, outcome.2) := by
  rw [← h]

/-- A sequence succeeds exactly if its first step does and the rest does after it. -/
theorem start_bind_eq_ok {first : Step σ α} {next : α → Step σ β} {before after : σ} {value : β} :
    (first >>= next).start before = (.ok value, after) ↔
      ∃ found between, first.start before = (.ok found, between) ∧
        (next found).start between = (.ok value, after) := by
  rw [start_bind]
  cases hfirst : first.start before with
  | mk outcome between =>
      cases outcome with
      | error failure => simp
      | ok found =>
          constructor
          · exact fun hnext => ⟨found, between, rfl, hnext⟩
          · rintro ⟨_, _, h, hnext⟩
            cases h
            exact hnext

theorem start_pure_eq_ok {before after : σ} {found value : α} :
    (pure found : Step σ α).start before = (.ok value, after) ↔
      found = value ∧ before = after := by
  simp

theorem start_throw_ne_ok {failure : Failure} {before after : σ} {value : α} :
    ¬ (throw failure : Step σ α).start before = (.ok value, after) := by
  simp

theorem start_get_eq_ok {before after value : σ} :
    (get : Step σ σ).start before = (.ok value, after) ↔ before = value ∧ before = after := by
  simp

theorem start_modify_eq_ok {change : σ → σ} {before after : σ} {value : PUnit} :
    (modify change : Step σ PUnit).start before = (.ok value, after) ↔ change before = after := by
  simp

theorem start_ofExcept_eq_ok {outcome : Except Failure α} {before after : σ} {value : α} :
    (ofExcept outcome).start before = (.ok value, after) ↔
      outcome = .ok value ∧ before = after := by
  simp

theorem start_ofMisfit_eq_ok {outcome : Except Misfit α} {before after : σ} {value : α} :
    (ofMisfit outcome).start before = (.ok value, after) ↔
      outcome = .ok value ∧ before = after := by
  rw [ofMisfit, start_ofExcept_eq_ok, Failure.ofMisfit_eq_ok]

theorem start_orFail_eq_ok {failure : Failure} {item : Option α} {before after : σ} {value : α} :
    (orFail failure item).start before = (.ok value, after) ↔
      item = some value ∧ before = after := by
  cases item <;> simp [orFail]

theorem start_within_eq_ok {part : τ → σ} {update : σ → τ → τ} {step : Step σ α}
    {before after : τ} {value : α} :
    (within part update step).start before = (.ok value, after) ↔
      ∃ changed, step.start (part before) = (.ok value, changed) ∧
        update changed before = after := by
  rw [start_within]
  cases hstep : step.start (part before) with
  | mk outcome changed =>
      constructor
      · intro h
        cases h
        exact ⟨changed, rfl, rfl⟩
      · rintro ⟨_, h, rfl⟩
        cases h
        rfl

end Step

/-! ## Ranges of locations -/

/-- The offsets of a location bound a slice exactly if they are whole numbers. -/
theorem Location.range_eq_ok_iff {location : Location} {range : Range} :
    location.range = .ok range ↔
      location.start = .int range.start ∧ location.stop = .int range.stop := by
  obtain ⟨start, stop, line, column⟩ := location
  obtain ⟨first, last⟩ := range
  cases start <;> cases stop <;>
    simp [range, Json.Number.bound, bind, Except.bind, pure, Except.pure]

/-! ## Operations of the workspace -/

namespace Workspace

variable {before after : Workspace}

@[simp] theorem start_note (event : Event) :
    (note event).start before =
      (.ok ⟨⟩, { before with journal := before.journal ++ [event] }) := rfl

@[simp] theorem start_addMission (offset : Int) (purpose : Purpose) (payload : Text) :
    (addMission offset purpose payload).start before =
      (.ok (before.queue.nextMission offset purpose payload),
        { before with queue := before.queue.add offset purpose payload }) := rfl

@[simp] theorem start_reset :
    reset.start before = (.ok ⟨⟩, { before with buffer := before.buffer.reset }) := rfl

@[simp] theorem start_relocate :
    relocate.start before =
      (.ok ⟨⟩, { before with queue := before.queue.relocate before.buffer.carry }) := rfl

/-- An edit succeeds exactly if the buffer accepts it, and changes nothing else. -/
theorem start_edit_eq_ok {change : Buffer → Except Violation Buffer} {done : Unit} :
    (edit change).start before = (.ok done, after) ↔
      ∃ buffer, change before.buffer = .ok buffer ∧ after = { before with buffer } := by
  simp only [edit, Step.start_bind, Step.start_get]
  cases hchange : change before.buffer with
  | error violation => simp
  | ok buffer => simp [eq_comm]

/-- A replacement succeeds exactly if it is given in whole numbers and the buffer accepts
it. -/
theorem start_replaceAt_eq_ok {offset length : Json.Number} {inserted : Text} {done : Unit} :
    (replaceAt offset length inserted).start before = (.ok done, after) ↔
      ∃ (start count : Int) (buffer : Buffer), offset = .int start ∧ length = .int count ∧
        before.buffer.replace start count inserted = .ok buffer ∧
        after = { before with buffer } := by
  cases offset with
  | int start =>
      cases length with
      | int count => simp [replaceAt, start_edit_eq_ok]
      | float count => simp [replaceAt, Step.start_bind]
  | float start => simp [replaceAt, Step.start_bind]

/-- A mission that is dropped was in the queue, and nothing else changes. -/
theorem start_removeMission_eq_ok {mission : Mission} {done : Unit} :
    (removeMission mission).start before = (.ok done, after) ↔
      ∃ queue, before.queue.remove? mission.toAnchor = some queue ∧
        after = { before with queue } := by
  simp only [removeMission, Step.start_bind, Step.start_get]
  cases hremove : before.queue.remove? mission.toAnchor with
  | none => simp
  | some queue => simp [eq_comm]

theorem removeMissions_cons_eq_ok {mission : Mission} {rest : List Mission} {done : Unit} :
    (removeMissions (mission :: rest)).start before = (.ok done, after) ↔
      ∃ queue, before.queue.remove? mission.toAnchor = some queue ∧
        (removeMissions rest).start { before with queue } = (.ok done, after) := by
  rw [removeMissions, Step.start_bind_eq_ok]
  constructor
  · rintro ⟨_, between, hfirst, hrest⟩
    obtain ⟨queue, hremove, rfl⟩ := start_removeMission_eq_ok.mp hfirst
    exact ⟨queue, hremove, hrest⟩
  · rintro ⟨queue, hremove, hrest⟩
    exact ⟨⟨⟩, _, start_removeMission_eq_ok.mpr ⟨queue, hremove, rfl⟩, hrest⟩

/-- Dropping missions leaves the text and its history alone. -/
theorem buffer_of_removeMissions {missions : List Mission} {done : Unit}
    (h : (removeMissions missions).start before = (.ok done, after)) :
    after.buffer = before.buffer := by
  induction missions generalizing before with
  | nil =>
      rw [removeMissions, Step.start_pure_eq_ok] at h
      rw [h.2]
  | cons mission rest ih =>
      obtain ⟨queue, -, hrest⟩ := removeMissions_cons_eq_ok.mp h
      rw [ih hrest]

end Workspace

end SyntaxRepair
