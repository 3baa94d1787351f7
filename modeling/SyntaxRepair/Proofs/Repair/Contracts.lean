import SyntaxRepair.Proofs.Repair.Steps

/-!
# What a step comes to

A step ends with a value or with a failure, and leaves a state behind in both cases.
`Step.Ensures` says of one run of a step what holds in each case.  A sequence ensures what
its parts ensure one after another (`Step.ensures_bind`), so a contract of a long step is shown
by going through its parts, with the contracts of the operations that it consists of.
-/

namespace SyntaxRepair

namespace Step

variable {σ τ α β : Type} {before : σ} {post : α → σ → Prop} {broken : Failure → σ → Prop}

/-- From a state, a step ends with a value and a state that `post` admits, or with a failure and
a state that `broken` admits. -/
def Ensures (step : Step σ α) (before : σ) (post : α → σ → Prop) (broken : Failure → σ → Prop) :
    Prop :=
  match step.start before with
  | (.ok value, after) => post value after
  | (.error failure, after) => broken failure after

namespace Ensures

variable {step : Step σ α} {value : α} {failure : Failure} {after : σ}

theorem of_eq_ok (h : step.Ensures before post broken)
    (hrun : step.start before = (.ok value, after)) : post value after := by
  rw [Ensures, hrun] at h
  exact h

theorem of_eq_error (h : step.Ensures before post broken)
    (hrun : step.start before = (.error failure, after)) : broken failure after := by
  rw [Ensures, hrun] at h
  exact h

/-- What a step ensures may be told with less. -/
theorem imp {post' : α → σ → Prop} {broken' : Failure → σ → Prop}
    (h : step.Ensures before post broken)
    (hpost : ∀ value after, post value after → post' value after)
    (hbroken : ∀ failure after, broken failure after → broken' failure after) :
    step.Ensures before post' broken' := by
  unfold Ensures at *
  generalize step.start before = outcome at h ⊢
  rcases outcome with ⟨failure | value, after⟩
  · exact hbroken failure after h
  · exact hpost value after h

/-- What a step ensures on two accounts it ensures on both. -/
theorem and {post' : α → σ → Prop} {broken' : Failure → σ → Prop}
    (h : step.Ensures before post broken) (h' : step.Ensures before post' broken') :
    step.Ensures before (fun value after => post value after ∧ post' value after)
      fun failure after => broken failure after ∧ broken' failure after := by
  unfold Ensures at *
  generalize step.start before = outcome at h h' ⊢
  rcases outcome with ⟨failure | value, after⟩
  · exact ⟨h, h'⟩
  · exact ⟨h, h'⟩

/-- What a step ensures of the state behind it, however it ends, holds of that state. -/
theorem leaves {good : σ → Prop}
    (h : step.Ensures before (fun _ after => good after) fun _ after => good after) :
    good (step.start before).2 := by
  unfold Ensures at h
  generalize step.start before = outcome at h ⊢
  rcases outcome with ⟨failure | value, after⟩
  · exact h
  · exact h

end Ensures

/-- A contract is shown by the two ways in which a run can end. -/
theorem ensures_of_cases {step : Step σ α}
    (hok : ∀ value after, step.start before = (.ok value, after) → post value after)
    (herror : ∀ failure after, step.start before = (.error failure, after) → broken failure after) :
    step.Ensures before post broken := by
  unfold Ensures
  rcases hrun : step.start before with ⟨failure | value, after⟩
  · exact herror failure after hrun
  · exact hok value after hrun

@[simp] theorem ensures_pure {value : α} :
    (pure value : Step σ α).Ensures before post broken ↔ post value before := Iff.rfl

@[simp] theorem ensures_throw {failure : Failure} :
    (throw failure : Step σ α).Ensures before post broken ↔ broken failure before := Iff.rfl

@[simp] theorem ensures_get {post : σ → σ → Prop} :
    (get : Step σ σ).Ensures before post broken ↔ post before before := Iff.rfl

@[simp] theorem ensures_modify {change : σ → σ} {post : PUnit → σ → Prop} :
    (modify change : Step σ PUnit).Ensures before post broken ↔ post ⟨⟩ (change before) := Iff.rfl

/-- A sequence of two steps ensures what the second one ensures where the first one has ended,
and admits the failures of both. -/
theorem ensures_bind {first : Step σ α} {next : α → Step σ β} {post : β → σ → Prop} :
    (first >>= next).Ensures before post broken ↔
      first.Ensures before (fun value after => (next value).Ensures after post broken) broken := by
  unfold Ensures
  rw [start_bind]
  rcases first.start before with ⟨failure | value, after⟩ <;> rfl

/-- The rule of sequence: the second step goes on with what the first one ensures. -/
theorem Ensures.bind {first : Step σ α} {next : α → Step σ β} {good : α → σ → Prop}
    {post : β → σ → Prop} (h : first.Ensures before good broken)
    (hnext : ∀ value after, good value after → (next value).Ensures after post broken) :
    (first >>= next).Ensures before post broken :=
  ensures_bind.mpr (h.imp hnext fun _ _ hbroken => hbroken)

theorem ensures_ofExcept {outcome : Except Failure α}
    (hok : ∀ value, outcome = .ok value → post value before)
    (herror : ∀ failure, outcome = .error failure → broken failure before) :
    (ofExcept outcome).Ensures before post broken := by
  cases outcome with
  | error failure => exact herror failure rfl
  | ok value => exact hok value rfl

theorem ensures_ofMisfit {outcome : Except Misfit α}
    (hok : ∀ value, outcome = .ok value → post value before)
    (herror : ∀ cause, outcome = .error cause → broken (.misfit cause) before) :
    (ofMisfit outcome).Ensures before post broken := by
  cases outcome with
  | error cause => exact herror cause rfl
  | ok value => exact hok value rfl

@[simp] theorem ensures_ofMisfit_ok {value : α} :
    (ofMisfit (.ok value)).Ensures before post broken ↔ post value before := Iff.rfl

theorem ensures_orFail {failure : Failure} {item : Option α}
    (hsome : ∀ value, item = some value → post value before)
    (hnone : item = none → broken failure before) :
    (orFail failure item).Ensures before post broken := by
  cases item with
  | none => exact hnone rfl
  | some value => exact hsome value rfl

/-- A step on a part of a state ensures what it ensures of that part. -/
theorem ensures_within {part : τ → σ} {update : σ → τ → τ} {step : Step σ α} {before : τ}
    {post : α → τ → Prop} {broken : Failure → τ → Prop} :
    (within part update step).Ensures before post broken ↔
      step.Ensures (part before) (fun value after => post value (update after before))
        fun failure after => broken failure (update after before) := by
  unfold Ensures
  rw [start_within]
  rcases step.start (part before) with ⟨failure | value, after⟩ <;> rfl

end Step

/-! ## Operations of the workspace -/

namespace Workspace

variable {before : Workspace} {post : Unit → Workspace → Prop}
  {broken : Failure → Workspace → Prop}

/-- An edit puts the buffer that accepts it in place of the old one; only a violation refuses
it, and that changes nothing. -/
theorem edit_ensures {change : Buffer → Except Violation Buffer}
    (hok : ∀ buffer, change before.buffer = .ok buffer → post ⟨⟩ { before with buffer })
    (herror : ∀ cause, change before.buffer = .error cause → broken (.violation cause) before) :
    (edit change).Ensures before post broken := by
  rw [edit, Step.ensures_bind, Step.ensures_get]
  cases hchange : change before.buffer with
  | error cause => exact herror cause hchange
  | ok buffer => exact hok buffer hchange

/-- So does a replacement in whole numbers. -/
theorem replaceAt_ensures {offset length : Int} {inserted : Text}
    (hok : ∀ buffer, before.buffer.replace offset length inserted = .ok buffer →
      post ⟨⟩ { before with buffer })
    (herror : ∀ cause, before.buffer.replace offset length inserted = .error cause →
      broken (.violation cause) before) :
    (replaceAt (.int offset) (.int length) inserted).Ensures before post broken := by
  rw [replaceAt]
  exact edit_ensures hok herror

end Workspace

end SyntaxRepair
