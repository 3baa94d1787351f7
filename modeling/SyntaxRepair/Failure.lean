import SyntaxRepair.Violation
import SyntaxRepair.Parse.Result
import SyntaxRepair.Parse.Fault
import SyntaxRepair.Text.Utf8

/-!
# Failures of a repair

Every way in which a repair can end without a clean text, and the computations
that may end so.  A `Step` keeps the changes that were made to its state before
it failed, because what a failed repair has done so far can still be looked at.
-/

namespace SyntaxRepair

/-- Why a repair ended without a clean text. -/
inductive Failure
  /-- An assumption about the parser's report does not hold. -/
  | violation (cause : Violation)
  /-- The repair no longer makes progress; the reports of the last parse. -/
  | unrecovered (reports : List Report)
  /-- The parser gave no report. -/
  | parser (fault : ParserFault)
  /-- A number or a document is of no use where it stands. -/
  | misfit (cause : Misfit)
  /-- A text has no octets. -/
  | unencodable (fault : Utf8.Unencodable)
  /-- A line, a node or a word was asked for past the end of its list. -/
  | outOfRange
  /-- A mission was to be dropped that is not in the queue. -/
  | notQueued
  /-- The parser command may not be run. -/
  | permissionDenied (command : Text)
  /-- A recorded parser was asked once more than it was recorded. -/
  | recordingEnded
deriving Repr, DecidableEq

/-- The wording of a failure. -/
def Failure.message : Failure → Text
  | .violation cause => cause.message
  | .unrecovered reports => Text.join "\n" ("Syntax error" :: reports.map Report.display)
  | .parser fault => fault.message
  | .misfit cause => cause.message
  | .unencodable fault => fault.message
  | .outOfRange => "list index out of range"
  | .notQueued => "list.remove(x): x not in list"
  | .permissionDenied command => "[Errno 13] Permission denied: " ++ Text.quoted command
  | .recordingEnded => "the recording has ended"

/-- A value that a misfit may stand in the way of, as part of a repair. -/
def Failure.ofMisfit {α : Type} (value : Except Misfit α) : Except Failure α :=
  value.mapError Failure.misfit

/-- An item that was looked up in a list and may not be there. -/
def Failure.ofLookup {α : Type} : Except Misfit (Option α) → Except Failure α
  | .ok (some item) => .ok item
  | .ok none => .error .outOfRange
  | .error cause => .error (.misfit cause)

/-- What is told of a parse that can not be repaired: its reports, unless they can
not be made. -/
def Parse.givenUp (result : Parse) : Failure :=
  match result.reports with
  | .ok reports => .unrecovered reports
  | .error cause => .misfit cause

/-! ## Computations that may fail -/

/-- A computation that changes a state and may fail; a failure keeps the changes
made before it. -/
abbrev Step (σ α : Type) := ExceptT Failure (StateM σ) α

namespace Step

variable {σ τ α : Type}

/-- Runs a step from a state. -/
def start (step : Step σ α) (state : σ) : Except Failure α × σ := (ExceptT.run step).run state

/-- A step that is given as a function of the state. -/
def of (run : σ → Except Failure α × σ) : Step σ α := ExceptT.mk fun state => run state

/-- The value of a computation that may fail. -/
def ofExcept : Except Failure α → Step σ α
  | .ok value => pure value
  | .error failure => throw failure

/-- A value that a misfit may stand in the way of. -/
def ofMisfit (value : Except Misfit α) : Step σ α := ofExcept (Failure.ofMisfit value)

/-- The value of an optional result, or a failure. -/
def orFail (failure : Failure) : Option α → Step σ α
  | some value => pure value
  | none => throw failure

/-- A step on a part of a larger state. -/
def within (part : τ → σ) (update : σ → τ → τ) (step : Step σ α) : Step τ α :=
  of fun state =>
    let outcome := step.start (part state)
    (outcome.1, update outcome.2 state)

@[simp] theorem start_of (run : σ → Except Failure α × σ) (state : σ) :
    (of run).start state = run state := rfl

@[simp] theorem start_pure (value : α) (state : σ) :
    (pure value : Step σ α).start state = (.ok value, state) := rfl

@[simp] theorem start_throw (failure : Failure) (state : σ) :
    (throw failure : Step σ α).start state = (.error failure, state) := rfl

@[simp] theorem start_ofExcept (value : Except Failure α) (state : σ) :
    (ofExcept value).start state = (value, state) := by
  cases value <;> rfl

@[simp] theorem start_get (state : σ) : (get : Step σ σ).start state = (.ok state, state) := rfl

@[simp] theorem start_set (new state : σ) :
    (set new : Step σ PUnit).start state = (.ok ⟨⟩, new) := rfl

@[simp] theorem start_modify (change : σ → σ) (state : σ) :
    (modify change : Step σ PUnit).start state = (.ok ⟨⟩, change state) := rfl

@[simp] theorem start_within (part : τ → σ) (update : σ → τ → τ) (step : Step σ α)
    (state : τ) : (within part update step).start state =
      ((step.start (part state)).1, update (step.start (part state)).2 state) := rfl

/-- A sequence of two steps: a failure of the first one is the outcome. -/
theorem start_bind {β : Type} (first : Step σ α) (next : α → Step σ β) (state : σ) :
    (first >>= next).start state =
      match first.start state with
      | (.ok value, after) => (next value).start after
      | (.error failure, after) => (.error failure, after) := by
  unfold start ExceptT.run StateT.run
  simp only [bind, ExceptT.bind, ExceptT.mk, StateT.bind, ExceptT.bindCont]
  cases first state with
  | mk result after => cases result <;> rfl

end Step

end SyntaxRepair
