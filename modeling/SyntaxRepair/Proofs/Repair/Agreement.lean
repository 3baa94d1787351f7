import SyntaxRepair.Proofs.Repair.Resolvable

/-!
# Steps that agree

Two steps agree if, from states that are related, they fail in the same way or both give a
value, and leave related states behind.  Agreement goes through sequences of steps
(`Step.agree_bind`), so it is shown for a long step by going through its parts.

Resolving diagnostics is followed through its parts once, for every relation that it is
indifferent to (`Sweep.Indifferent`, `resolveDiagnostic_agree`).  One such relation is used
here.  A later pass collects no groups, so whether its diagnostics can be resolved is decided
by the text and its edits alone; what the queue and the journal hold makes no difference
(`resolveDiagnostics_agree`).  What stands in the way of such a pass is therefore a matter of
the report and the text that was parsed (`Parse.hindrance?`).
-/

namespace SyntaxRepair

open Json (Number)

namespace Step

variable {σ τ α β γ δ : Type}

/-- Two outcomes that fail in the same way, as far as `F` admits failures, or have related
values. -/
inductive Alike (F : Failure → Prop) (V : α → β → Prop) (R : σ → τ → Prop) :
    Except Failure α × σ → Except Failure β × τ → Prop
  | ok {value : α} {other : β} {state : σ} {mate : τ} (hvalue : V value other)
      (hstate : R state mate) : Alike F V R (.ok value, state) (.ok other, mate)
  | error {failure : Failure} {state : σ} {mate : τ} (hfailure : F failure)
      (hstate : R state mate) : Alike F V R (.error failure, state) (.error failure, mate)

theorem Alike.fst_eq {F : Failure → Prop} {R : σ → τ → Prop} {outcome : Except Failure α × σ}
    {other : Except Failure α × τ} (halike : Alike F Eq R outcome other) :
    outcome.1 = other.1 := by
  cases halike with
  | ok hvalue hstate => rw [hvalue]
  | error hfailure hstate => rfl

theorem Alike.states {F : Failure → Prop} {V : α → β → Prop} {R : σ → τ → Prop}
    {outcome : Except Failure α × σ} {other : Except Failure β × τ}
    (halike : Alike F V R outcome other) : R outcome.2 other.2 := by
  cases halike with
  | ok hvalue hstate => exact hstate
  | error hfailure hstate => exact hstate

/-- Two steps that have like outcomes from related states. -/
def Agree (F : Failure → Prop) (V : α → β → Prop) (R : σ → τ → Prop) (first : Step σ α)
    (second : Step τ β) : Prop :=
  ∀ state mate, R state mate → Alike F V R (first.start state) (second.start mate)

variable {F : Failure → Prop} {V : α → β → Prop} {W : γ → δ → Prop} {R : σ → τ → Prop}

theorem agree_pure {value : α} {other : β} (hvalue : V value other) :
    Agree F V R (pure value) (pure other) :=
  fun _ _ hstate => .ok hvalue hstate

theorem agree_throw {failure : Failure} (hfailure : F failure) :
    Agree F V R (throw failure) (throw failure) :=
  fun _ _ hstate => .error hfailure hstate

theorem agree_bind {first : Step σ α} {second : Step τ β} {next : α → Step σ γ}
    {follow : β → Step τ δ} (hfirst : Agree F V R first second)
    (hnext : ∀ value other, V value other → Agree F W R (next value) (follow other)) :
    Agree F W R (first >>= next) (second >>= follow) := by
  intro state mate hstate
  have houtcome := hfirst state mate hstate
  rw [start_bind, start_bind]
  generalize first.start state = outcome at houtcome ⊢
  generalize second.start mate = otherOutcome at houtcome ⊢
  cases houtcome with
  | ok hvalue hafter => exact hnext _ _ hvalue _ _ hafter
  | error hfailure hafter => exact .error hfailure hafter

theorem agree_get : Agree F R R get get := fun _ _ hstate => .ok hstate hstate

theorem agree_modify {change : σ → σ} {other : τ → τ}
    (hchange : ∀ state mate, R state mate → R (change state) (other mate)) :
    Agree F Eq R (modify change) (modify other) :=
  fun _ _ hstate => .ok rfl (hchange _ _ hstate)

theorem agree_ofMisfit (hmisfit : ∀ cause, F (.misfit cause)) (outcome : Except Misfit α) :
    Agree F (fun value other => value = other ∧ outcome = .ok value) R (ofMisfit outcome)
      (ofMisfit outcome) := by
  cases outcome with
  | error cause => exact agree_throw (hmisfit cause)
  | ok value => exact agree_pure ⟨rfl, rfl⟩

end Step

/-! ## What resolving a diagnostic depends on -/

namespace Sweep

open Step

/-- A relation of sweeps that resolving diagnostics is indifferent to: related sweeps have the
same text, they stay related when the same is done to both, and of the parameters in `P` both
have looked for the same.  The missions that both add are related by `M`. -/
structure Indifferent (F : Failure → Prop) (M : Mission → Mission → Prop) (P : Int → Prop)
    (R : Sweep → Sweep → Prop) : Prop where
  misfit : ∀ cause, F (.misfit cause)
  violation : ∀ cause, F (.violation cause)
  buffer_eq : ∀ {sweep mate}, R sweep mate → sweep.buffer = mate.buffer
  edited : ∀ {sweep mate} (buffer : Buffer), R sweep mate →
    R { sweep with buffer } { mate with buffer }
  addMission : ∀ offset purpose payload,
    Agree F M R (onWorkspace (Workspace.addMission offset purpose payload))
      (onWorkspace (Workspace.addMission offset purpose payload))
  collect : ∀ site type {mission other}, M mission other →
    Agree F Eq R (collect site type mission) (collect site type other)
  seen_iff : ∀ {offset sweep mate}, P offset → R sweep mate →
    (offset ∈ sweep.seen ↔ offset ∈ mate.seen)
  looked : ∀ {offset sweep mate}, P offset → R sweep mate →
    R { sweep with seen := offset :: sweep.seen } { mate with seen := offset :: mate.seen }

namespace Indifferent

variable {F : Failure → Prop} {M : Mission → Mission → Prop} {P : Int → Prop}
  {R : Sweep → Sweep → Prop}

/-- An edit depends on the buffer, and its failure is a violation. -/
theorem edit_agree (indifferent : Indifferent F M P R)
    (change : Buffer → Except Violation Buffer) :
    Agree F Eq R (onWorkspace (Workspace.edit change)) (onWorkspace (Workspace.edit change)) := by
  intro sweep mate hstate
  simp only [onWorkspace, start_within, Workspace.edit, start_bind, start_get]
  rw [indifferent.buffer_eq hstate]
  cases change mate.buffer with
  | error violation => exact .error (indifferent.violation violation) hstate
  | ok buffer => exact .ok rfl (indifferent.edited buffer hstate)

theorem resolveField_agree (indifferent : Indifferent F M P R) (result : Parse)
    (location : Location) :
    Agree F Eq R (resolveField result location) (resolveField result location) := by
  unfold resolveField
  refine agree_bind (agree_ofMisfit indifferent.misfit _) ?_
  rintro range _ ⟨rfl, -⟩
  split
  · refine agree_bind (indifferent.edit_agree _) fun _ _ _ => ?_
    exact agree_bind (indifferent.addMission _ _ _) fun _ _ _ => agree_pure rfl
  · exact agree_throw (indifferent.violation _)

theorem cutType_agree (indifferent : Indifferent F M P R) (site : Site) (stop : Number) :
    Agree F Eq R (cutType site stop) (cutType site stop) := by
  unfold cutType
  refine agree_bind agree_get fun sweep mate hstate => ?_
  rw [indifferent.buffer_eq hstate]
  refine agree_bind (agree_ofMisfit indifferent.misfit _) ?_
  rintro type _ ⟨rfl, -⟩
  refine agree_bind (agree_ofMisfit indifferent.misfit _) ?_
  rintro start _ ⟨rfl, -⟩
  refine agree_bind (agree_ofMisfit indifferent.misfit _) ?_
  rintro last _ ⟨rfl, -⟩
  refine agree_bind (indifferent.edit_agree _) fun _ _ _ => ?_
  refine agree_bind (indifferent.addMission _ _ _) fun mission other hmission => ?_
  exact agree_bind (indifferent.collect _ _ hmission) fun _ _ _ => agree_pure rfl

/-- A typed parameter whose type both sweeps have looked for, or neither of them. -/
theorem resolveTyped_agree (indifferent : Indifferent F M P R) {result : Parse}
    {location : Location}
    (hsites : location.Spanning → ∀ site ∈ result.site? location, P site.parameter.whole) :
    Agree F Eq R (resolveTyped result.tree.index result location)
      (resolveTyped result.tree.index result location) := by
  unfold resolveTyped
  refine agree_bind (agree_ofMisfit indifferent.misfit _) ?_
  rintro marker _ ⟨rfl, hrange⟩
  have hsites := hsites (Location.spanning_of_range hrange)
  rw [Parse.site?, Location.values_of_range hrange] at hsites
  split
  · exact agree_pure rfl
  · rename_i hmarker
    rw [if_pos (not_not.mp hmarker)] at hsites
    split
    · exact agree_pure rfl
    · rename_i site hsite
      have hlooked : P site.parameter.whole := hsites site hsite
      refine agree_bind agree_get fun sweep mate hstate => ?_
      have hseen : sweep.seen.contains site.parameter.whole =
          mate.seen.contains site.parameter.whole := by
        rw [Bool.eq_iff_iff, List.contains_iff_mem, List.contains_iff_mem]
        exact indifferent.seen_iff hlooked hstate
      rw [hseen]
      split
      · exact agree_pure rfl
      · refine agree_bind (agree_modify fun _ _ => indifferent.looked hlooked) fun _ _ _ => ?_
        split
        · exact agree_pure rfl
        · exact indifferent.cutType_agree site _

/-- Resolving a diagnostic keeps two sweeps related, unless only one of them has looked for the type
that it is about. -/
theorem resolveDiagnostic_agree (indifferent : Indifferent F M P R) {result : Parse}
    {diagnostic : Diagnostic}
    (hsites : diagnostic.location.Spanning → ∀ offset ∈ result.typeOffset? diagnostic, P offset) :
    Agree F Eq R (resolveDiagnostic result.tree.index result diagnostic)
      (resolveDiagnostic result.tree.index result diagnostic) := by
  unfold resolveDiagnostic
  split
  · exact indifferent.resolveField_agree _ _
  · rename_i hextension
    refine indifferent.resolveTyped_agree fun hspanning site hsite => hsites hspanning _ ?_
    rw [Parse.typeOffset?, if_pos hextension, hsite]
    rfl
  · exact agree_pure rfl

end Indifferent

end Sweep

/-! ## What a later pass depends on -/

/-- A failure that lies in a report or in the edits that it asks for. -/
inductive Failure.OfReport : Failure → Prop
  | violation (cause : Violation) : OfReport (.violation cause)
  | misfit (cause : Misfit) : OfReport (.misfit cause)

namespace Sweep

open Step

/-- Two sweeps of later passes that have made the same edits and seen the same parameters. -/
structure Level (sweep mate : Sweep) : Prop where
  buffer_eq : sweep.buffer = mate.buffer
  seen_eq : sweep.seen = mate.seen
  groups_eq : sweep.groups = none
  mate_groups_eq : mate.groups = none

/-- Without groups nothing is collected, so it makes no difference that the numbers of the missions
depend on the queue. -/
theorem level_indifferent :
    Indifferent Failure.OfReport (fun _ _ => True) (fun _ => True) Level where
  misfit := .misfit
  violation := .violation
  buffer_eq := Level.buffer_eq
  edited _ hlevel := { hlevel with buffer_eq := rfl }
  addMission _ _ _ _ _ hlevel := .ok trivial { hlevel with }
  collect site type mission other _ sweep mate hlevel := by
    simp only [collect, start_bind, start_get]
    rw [hlevel.groups_eq, hlevel.mate_groups_eq]
    exact .ok rfl hlevel
  seen_iff _ hlevel := by rw [hlevel.seen_eq]
  looked _ hlevel := { hlevel with seen_eq := congrArg (List.cons _) hlevel.seen_eq }

end Sweep

open Step Sweep in
/-- **Later passes.**  Whether diagnostics can be resolved without groups is decided by the
edits and the parameters seen before, and what stands in the way lies in the report. -/
theorem resolveDiagnostics_agree (result : Parse) (diagnostics : List Diagnostic) :
    Agree Failure.OfReport Eq Level (resolveDiagnostics result.tree.index result diagnostics)
      (resolveDiagnostics result.tree.index result diagnostics) := by
  induction diagnostics with
  | nil => exact agree_pure rfl
  | cons diagnostic rest ih =>
      unfold resolveDiagnostics
      refine agree_bind (level_indifferent.resolveDiagnostic_agree fun _ _ _ => trivial) ?_
      rintro resolved _ rfl
      refine agree_bind ih ?_
      rintro others _ rfl
      exact agree_pure rfl

/-! ## What stands in the way of a later pass -/

/-- The failure that ends a later pass over a report of `text`, if there is one. -/
def Parse.hindrance? (result : Parse) (text : Text) : Option Failure :=
  match ((resolveDiagnostics result.tree.index result result.diagnostics).start
      { buffer := { text } }).1 with
  | .ok _ => none
  | .error failure => some failure

theorem Parse.ofReport_of_hindrance? {result : Parse} {text : Text} {failure : Failure}
    (h : result.hindrance? text = some failure) : failure.OfReport := by
  have hagree := resolveDiagnostics_agree result result.diagnostics
    { buffer := { text } } { buffer := { text } } ⟨rfl, rfl, rfl, rfl⟩
  unfold hindrance? at h
  generalize (resolveDiagnostics result.tree.index result result.diagnostics).start
    { buffer := { text } } = outcome at h hagree
  rcases outcome with ⟨cause | count, after⟩
  · cases h
    cases hagree with
    | error hfailure hstate => exact hfailure
  · cases h

/-- A pass that is not the first one ends as its report has it, whatever waits in the
queue. -/
theorem fst_makePass {options : Options} {number : Nat} {result : Parse} {text : Text}
    {before : Workspace} (hlater : number ≠ 1) (hfresh : before.buffer = { text }) :
    ((makePass options number result).start before).1 =
      match result.hindrance? text with
      | none => .ok ⟨⟩
      | some failure => .error failure := by
  -- the sweep of the pass agrees with one that has an empty queue and an empty journal
  have hagree := resolveDiagnostics_agree result result.diagnostics
    { before with groups := none } { buffer := { text } } ⟨hfresh, rfl, rfl, rfl⟩
  rw [makePass, Step.start_bind, sweep, Step.start_of, decide_eq_false hlater]
  unfold Parse.hindrance?
  dsimp only
  generalize (resolveDiagnostics result.tree.index result result.diagnostics).start
    { buffer := { text } } = alone at hagree ⊢
  rw [if_neg Bool.false_ne_true]
  generalize (resolveDiagnostics result.tree.index result result.diagnostics).start
    { before with groups := none } = outcome at hagree ⊢
  cases hagree with
  | ok hvalue hstate =>
      dsimp only [Except.map]
      rw [hstate.groups_eq]
      rfl
  | error hfailure hstate => rfl

end SyntaxRepair
