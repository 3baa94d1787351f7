import SyntaxRepair.Command.Arguments
import SyntaxRepair.Proofs.Sequences

/-!
# A flag in front of other arguments

Options are applied from left to right, and each of them only adds to what was given before it.
Hence a flag in front of arguments that follow the grammar leaves all else as it is
(`Grammar.read_cons_flag`): it is the first of the flags that were given, and so the last one of
their list.
-/

namespace SyntaxRepair.Command

variable {spec : OptionSpec}

/-- Arguments behind one more flag. -/
def Arguments.behind (spec : OptionSpec) (arguments : Arguments) : Arguments :=
  { arguments with flags := arguments.flags ++ [spec] }

/-- Arguments half read, behind one more flag. -/
def Progress.behind (spec : OptionSpec) (progress : Progress) : Progress :=
  { progress with arguments := progress.arguments.behind spec }

theorem Arguments.has_behind (spec : OptionSpec) (arguments : Arguments) :
    (arguments.behind spec).has spec = true := by
  simp [Arguments.has, Arguments.behind]

theorem Arguments.has_behind_of_ne {other : OptionSpec} (hother : other ≠ spec)
    (arguments : Arguments) : (arguments.behind spec).has other = arguments.has other := by
  simp [Arguments.has, Arguments.behind, hother]

/-- An option does not look at what was given before. -/
theorem Taken.apply_behind (taken : Taken) (arguments : Arguments) :
    taken.apply (arguments.behind spec) = (taken.apply arguments).map (Arguments.behind spec) := by
  unfold Taken.apply
  split
  · rfl
  · split
    · rfl
    · split <;> rfl
  · rfl

theorem applyAll_behind (taken : List Taken) (arguments : Arguments) :
    taken.foldlM (fun arguments (option : Taken) => option.apply arguments)
        (arguments.behind spec) =
      (taken.foldlM (fun arguments (option : Taken) => option.apply arguments) arguments).map
        (Arguments.behind spec) := by
  induction taken generalizing arguments with
  | nil => rfl
  | cons option rest ih =>
      rw [List.foldlM_cons, List.foldlM_cons, Taken.apply_behind]
      cases option.apply arguments with
      | error stop => rfl
      | ok next => exact ih next

namespace Grammar

variable {grammar : Grammar}

theorem takeOperands_behind (tokens : List Token) (progress : Progress) :
    grammar.takeOperands tokens (progress.behind spec) =
      (grammar.takeOperands tokens progress).behind spec := by
  obtain ⟨arguments, served, extra⟩ := progress
  cases served with
  | true => rfl
  | false =>
      by_cases hcount : grammar.operandCount tokens = 0
      · simp [takeOperands, Progress.behind, hcount]
      · simp [takeOperands, Progress.behind, Arguments.behind, hcount]

/-- No token looks at what was given before. -/
theorem takeAll_behind (progress : Progress) (tokens : List Token) :
    grammar.takeAll (progress.behind spec) tokens =
      (grammar.takeAll progress tokens).map (Progress.behind spec) := by
  fun_induction takeAll grammar progress tokens with
  | case1 progress =>
      rw [takeAll]
      rfl
  | case2 progress argument rest ih =>
      rw [takeAll]
      exact ih
  | case3 progress use rest ih =>
      have happly (taken : List Taken) (unused : Nat) :
          (do
            let arguments ← taken.foldlM
              (fun arguments (option : Taken) => option.apply arguments)
              (progress.arguments.behind spec)
            grammar.takeAll { progress with arguments } (rest.drop unused)) =
          Except.map (Progress.behind spec) (do
            let arguments ← taken.foldlM
              (fun arguments (option : Taken) => option.apply arguments) progress.arguments
            grammar.takeAll { progress with arguments } (rest.drop unused)) := by
        rw [applyAll_behind]
        cases taken.foldlM (fun arguments (option : Taken) => option.apply arguments)
          progress.arguments with
        | error stop => rfl
        | ok arguments => exact ih unused arguments
      rw [takeAll]
      cases grammar.clusterOf use with
      | error stop => rfl
      | ok cluster =>
          dsimp only [Progress.behind, bind, Except.bind]
          cases cluster.last with
          | none => exact happly cluster.taken 0
          | some last =>
              dsimp only
              split
              · split
                · exact happly _ 1
                · rfl
              · exact happly _ 0
  | case4 progress token rest hunknown hoption run ih =>
      rw [takeAll, takeOperands_behind]
      · exact ih
      · exact hunknown
      · exact hoption

/-- A flag by itself is applied at once. -/
theorem takeAll_cons_flag {name : Text} (hflag : spec.role = .flag) (progress : Progress)
    (rest : List Token) :
    grammar.takeAll progress (.option ⟨spec, name, none⟩ :: rest) =
      grammar.takeAll
        { progress with
          arguments := { progress.arguments with flags := spec :: progress.arguments.flags } }
        rest := by
  have hvalue : spec.takesValue = false := by
    rw [OptionSpec.takesValue, hflag]
  have happly : (⟨spec, none⟩ : Taken).apply progress.arguments =
      .ok { progress.arguments with flags := spec :: progress.arguments.flags } := by
    simp only [Taken.apply, hflag]
  rw [takeAll]
  dsimp only [clusterOf, bind, Except.bind]
  rw [hvalue, if_neg Bool.false_ne_true]
  dsimp only [pure, Except.pure, List.nil_append]
  rw [List.foldlM_cons, happly]
  rfl

/-- **A flag in front.**  It is added to what the arguments behind it say. -/
theorem read_cons_flag {given : List Text} {arguments : Arguments} {name : Text}
    (hflag : spec.role = .flag) (hname : name ≠ "--")
    (htoken : grammar.readToken name = .ok (.option ⟨spec, name, none⟩))
    (h : grammar.read given = .ok arguments) :
    grammar.read (name :: given) = .ok (arguments.behind spec) := by
  rw [read, except_bind_eq_ok] at h
  obtain ⟨tokens, htokens, h⟩ := h
  obtain ⟨progress, hprogress, h⟩ := except_bind_eq_ok.mp h
  have hall : grammar.takeAll {} (.option ⟨spec, name, none⟩ :: tokens) =
      .ok (progress.behind spec) := by
    rw [takeAll_cons_flag hflag]
    exact (takeAll_behind {} tokens).trans (congrArg _ hprogress)
  rw [read, readTokens, if_neg hname, htoken, htokens]
  refine except_bind_eq_ok.mpr ⟨_, rfl, except_bind_eq_ok.mpr ⟨_, hall, ?_⟩⟩
  split at h
  · cases h
  · next hserved =>
    split at h
    · cases h
    · next hextra =>
      obtain rfl := Except.ok.inj h
      exact (if_neg hserved).trans (if_neg hextra)

end Grammar

end SyntaxRepair.Command
