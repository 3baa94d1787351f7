import SyntaxRepair.Setup
import SyntaxRepair.Proofs.Repair.Agreement

/-!
# Repairs with parsers that answer alike

A repair learns from its parser only what it answers.  If two parsers answer alike, then so do
the repairs, and what held between the states of the parsers holds in the end
(`Run.repair_agree`).

From this follow two facts about a repair in a world of files and processes.  It touches neither
the files nor what was printed (`Setup.quiet_repair`).  And where a process does the same whenever
it is called in the same way, a repair depends on nothing but its text
(`Setup.repair_eq_of_answers`).
-/

namespace SyntaxRepair

namespace Run

open Step

variable {σ τ α : Type} {R : σ → τ → Prop} {parser : Parser σ} {mate : Parser τ}

/-- Two repairs that have come equally far, with the states of their parsers related. -/
structure Mirrors (R : σ → τ → Prop) (run : Run σ) (twin : Run τ) : Prop where
  workspace_eq : run.toWorkspace = twin.toWorkspace
  parsed_eq : run.parsed = twin.parsed
  parser : R run.parser twin.parser

/-- What only the workspace decides is the same in both repairs. -/
theorem onWorkspace_agree (step : Step Workspace α) :
    Agree (fun _ => True) Eq (Mirrors R) (onWorkspace step) (onWorkspace step) := by
  intro run twin hmirrors
  simp only [onWorkspace, start_within]
  rw [hmirrors.workspace_eq]
  rcases step.start twin.toWorkspace with ⟨failure | value, after⟩
  · exact .error trivial ⟨rfl, hmirrors.parsed_eq, hmirrors.parser⟩
  · exact .ok rfl ⟨rfl, hmirrors.parsed_eq, hmirrors.parser⟩

theorem askParser_agree {text : Text}
    (hparser : Agree (fun _ => True) Eq R (parser text) (mate text)) :
    Agree (fun _ => True) Eq (Mirrors R)
      (within Run.parser (fun state run => { run with parser := state }) (parser text))
      (within Run.parser (fun state run => { run with parser := state }) (mate text)) := by
  intro run twin hmirrors
  have houtcome := hparser _ _ hmirrors.parser
  rw [start_within, start_within]
  generalize (parser text).start run.parser = outcome at houtcome ⊢
  generalize (mate text).start twin.parser = other at houtcome ⊢
  cases houtcome with
  | ok hvalue hstate => exact .ok hvalue ⟨hmirrors.workspace_eq, hmirrors.parsed_eq, hstate⟩
  | error hfailure hstate =>
      exact .error hfailure ⟨hmirrors.workspace_eq, hmirrors.parsed_eq, hstate⟩

theorem parse_agree
    (hparser : ∀ text, Agree (fun _ => True) Eq R (parser text) (mate text)) :
    Agree (fun _ => True) Eq (Mirrors R) (Run.parse parser) (Run.parse mate) := by
  unfold Run.parse
  refine agree_bind agree_get fun run twin hmirrors => ?_
  rw [hmirrors.workspace_eq]
  refine agree_bind (agree_modify fun before other hbefore => ?_) fun _ _ _ => ?_
  · exact ⟨hbefore.workspace_eq, congrArg (· ++ _) hbefore.parsed_eq, hbefore.parser⟩
  · refine agree_bind (askParser_agree (hparser _)) ?_
    rintro result _ rfl
    exact agree_bind (onWorkspace_agree _) fun _ _ _ => agree_pure rfl

theorem openPass_agree
    (hparser : ∀ text, Agree (fun _ => True) Eq R (parser text) (mate text)) (number : Nat) :
    Agree (fun _ => True) Eq (Mirrors R) (openPass parser number) (openPass mate number) := by
  unfold openPass
  refine agree_bind (parse_agree hparser) ?_
  rintro result _ rfl
  refine agree_bind agree_get fun run twin hmirrors => ?_
  dsimp only
  rw [hmirrors.workspace_eq]
  exact agree_bind (onWorkspace_agree _) fun _ _ _ => agree_pure rfl

theorem pass_agree (options : Options) (number : Nat) (result : Parse) :
    Agree (fun _ => True) Eq (Mirrors R) (pass options number result)
      (pass options number result) := by
  unfold pass
  split
  · exact agree_bind (onWorkspace_agree _) fun _ _ _ => agree_throw trivial
  · exact onWorkspace_agree _

theorem continueFrom_agree
    (hparser : ∀ text, Agree (fun _ => True) Eq R (parser text) (mate text)) (options : Options)
    (number previous : Nat) :
    Agree (fun _ => True) Eq (Mirrors R) (continueFrom parser options number previous)
      (continueFrom mate options number previous) := by
  -- every further pass is over fewer diagnostics
  induction previous using Nat.strongRecOn generalizing number with
  | _ previous ih =>
      rw [continueFrom, continueFrom]
      refine agree_bind (openPass_agree hparser number) ?_
      rintro result _ rfl
      split
      · exact agree_pure rfl
      · refine agree_bind (pass_agree options number result) fun _ _ _ => ?_
        split
        · next hfewer => exact ih _ hfewer _
        · exact agree_throw trivial

theorem untilClean_agree
    (hparser : ∀ text, Agree (fun _ => True) Eq R (parser text) (mate text)) (options : Options) :
    Agree (fun _ => True) Eq (Mirrors R) (untilClean parser options)
      (untilClean mate options) := by
  unfold untilClean
  refine agree_bind (openPass_agree hparser 1) ?_
  rintro result _ rfl
  split
  · exact agree_pure rfl
  · exact agree_bind (pass_agree options 1 result) fun _ _ _ =>
      continueFrom_agree hparser options 2 _

/-- **Parsers that answer alike.**  Repairs with two such parsers end alike. -/
theorem repair_agree
    (hparser : ∀ text, Agree (fun _ => True) Eq R (parser text) (mate text)) (options : Options) :
    Agree (fun _ => True) Eq (Mirrors R) (repair parser options) (repair mate options) := by
  unfold repair
  refine agree_bind (untilClean_agree hparser options) ?_
  rintro clean _ rfl
  refine agree_bind (onWorkspace_agree _) fun _ _ _ => ?_
  refine agree_bind agree_get fun run twin hmirrors => ?_
  rw [hmirrors.workspace_eq]
  exact agree_pure rfl

end Run

/-! ## Repairs in a world of files and processes -/

/-- Nothing but processes may have run in between: the files and what was printed are as they
were. -/
structure World.Quiet {σ : Type} (before after : World σ) : Prop where
  files_eq : after.files = before.files
  stdout_eq : after.stdout = before.stdout
  stderr_eq : after.stderr = before.stderr

/-- A runner of processes that does the same for every call like this, whatever it did before. -/
def Runner.Answers {σ : Type} (run : Runner σ) (answer : Call → Except Failure ProcessOutcome) :
    Prop :=
  ∀ call state, ((run call).start state).1 = answer call

namespace Setup

open Step

variable {σ τ : Type} {R : World σ → World τ → Prop} {run : Runner σ} {mate : Runner τ}

/-- The outcome of a process decides what the parser reports. -/
theorem parse_agree (parser : CommandParser) (text : Text)
    (hrun : ∀ call, Agree (fun _ => True) Eq R (Act.runCall run call) (Act.runCall mate call)) :
    Agree (fun _ => True) Eq R (parser.parse (Act.runCall run) text)
      (parser.parse (Act.runCall mate) text) := by
  unfold CommandParser.parse
  refine agree_bind (V := fun _ _ => True) ?_ fun _ _ _ => ?_
  · cases (Utf8.encode text).mapError Failure.unencodable with
    | error failure => exact agree_throw trivial
    | ok octets => exact agree_pure trivial
  · refine agree_bind (hrun _) ?_
    rintro outcome _ rfl
    split
    · exact agree_pure rfl
    · exact agree_throw trivial

/-- Worlds that are related before a repair are related afterwards, if the processes keep them
so and have the same outcomes; and the repairs have the same outcome. -/
theorem repair_alike (setup : Setup) (text : Text)
    (hrun : ∀ call, Agree (fun _ => True) Eq R (Act.runCall run call) (Act.runCall mate call))
    {world : World σ} {other : World τ} (hworlds : R world other) :
    ((setup.repair run text).start world).1 = ((setup.repair mate text).start other).1 ∧
      R ((setup.repair run text).start world).2 ((setup.repair mate text).start other).2 := by
  have halike := Run.repair_agree (fun text => parse_agree setup.parser text hrun)
    setup.settings.options (Run.of text world) (Run.of text other) ⟨rfl, rfl, hworlds⟩
  simp only [repair, Act.ofStep, Act.start_of, Step.start_of]
  generalize (SyntaxRepair.repair (setup.parser.parse (Act.runCall run))
    setup.settings.options).start (Run.of text world) = outcome at halike ⊢
  generalize (SyntaxRepair.repair (setup.parser.parse (Act.runCall mate))
    setup.settings.options).start (Run.of text other) = twin at halike ⊢
  cases halike with
  | ok hvalue hmirrors => exact ⟨congrArg _ (congrArg _ hvalue), hmirrors.parser⟩
  | error hfailure hmirrors => exact ⟨rfl, hmirrors.parser⟩

/-- A repair runs processes and does nothing else to the world. -/
theorem quiet_repair (setup : Setup) (run : Runner σ) (text : Text) (world : World σ) :
    world.Quiet ((setup.repair run text).start world).2 := by
  have hrun : ∀ call, Agree (fun _ => True) Eq (fun after twin => world.Quiet after ∧ after = twin)
      (Act.runCall run call) (Act.runCall run call) := by
    rintro call after _ ⟨hquiet, rfl⟩
    simp only [Act.runCall, start_bind, start_modify, start_within]
    rcases (run call).start after.process with ⟨failure | outcome, state⟩
    · exact .error trivial ⟨⟨hquiet.files_eq, hquiet.stdout_eq, hquiet.stderr_eq⟩, rfl⟩
    · exact .ok rfl ⟨⟨hquiet.files_eq, hquiet.stdout_eq, hquiet.stderr_eq⟩, rfl⟩
  have hbegin : world.Quiet world ∧ world = world := ⟨⟨rfl, rfl, rfl⟩, rfl⟩
  exact (repair_alike setup text hrun hbegin).2.1

/-- **Processes that always do the same.**  Then a repair is a function of its text. -/
theorem repair_eq_of_answers {answer : Call → Except Failure ProcessOutcome}
    (hanswer : run.Answers answer) (setup : Setup) (text : Text) (world other : World σ) :
    ((setup.repair run text).start world).1 = ((setup.repair run text).start other).1 := by
  refine (repair_alike (R := fun _ _ => True) setup text (fun call => ?_) trivial).1
  intro after twin _
  have hfirst := hanswer call after.process
  have hsecond := hanswer call twin.process
  simp only [Act.runCall, start_bind, start_modify, start_within]
  generalize (run call).start after.process = outcome at hfirst ⊢
  generalize (run call).start twin.process = other at hsecond ⊢
  obtain ⟨result, state⟩ := outcome
  obtain ⟨result', state'⟩ := other
  obtain rfl : result = result' := hfirst.trans hsecond.symm
  cases result with
  | error failure => exact .error trivial trivial
  | ok value => exact .ok rfl trivial

end Setup

end SyntaxRepair
