import SyntaxRepair.Command.Options
import SyntaxRepair.Proofs.Settings.Reading

/-!
# The setup that the arguments ask for

Choosing a setup looks at the files and leaves the world as it is (`start_setupOf`).  The setup is
made from the settings in a file, or the default ones, with the parser and its command overridden by
the options (`fst_setupOf_eq_ok`).  If there is no setup, the command tells so, with one exception:
a document with too many brackets inside one another (`setupOf_refused`).
-/

namespace SyntaxRepair.Command

variable {σ : Type}

theorem looks_setupOf (arguments : Arguments) : (setupOf arguments : Act σ Setup).Looks := by
  unfold setupOf settingsOf
  refine Act.Looks.bind ?_ fun settings => Act.looks_orThrow _ _
  dsimp only
  split
  · exact (Act.looks_readSettings _).bind fun settings => Act.looks_pure _
  · exact (Act.looks_pure _).bind fun settings => Act.looks_pure _

/-- Choosing a setup leaves the world as it is. -/
theorem start_setupOf (arguments : Arguments) (world : World σ) :
    (setupOf arguments).start world = (((setupOf arguments).start world).1, world) :=
  Prod.ext rfl (looks_setupOf arguments world)

/-- The setup that is chosen without options. -/
def defaultSetup : Setup := ⟨{}, ⟨.prism, prismCommand, .int 60⟩⟩

theorem fst_setupOf_of_values_eq_nil {arguments : Arguments} (h : arguments.values = [])
    (world : World σ) : ((setupOf arguments).start world).1 = .ok defaultSetup := by
  have hvalue : ∀ spec, arguments.value? spec = none := by
    intro spec
    rw [Arguments.value?, h]
    rfl
  rw [setupOf, settingsOf, hvalue, hvalue, hvalue]
  rfl

/-! ## Settings that are used -/

/-- The settings that the options start from: those in a file, or the default ones. -/
def Arguments.Reads (arguments : Arguments) (store : FileStore) (settings : Settings) : Prop :=
  match arguments.value? settingsOption with
  | some path => ∃ text value, store.readText (Path.ofText path) = .ok text ∧
      Json.parse text = .ok value ∧ Settings.ofValue value = .ok settings
  | none => settings = {}

/-- Settings with the parser and its command overridden by the options. -/
def Arguments.override (arguments : Arguments) (settings : Settings) : Settings :=
  { settings with
    parser := ((arguments.value? parserOption).bind ParserChoice.ofName?).getD settings.parser
    command := (arguments.value? commandOption).orElse fun _ => settings.command }

theorem fst_settingsOf_eq_ok {arguments : Arguments} {world : World σ} {settings : Settings} :
    ((settingsOf arguments).start world).1 = .ok settings ↔
      ∃ chosen, arguments.Reads world.files chosen ∧ arguments.override chosen = settings := by
  unfold settingsOf Arguments.Reads
  cases arguments.value? settingsOption with
  | none => simp [Arguments.override]
  | some path =>
      dsimp only
      simp only [← Act.fst_readSettings_eq_ok]
      rw [Act.start_bind]
      rcases (Act.readSettings (Path.ofText path)).start world with ⟨error | chosen, after⟩ <;>
        simp [Arguments.override]

/-- The setup of the settings that the options start from, overridden by them. -/
theorem fst_setupOf_eq_ok {arguments : Arguments} {world : World σ} {setup : Setup} :
    ((setupOf arguments).start world).1 = .ok setup ↔
      ∃ settings, arguments.Reads world.files settings ∧
        Setup.ofSettings (arguments.override settings) = .ok setup := by
  have hstart : ((setupOf arguments).start world).1 = .ok setup ↔
      ∃ settings, ((settingsOf arguments).start world).1 = .ok settings ∧
        Setup.ofSettings settings = .ok setup := by
    rw [setupOf, Act.start_bind]
    rcases (settingsOf arguments).start world with ⟨error | settings, after⟩
    · simp
    · cases hsetup : Setup.ofSettings settings <;> simp [hsetup, Except.mapError]
  simp only [hstart, fst_settingsOf_eq_ok]
  constructor
  · rintro ⟨_, ⟨settings, hreads, rfl⟩, hsetup⟩
    exact ⟨settings, hreads, hsetup⟩
  · rintro ⟨settings, hreads, hsetup⟩
    exact ⟨_, ⟨settings, hreads, rfl⟩, hsetup⟩

/-- Where the values and the document are the same, the setup is. -/
theorem fst_setupOf_of_reads {arguments others : Arguments} {world other : World σ} {setup : Setup}
    (hvalues : others.values = arguments.values)
    (hkept : ∀ path text, arguments.value? settingsOption = some path →
      world.files.readText (Path.ofText path) = .ok text →
        other.files.readText (Path.ofText path) = .ok text)
    (h : ((setupOf arguments).start world).1 = .ok setup) :
    ((setupOf others).start other).1 = .ok setup := by
  have hvalue : others.value? = arguments.value? := by
    funext spec
    rw [Arguments.value?, Arguments.value?, hvalues]
  obtain ⟨settings, hreads, hsetup⟩ := fst_setupOf_eq_ok.mp h
  refine fst_setupOf_eq_ok.mpr ⟨settings, ?_, ?_⟩
  · unfold Arguments.Reads at hreads ⊢
    rw [hvalue]
    cases hpath : arguments.value? settingsOption with
    | none => rwa [hpath] at hreads
    | some path =>
        rw [hpath] at hreads
        obtain ⟨text, value, hread, hparse, hform⟩ := hreads
        exact ⟨text, value, hkept path text hpath hread, hparse, hform⟩
  · unfold Arguments.override at hsetup ⊢
    rw [hvalue]
    exact hsetup

/-! ## Settings that are not used -/

/-- An error that keeps settings from being used: it is told, or too many brackets of the document
stand inside one another. -/
def Refused (error : Error) : Prop :=
  error.isSettings = true ∨ error.isValue = true ∨
    error = .failure (.misfit .deepArray) ∨ error = .failure (.misfit .deepObject)

theorem readSettings_refused {path : Path} {before after : World σ} {error : Error}
    (h : (Act.readSettings path).start before = (.error error, after)) : Refused error := by
  cases hsettings : error.isSettings with
  | true => exact .inl hsettings
  | false =>
      have herror : ((Act.readSettings path).start before).1 = .error error := by rw [h]
      cases Act.fst_readSettings_eq_error_iff.mp ⟨herror, hsettings⟩ with
      | nullInPath _ => exact .inr (.inl rfl)
      | notText _ _ _ => exact .inr (.inl rfl)
      | beyond _ _ _ hbeyond =>
          cases hbeyond with
          | longNumber digits => exact .inr (.inl rfl)
          | deepArray => exact .inr (.inr (.inl rfl))
          | deepObject => exact .inr (.inr (.inr rfl))

theorem settingsOf_refused {arguments : Arguments} {before after : World σ} {error : Error}
    (h : (settingsOf arguments).start before = (.error error, after)) : Refused error := by
  rw [settingsOf] at h
  dsimp only at h
  split at h
  · next path _ =>
      rw [Act.start_bind] at h
      cases hread : (Act.readSettings (Path.ofText path)).start before with
      | mk outcome between =>
          rw [hread] at h
          cases outcome with
          | error cause =>
              cases h
              exact readSettings_refused hread
          | ok settings => cases h
  · cases h

theorem setupOf_refused {arguments : Arguments} {before : World σ} {error : Error}
    (h : ((setupOf arguments).start before).1 = .error error) : Refused error := by
  rw [setupOf, Act.start_bind] at h
  cases hsettings : (settingsOf arguments).start before with
  | mk outcome between =>
      rw [hsettings] at h
      cases outcome with
      | error cause =>
          cases h
          exact settingsOf_refused hsettings
      | ok settings =>
          dsimp only at h
          rw [Act.start_orThrow] at h
          cases hsetup : Setup.ofSettings settings with
          | error refusal =>
              rw [hsetup] at h
              cases h
              exact .inr (.inl rfl)
          | ok setup =>
              rw [hsetup] at h
              cases h

end SyntaxRepair.Command
