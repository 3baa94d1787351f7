import SyntaxRepair.Proofs.Command.Acts
import SyntaxRepair.Proofs.Json.Misfits
import SyntaxRepair.Proofs.Settings.Format
import SyntaxRepair.Proofs.Text.Octets

/-!
# Settings in files

A file holds settings if its octets are those of a text, the text is JSON in the format of settings,
and a command parser comes with a command (`FileStore.HoldsSettings`).  Exactly then they are read,
and in nearly every other case it is told that they can not be used (`Act.readSettings_outcome`).
What is not told so is passed on as it is (`FileStore.Unread`): a null character in the path, octets
that are no text, and a document beyond the reader of JSON.
-/

namespace SyntaxRepair

open Settings (IsSettings HasParser)

variable {σ : Type}

/-! ## What a file holds -/

namespace FileStore

variable {store : FileStore} {path : Path} {settings : Settings} {error : Error}

/-- The settings that a file holds. -/
def HoldsSettings (store : FileStore) (path : Path) (settings : Settings) : Prop :=
  ∃ octets text value, store.read path = .ok octets ∧ Utf8.encode text = .ok octets ∧
    Json.parse text.unifyNewlines = .ok value ∧ IsSettings value ∧ HasParser value ∧
      Settings.read value = settings

/-- What keeps settings from being read without being a fault of them. -/
inductive Unread (store : FileStore) (path : Path) : Error → Prop
  | nullInPath : path.text.contains (.char '\x00') = true →
      Unread store path (.file ⟨.nullInPath, path⟩)
  /-- The octets are those of no text. -/
  | notText {octets fault} : store.read path = .ok octets →
      (∀ text, Utf8.encode text ≠ .ok octets) → Utf8.decode octets = .error fault →
      Unread store path (.notText fault)
  /-- A number has too many digits, or too many brackets stand inside one another. -/
  | beyond {octets text cause} : store.read path = .ok octets → Utf8.encode text = .ok octets →
      Json.parse text.unifyNewlines = .error (.misfit cause) → Json.Beyond cause →
      Unread store path (.failure (.misfit cause))

theorem holdsSettings_iff :
    store.HoldsSettings path settings ↔
      ∃ text value, store.readText path = .ok text ∧ Json.parse text = .ok value ∧
        Settings.ofValue value = .ok settings := by
  constructor
  · rintro ⟨octets, found, value, hread, hencode, hparse, hformat, hparser, hvalue⟩
    refine ⟨_, value, readText_eq_ok.mpr ⟨octets, found, hread, ?_, rfl⟩, hparse, ?_⟩
    · exact Utf8.decode_eq_ok_iff.mpr hencode
    · exact Settings.ofValue_eq_ok_iff.mpr ⟨hformat, hparser, hvalue⟩
  · rintro ⟨text, value, htext, hparse, hvalue⟩
    obtain ⟨octets, found, hread, hdecode, rfl⟩ := readText_eq_ok.mp htext
    exact ⟨octets, found, value, hread, Utf8.decode_eq_ok_iff.mp hdecode, hparse,
      Settings.ofValue_eq_ok_iff.mp hvalue⟩

theorem unread_iff :
    store.Unread path error ↔
      (store.readText path = .error error ∧ error.isSystem = false) ∨
        ∃ text cause, store.readText path = .ok text ∧
          Json.parse text = .error (.misfit cause) ∧ .failure (.misfit cause) = error := by
  constructor
  · rintro (hnull | ⟨hread, hnone, hdecode⟩ | ⟨hread, hencode, hparse, -⟩)
    · exact .inl ⟨readText_eq_error_iff.mpr (.inl ⟨_, read_eq_nullInPath.mpr hnull, rfl⟩), rfl⟩
    · exact .inl ⟨readText_eq_error_iff.mpr (.inr ⟨_, _, hread, hdecode, rfl⟩), rfl⟩
    · exact .inr ⟨_, _, readText_eq_ok.mpr ⟨_, _, hread, Utf8.decode_eq_ok_iff.mpr hencode, rfl⟩,
        hparse, rfl⟩
  · rintro (⟨htext, hsystem⟩ | ⟨text, cause, htext, hparse, rfl⟩)
    · rcases readText_eq_error_iff.mp htext with
        ⟨fault, hread, rfl⟩ | ⟨octets, fault, hread, hdecode, rfl⟩
      · obtain ⟨hpath, hnull⟩ := read_eq_error hread
        obtain ⟨problem, place⟩ := fault
        obtain rfl : place = path := hpath
        obtain rfl : problem = .nullInPath := by simpa [Error.isSystem] using hsystem
        exact .nullInPath (hnull rfl)
      · refine .notText hread (fun text hencode => ?_) hdecode
        rw [Utf8.decode_encode hencode] at hdecode
        cases hdecode
    · obtain ⟨octets, found, hread, hdecode, rfl⟩ := readText_eq_ok.mp htext
      exact .beyond hread (Utf8.decode_eq_ok_iff.mp hdecode) hparse (Json.parse_misfit hparse)

theorem unread_iff_of_error {cause : Error} (hread : store.readText path = .error cause) :
    store.Unread path error ↔ cause = error ∧ error.isSystem = false := by
  rw [unread_iff, hread]
  simp

theorem unread_iff_of_text {text : Text} (hread : store.readText path = .ok text) :
    store.Unread path error ↔
      ∃ cause, Json.parse text = .error (.misfit cause) ∧ .failure (.misfit cause) = error := by
  rw [unread_iff, hread]
  simp

theorem isSettings_of_readText {cause : Error} (hread : store.readText path = .error cause) :
    cause.isSettings = false := by
  rcases readText_eq_error_iff.mp hread with ⟨_, -, rfl⟩ | ⟨_, _, -, -, rfl⟩
  · rfl
  · rfl

end FileStore

/-! ## Reading -/

namespace Act

theorem looks_readSettings (path : Path) : (readSettings path : Act σ Settings).Looks := by
  unfold readSettings
  refine (looks_readText path).attempt.bind fun outcome => ?_
  split
  · exact looks_throw _
  · split
    · exact looks_throw _
    · exact looks_throw _
    · exact looks_orThrow _ _

section

variable {path : Path} {world : World σ} {text : Text}

theorem fst_readSettings_of_unread {cause : Error}
    (hread : world.files.readText path = .error cause) :
    ((readSettings path).start world).1 = .error (if cause.isSystem then
      .settings (.unreadable path.text cause.message) else cause) := by
  rw [readSettings, start_bind_of_ok (start_attempt _ _), start_readText, hread]
  rfl

theorem fst_readSettings_of_malformed {fault : Json.Fault}
    (hread : world.files.readText path = .ok text)
    (hparse : Json.parse text = .error (.malformed fault)) :
    ((readSettings path).start world).1 =
      .error (.settings (.unreadable path.text (fault.message text))) := by
  rw [readSettings, start_bind_of_ok (start_attempt _ _), start_readText, hread]
  dsimp only
  rw [hparse]
  rfl

theorem fst_readSettings_of_misfit {cause : Misfit}
    (hread : world.files.readText path = .ok text)
    (hparse : Json.parse text = .error (.misfit cause)) :
    ((readSettings path).start world).1 = .error (.failure (.misfit cause)) := by
  rw [readSettings, start_bind_of_ok (start_attempt _ _), start_readText, hread]
  dsimp only
  rw [hparse]
  rfl

theorem fst_readSettings_of_value {value : Json.Value}
    (hread : world.files.readText path = .ok text) (hparse : Json.parse text = .ok value) :
    ((readSettings path).start world).1 = (Settings.ofValue value).mapError Error.settings := by
  rw [readSettings, start_bind_of_ok (start_attempt _ _), start_readText, hread]
  dsimp only
  rw [hparse]
  dsimp only
  rw [start_orThrow]

/-- The settings of a document that has their form. -/
theorem fst_readSettings_eq_ok {settings : Settings} :
    ((readSettings path).start world).1 = .ok settings ↔
      ∃ text value, world.files.readText path = .ok text ∧ Json.parse text = .ok value ∧
        Settings.ofValue value = .ok settings := by
  cases hread : world.files.readText path with
  | error cause => simp [fst_readSettings_of_unread hread]
  | ok text =>
      cases hparse : Json.parse text with
      | error refusal =>
          cases refusal with
          | malformed fault => simp [fst_readSettings_of_malformed hread hparse, hparse]
          | misfit cause => simp [fst_readSettings_of_misfit hread hparse, hparse]
      | ok value =>
          rw [fst_readSettings_of_value hread hparse]
          cases hvalue : Settings.ofValue value <;> simp [hparse, hvalue, Except.mapError]

/-- What is passed on as it is. -/
theorem fst_readSettings_eq_error_iff {error : Error} :
    ((readSettings path).start world).1 = .error error ∧ error.isSettings = false ↔
      world.files.Unread path error := by
  -- a fault of the settings is not passed on
  have htold : ∀ fault, ¬ ((.error (.settings fault) : Except Error Settings) = .error error ∧
      error.isSettings = false) := by
    rintro fault ⟨hsame, hsettings⟩
    cases hsame
    cases hsettings
  cases hread : world.files.readText path with
  | error cause =>
      rw [fst_readSettings_of_unread hread, FileStore.unread_iff_of_error hread]
      cases hsystem : cause.isSystem with
      | true =>
          refine iff_of_false (htold _) ?_
          rintro ⟨rfl, hnone⟩
          rw [hsystem] at hnone
          cases hnone
      | false =>
          constructor
          · rintro ⟨hsame, -⟩
            cases hsame
            exact ⟨rfl, hsystem⟩
          · rintro ⟨rfl, -⟩
            exact ⟨rfl, FileStore.isSettings_of_readText hread⟩
  | ok text =>
      rw [FileStore.unread_iff_of_text hread]
      cases hparse : Json.parse text with
      | ok value =>
          rw [fst_readSettings_of_value hread hparse]
          cases Settings.ofValue value with
          | ok settings => simp [Except.mapError]
          | error fault => exact iff_of_false (htold fault) (by simp)
      | error refusal =>
          cases refusal with
          | malformed fault =>
              rw [fst_readSettings_of_malformed hread hparse]
              exact iff_of_false (htold _) (by simp)
          | misfit cause =>
              rw [fst_readSettings_of_misfit hread hparse]
              constructor
              · rintro ⟨hsame, -⟩
                cases hsame
                exact ⟨cause, rfl, rfl⟩
              · rintro ⟨_, hcause, rfl⟩
                cases hcause
                exact ⟨rfl, rfl⟩

end

/-- **Reading settings.**  The world stays as it is, and the settings are those that the file holds.
If it holds none, that is told as a fault of the settings, but for the errors that are passed on. -/
theorem readSettings_outcome (path : Path) (world : World σ) :
    let outcome := (readSettings path).start world
    outcome.2 = world ∧
      (∀ settings, outcome.1 = .ok settings ↔ world.files.HoldsSettings path settings) ∧
      (∀ error, outcome.1 = .error error ∧ error.isSettings = false ↔
        world.files.Unread path error) ∧
      ((∃ error, outcome.1 = .error error ∧ error.isSettings = true) ↔
        (∀ settings, ¬ world.files.HoldsSettings path settings) ∧
          ∀ error, ¬ world.files.Unread path error) := by
  have hholds : ∀ settings, ((readSettings path).start world).1 = .ok settings ↔
      world.files.HoldsSettings path settings := fun settings =>
    fst_readSettings_eq_ok.trans FileStore.holdsSettings_iff.symm
  refine ⟨looks_readSettings path world, hholds, fun error => fst_readSettings_eq_error_iff,
    ?_⟩
  simp only [← hholds, ← fst_readSettings_eq_error_iff]
  cases ((readSettings path).start world).1 with
  | ok settings => simp
  | error error => simp

/-- An octet that begins no character is passed on as what it is, and not as a fault of the
settings. -/
theorem readSettings_ill_formed :
    let files : FileStore := { entries := [([Text.ofString "c.json"], .file [0xFF])] }
    ((readSettings (Path.ofText "c.json") : Act Unit Settings).start { files, process := () }).1 =
      .error (.notText ⟨0, 0xFF, 1, .invalidStart⟩) := by
  decide +kernel

end Act

end SyntaxRepair
