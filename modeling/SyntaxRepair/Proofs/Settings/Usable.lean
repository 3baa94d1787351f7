import SyntaxRepair.Setup
import SyntaxRepair.Proofs.Json.Misfits
import SyntaxRepair.Proofs.Settings.Format

/-!
# Settings that are used

Settings that are read choose a parser (`Settings.usable_of_ofValue`): their names, numbers and
choice are as the document has them or as they are by default, and there is a setup for them.

The parser that they choose tells whatever becomes of its process, as a report or as a fault, with
three exceptions (`CommandParser.Untold`).  A process that may not be run and a report beyond the
reader of JSON are failures of another kind; and a parser without a command has no name to tell of
when it is not found.  Nothing keeps the settings from choosing such a parser: a command must not be
empty, but it may be blank.
-/

namespace SyntaxRepair

open Json (Value)

variable {σ : Type}

/-! ## The parser of some settings -/

theorem Text.words_cons_ne_nil {c : CodePoint} {rest : Text} (hc : isBlank c = false) :
    words (c :: rest) ≠ [] := by
  rw [words.eq_def]
  dsimp only
  rw [if_neg (Bool.eq_false_iff.mp hc)]
  cases rest with
  | nil => exact List.cons_ne_nil _ _
  | cons next others =>
      dsimp only
      cases isBlank next with
      | true => exact List.cons_ne_nil _ _
      | false => cases words (next :: others) <;> exact List.cons_ne_nil _ _

theorem Text.words_eq_nil_iff {text : Text} :
    text.words = [] ↔ ∀ c ∈ text, Text.isBlank c = true := by
  induction text with
  | nil => exact iff_of_true rfl (List.forall_mem_nil _)
  | cons c rest ih =>
      rw [List.forall_mem_cons]
      cases hc : isBlank c with
      | true =>
          rw [words.eq_def]
          dsimp only
          rw [if_pos hc, ih, and_iff_right rfl]
      | false => exact iff_of_false (words_cons_ne_nil hc) fun h => Bool.false_ne_true h.1

namespace CommandParser

variable {choice : ParserChoice} {command : Option Text} {limit : Json.Number}
  {parser : CommandParser}

/-- The name of a choice is found whatever is done to names that are typed in. -/
theorem ofName_name (choice : ParserChoice) (command : Option Text) (limit : Json.Number) :
    ofName choice.name command limit = ofChoice choice command limit := by
  have hlower : Text.lowerCase choice.name = choice.name := by cases choice <;> decide +kernel
  have htrim : Text.trim choice.name = choice.name := by cases choice <;> decide
  rw [ofName, hlower, htrim, ParserChoice.ofName?_name]

theorem exists_ofChoice (h : choice = .command → Settings.hasCommand command = true) :
    ∃ parser, ofChoice choice command limit = .ok parser := by
  cases choice with
  | prism => exact ⟨_, rfl⟩
  | command =>
      obtain ⟨c, rest, hline⟩ := List.exists_cons_of_ne_nil (of_decide_eq_true (h rfl))
      exact ⟨⟨.command, Text.words (c :: rest), limit⟩, by rw [ofChoice, hline]⟩

/-- A parser has no command exactly if the one that is given for it is blank. -/
theorem command_eq_nil_iff (h : ofChoice choice command limit = .ok parser) :
    parser.command = [] ↔
      choice = .command ∧ ∀ c ∈ command.getD [], Text.isBlank c = true := by
  rw [← Text.words_eq_nil_iff]
  cases choice with
  | prism =>
      obtain rfl := Except.ok.inj h
      exact iff_of_false (List.cons_ne_nil _ _) fun hchoice => nomatch hchoice.1
  | command =>
      rw [and_iff_right rfl]
      unfold ofChoice at h
      dsimp only at h
      split at h
      · cases h
      · obtain rfl := Except.ok.inj h
        rfl

/-! ## What a parser tells -/

/-- What a parser tells: a result, or its fault. -/
def Told (outcome : Except Failure Parse) : Prop :=
  (∃ result, outcome = .ok result) ∨ ∃ fault, outcome = .error (.parser fault)

/-- What may become of a process without being told as a fault of the parser. -/
def Untold (parser : CommandParser) : ProcessOutcome → Prop
  | .notFound => parser.command = []
  | .timedOut => False
  | .permissionDenied => True
  | .ended status stdout _ =>
    status = 0 ∧ ∃ cause, Json.Beyond cause ∧
      Json.parse (Utf8.decodeLossy stdout) = .error (.misfit cause)

theorem told_of_mapError (outcome : Except ParserFault Parse) :
    Told (outcome.mapError Failure.parser) := by
  cases outcome with
  | ok result => exact .inl ⟨result, rfl⟩
  | error fault => exact .inr ⟨fault, rfl⟩

theorem not_told_of_ne {failure : Failure} (h : ∀ fault, failure ≠ .parser fault) :
    ¬ Told (.error failure) := by
  rintro (⟨_, hsame⟩ | ⟨fault, hsame⟩)
  · cases hsame
  · exact h fault (Except.error.inj hsame)

theorem told_readReport_iff {text : Text} {stdout : Utf8.Octets} :
    Told (readReport text stdout) ↔
      ¬ ∃ cause, Json.Beyond cause ∧
        Json.parse (Utf8.decodeLossy stdout) = .error (.misfit cause) := by
  rw [readReport]
  cases hparse : Json.parse (Utf8.decodeLossy stdout) with
  | ok value => exact iff_of_true (told_of_mapError _) (by simp)
  | error refusal =>
      cases refusal with
      | malformed fault => exact iff_of_true (.inr ⟨_, rfl⟩) (by simp)
      | misfit cause =>
          refine iff_of_false (not_told_of_ne (by simp)) (not_not.mpr ?_)
          exact ⟨cause, Json.parse_misfit hparse, rfl⟩

theorem told_report_iff (parser : CommandParser) (text : Text) (outcome : ProcessOutcome) :
    Told (parser.report text outcome) ↔ ¬ parser.Untold outcome := by
  cases outcome with
  | notFound =>
      simp only [report, Untold]
      cases hcommand : parser.command with
      | nil => exact iff_of_false (not_told_of_ne (by simp)) (not_not.mpr rfl)
      | cons word words => exact iff_of_true (.inr ⟨_, rfl⟩) (List.cons_ne_nil _ _)
  | timedOut => exact iff_of_true (.inr ⟨_, rfl⟩) not_false
  | permissionDenied =>
      refine iff_of_false ?_ (not_not.mpr trivial)
      simp only [report]
      split <;> exact not_told_of_ne (by simp)
  | ended status stdout stderr =>
      simp only [report, Untold]
      by_cases hstatus : status = 0
      · rw [if_neg (not_not.mpr hstatus), told_readReport_iff, hstatus]
        simp
      · rw [if_pos hstatus]
        exact iff_of_true (.inr ⟨_, rfl⟩) (by simp [hstatus])

/-- A parser tells what becomes of its process, if the process gets the text at all. -/
theorem told_parse_iff {run : Runner σ} {text : Text} {outcome : ProcessOutcome} {before after : σ}
    (hrun : (run ⟨parser.command, text, parser.limit⟩).start before = (.ok outcome, after)) :
    Told ((parser.parse run text).start before).1 ↔
      (∃ octets, Utf8.encode text = .ok octets) ∧ ¬ parser.Untold outcome := by
  rw [parse, Step.start_bind, Step.start_ofExcept]
  cases hencode : Utf8.encode text with
  | error fault =>
      refine iff_of_false (not_told_of_ne (by simp)) ?_
      simp
  | ok octets =>
      simp only [Except.mapError, Step.start_bind, hrun]
      rw [and_iff_right ⟨octets, rfl⟩, ← told_report_iff parser text]
      cases parser.report text outcome <;> rfl

end CommandParser

/-! ## Settings with their parser -/

namespace Settings

variable {value : Value} {settings : Settings}

/-- Settings that were read from a document, with the parser that they choose. -/
structure Usable (value : Value) (settings : Settings) (parser : CommandParser) : Prop where
  choice : (value.get? "oracle" = none ∧ settings.parser = .prism) ∨
    value.get? "oracle" = some (.string settings.parser.name)
  limit : settings.limit.WholeFrom 1
  maxPasses : ∀ passes ∈ settings.maxPasses, passes.WholeFrom 1
  nodup : (settings.names.map Prod.fst).Nodup
  /-- The default names, overridden name by name. -/
  lookup : ∀ name, settings.names.lookup name =
    (stemOf? value name).or (NameTable.default.lookup name)
  setup : Setup.ofSettings settings = .ok { settings, parser }
  named : CommandParser.ofName settings.parser.name settings.command settings.limit = .ok parser
  command : parser.command = [] ↔
    settings.parser = .command ∧ ∀ c ∈ settings.command.getD [], Text.isBlank c = true
  /-- Whatever runs the processes, and whatever becomes of them. -/
  told : ∀ {σ : Type} {run : Runner σ} {text : Text} {outcome : ProcessOutcome} {before after : σ},
    (run ⟨parser.command, text, parser.limit⟩).start before = (.ok outcome, after) →
      (CommandParser.Told ((parser.parse run text).start before).1 ↔
        (∃ octets, Utf8.encode text = .ok octets) ∧ ¬ parser.Untold outcome)

/-- Settings that are read have a parser. -/
theorem usable_of_ofValue (h : ofValue value = .ok settings) :
    ∃ parser, Usable value settings parser := by
  obtain ⟨hformat, hready, rfl⟩ := ofValue_eq_ok_iff.mp h
  obtain ⟨parser, hparser⟩ := CommandParser.exists_ofChoice ((hasParser_iff hformat).mp hready)
  refine ⟨parser, ?_⟩
  exact
    { choice := parser_read hformat
      limit := limit_read hformat
      maxPasses := maxPasses_read hformat
      nodup := nodup_names value
      lookup := lookup_names hformat
      setup := by rw [Setup.ofSettings, hparser]; rfl
      named := (CommandParser.ofName_name ..).trans hparser
      command := CommandParser.command_eq_nil_iff hparser
      told := CommandParser.told_parse_iff }

theorem usable_of_ofValue_words :
    let value : Value := .object [("oracle", .string "cmd"), ("timeout_s", .int 5),
      ("oracle_cmd", .string " ruby\u3000-c "), ("max_passes", .null),
      ("overload_names", .object [("+", .string "_add")])]
    let settings : Settings :=
      { names := [("*", "_mul"), ("+", "_add")]
        parser := .command
        command := some " ruby\u3000-c "
        limit := .int 5 }
    ofValue value = .ok settings ∧ ∃ parser, Usable value settings parser :=
  ⟨by decide +kernel, usable_of_ofValue (by decide +kernel)⟩

/-- A blank command leaves a parser without a word for its command, and so without a fault to tell
when that is not found. -/
theorem untold_of_blank_command :
    let settings : Settings := { parser := .command, command := some " " }
    let parser : CommandParser := ⟨.command, [], .int 60⟩
    ofValue (.object [("oracle", .string "cmd"), ("oracle_cmd", .string " ")]) = .ok settings ∧
      Setup.ofSettings settings = .ok { settings, parser } ∧
      ((parser.parse (fun _ => pure .notFound : Runner Unit) "x\n").start ()).1 =
        .error .outOfRange :=
  ⟨by decide +kernel, rfl, rfl⟩

end Settings

end SyntaxRepair
