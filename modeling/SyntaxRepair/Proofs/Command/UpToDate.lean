import SyntaxRepair.Proofs.Command.Flags
import SyntaxRepair.Proofs.Command.Stems
import SyntaxRepair.Proofs.Command.Writes
import SyntaxRepair.Proofs.Repair.LineEnds
import SyntaxRepair.Proofs.Text.Octets

/-!
# Targets that are up to date

A target that the command has written is up to date: with `--check` the command finds nothing to
complain about, and to repair the source once more changes no file (`repairSources_up_to_date`).

Files are read with newlines alone at the ends of their lines, but they are written as they are.
What makes a target come back as it was written is that the result is unified, since the source was
unified when it was read and a repair brings no carriage return in (`Setup.unified_of_repair`).
-/

namespace SyntaxRepair

open Step
open Utf8 (Octets)

variable {σ : Type} {run : Runner σ} {answer : Call → Except Failure ProcessOutcome}

/-! ## Unified results -/

namespace CommandParser

/-- There is no carriage return in the names of the nodes that the parser reports. -/
def UnifiedNames (parser : CommandParser) (answer : Call → Except Failure ProcessOutcome) : Prop :=
  ∀ text outcome result, answer ⟨parser.command, text, parser.limit⟩ = .ok outcome →
    parser.report text outcome = .ok result →
      ∀ node ∈ result.tree.index.nodes.toList, ∀ name ∈ node.label.name, name.Unified

/-- A report is about the text that the command was given. -/
theorem text_of_report {parser : CommandParser} {text : Text} {outcome : ProcessOutcome}
    {result : Parse} (h : parser.report text outcome = .ok result) : result.text = text := by
  cases outcome with
  | notFound => cases hcommand : parser.command <;> simp [report, hcommand] at h
  | timedOut => cases h
  | permissionDenied => cases hcommand : parser.command <;> simp [report, hcommand] at h
  | ended status stdout stderr =>
      rw [report] at h
      split at h
      · cases h
      · rw [readReport] at h
        split at h
        · cases h
        · cases h
        · next value _ =>
          cases hdocument : Parse.ofDocument text value with
          | error fault =>
              rw [hdocument] at h
              cases h
          | ok found =>
              rw [hdocument] at h
              cases h
              exact (Parse.formed_of_ofDocument hdocument).1

theorem unified_parse {parser : CommandParser} (hanswer : run.Answers answer)
    (hnames : parser.UnifiedNames answer) : (parser.parse (Act.runCall run)).Unified := by
  intro text world htext result after h
  rw [parse, start_bind_eq_ok] at h
  obtain ⟨_, between, -, h⟩ := h
  obtain ⟨outcome, called, hcall, h⟩ := start_bind_eq_ok.mp h
  have houtcome : answer ⟨parser.command, text, parser.limit⟩ = .ok outcome := by
    rw [Act.runCall, start_bind_eq_ok] at hcall
    obtain ⟨_, noted, -, hcall⟩ := hcall
    obtain ⟨state, hstate, -⟩ := start_within_eq_ok.mp hcall
    rw [← hanswer, hstate]
  split at h
  · next found hreport =>
    obtain ⟨rfl, -⟩ := start_pure_eq_ok.mp h
    exact ⟨(text_of_report hreport).symm ▸ htext, hnames text outcome found houtcome hreport⟩
  · cases h

end CommandParser

theorem Setup.unified_of_repair {setup : Setup} (hanswer : run.Answers answer)
    (hnames : setup.parser.UnifiedNames answer) (htable : setup.settings.names.Unified)
    {text result : Text} (htext : text.Unified) {before after : World σ}
    (h : (setup.repair run text).start before = (.ok result, after)) : result.Unified := by
  simp only [Setup.repair, Act.ofStep, Act.start_of, Step.start_of] at h
  cases hrepair : (SyntaxRepair.repair (setup.parser.parse (Act.runCall run))
    setup.settings.options).start (Run.of text before) with
  | mk outcome ending =>
      rw [hrepair] at h
      cases outcome with
      | error failure => cases h
      | ok plain =>
          cases h
          exact repair_unified (CommandParser.unified_parse hanswer hnames) htable htext hrepair

namespace FileStore

/-- A text that was read is unified. -/
theorem unified_of_readText {store : FileStore} {path : Path} {text : Text}
    (h : store.readText path = .ok text) : text.Unified := by
  obtain ⟨_, found, -, -, rfl⟩ := readText_eq_ok.mp h
  exact found.unified_unifyNewlines

/-- A unified text comes back from where it was written. -/
theorem Wrote.readText_eq {before after : FileStore} {place : List Text} {octets : Octets}
    {path : Path} {text : Text} (hwrote : before.Wrote place octets after)
    (hlocate : before.locate path = .ok place) (hencode : Utf8.encode text = .ok octets)
    (htext : text.Unified) : after.readText path = .ok text :=
  readText_eq_ok.mpr ⟨octets, text, hwrote.read_eq hlocate, Utf8.decode_encode hencode,
    Text.unifyNewlines_of_unified htext⟩

end FileStore

namespace Command

/-! ## The same arguments again -/

/-- Arguments like others, with which the results are compared and not written. -/
structure Arguments.Checks (others arguments : Arguments) : Prop where
  operands_eq : others.operands = arguments.operands
  values_eq : others.values = arguments.values
  compares : others.has checkOption = true
  silent : others.has stdoutOption = false

section

variable {arguments others : Arguments} {out : Option Path}

theorem Arguments.Checks.deliveryOf_eq (hchecks : others.Checks arguments)
    (hdelivery : deliveryOf arguments = .write out) : deliveryOf others = .compare out := by
  have hvalue : others.value? outOption = arguments.value? outOption := by
    rw [Arguments.value?, Arguments.value?, hchecks.values_eq]
  obtain ⟨hout, -, -⟩ := deliveryOf_eq_write hdelivery
  simp only [deliveryOf, hchecks.silent, hchecks.compares, hvalue, hout]
  rfl

/-- With `--check` in front of them, arguments are the same otherwise. -/
theorem exists_checks {given : List Text} (hread : repairManual.grammar.read given = .ok arguments)
    (hdelivery : deliveryOf arguments = .write out) :
    ∃ others, repairManual.grammar.read ("--check" :: given) = .ok others ∧
      others.Checks arguments := by
  obtain ⟨-, hstdout, -⟩ := deliveryOf_eq_write hdelivery
  refine ⟨arguments.behind checkOption,
    Grammar.read_cons_flag rfl (by decide) (by decide +kernel) hread, rfl, rfl,
    arguments.has_behind checkOption, ?_⟩
  rw [Arguments.has_behind_of_ne (by decide)]
  exact hstdout

end

/-! ## A source whose target was written -/

variable {setup : Setup} {source : Path} {result : Text} {place : List Text}
  {before after later : World σ} {out : Option Path}

/-- In a world where the source is as it was, it comes to the same. -/
theorem Repairs.exists_again {repaired : World σ} (hanswer : run.Answers answer)
    (h : Repairs setup run source before (.ok (.ok result), repaired))
    (hkept : ∀ text, before.files.readText source = .ok text →
      later.files.readText source = .ok text) :
    ∃ final, Repairs setup run source later (.ok (.ok result), final) ∧ later.Quiet final := by
  cases h with
  | @repaired text _ _ hread hrepair =>
      have hagain : ((setup.repair run text).start later).1 = .ok result := by
        rw [setup.repair_eq_of_answers hanswer text later before, hrepair]
      exact ⟨_, .repaired (hkept text hread) (Prod.ext hagain rfl),
        setup.quiet_repair run text later⟩

theorem Repairs.unified {repaired : World σ} (hanswer : run.Answers answer)
    (hnames : setup.parser.UnifiedNames answer) (htable : setup.settings.names.Unified)
    (h : Repairs setup run source before (.ok (.ok result), repaired)) : result.Unified := by
  cases h with
  | repaired hread hrepair =>
      exact setup.unified_of_repair hanswer hnames htable (FileStore.unified_of_readText hread)
        hrepair

/-- What is left of a single source is its result in its target. -/
theorem exists_wrote_of_single {outdated : Bool}
    (h : Worked setup run (.write out) [source] before outdated after) :
    ∃ target place result repaired octets, (out.orElse fun _ => source.target?) = some target ∧
      before.files.locate target = .ok place ∧
      Repairs setup run source before (.ok (.ok result), repaired) ∧
      Utf8.encode result = .ok octets ∧ before.files.Wrote place octets after.files := by
  cases h with
  | next hrepairs hdelivers hrest =>
      cases hrest
      obtain ⟨place, octets, ⟨target, htarget, hlocate⟩, hencode, hwrote⟩ :=
        exists_wrote_target hrepairs hdelivers
      exact ⟨target, place, _, _, octets, htarget, hlocate, hrepairs, hencode, hwrote⟩

/-! ## The command again -/

/-- **Repaired once, up to date.**  A single source is repaired and written to a target that is
neither the source nor the file with the settings, by processes that do the same whenever they are
called in the same way, and that report names without carriage returns.  Then the command finds the
target up to date with `--check`, and changes nothing; and without it, it changes no file. -/
theorem repairSources_up_to_date {given : List Text} {arguments : Arguments} {operand : Text}
    (hanswer : run.Answers answer) (hread : repairManual.grammar.read given = .ok arguments)
    (hone : arguments.operands = [operand]) (hdelivery : deliveryOf arguments = .write out)
    (hnames : ∀ setup, ((setupOf arguments).start before).1 = .ok setup →
      setup.parser.UnifiedNames answer)
    (hapart : ∀ place, TargetAt out before.files (Path.ofText operand) place →
      before.files.locate (Path.ofText operand) ≠ .ok place ∧
        ∀ path, arguments.value? settingsOption = some path →
          before.files.locate (Path.ofText path) ≠ .ok place)
    (h : (repairSources run given).start before = (.ok 0, after))
    (hlater : later.files = after.files) :
    (∀ again others, repairManual.grammar.read again = .ok others → others.Checks arguments →
      ∃ final, (repairSources run again).start later = (.ok 0, final) ∧ later.Quiet final) ∧
    (∃ final, (repairSources run ("--check" :: given)).start later = (.ok 0, final) ∧
      later.Quiet final) ∧
    ∃ final, (repairSources run given).start later = (.ok 0, final) ∧
      ∀ place, final.files.entry? place = later.files.entry? place := by
  obtain ⟨setup, hsetup, hworked⟩ := worked_of_start_eq_zero hread h
  rw [hdelivery, hone] at hworked
  obtain ⟨target, place, result, repaired, octets, htarget, hlocate, hrepairs, hencode, hwrote⟩ :=
    exists_wrote_of_single hworked
  obtain ⟨hsource, hsettings⟩ := hapart place ⟨target, htarget, hlocate⟩
  rw [← hlater] at hwrote
  have hsame (others : Arguments) (hvalues : others.values = arguments.values) :
      ((setupOf others).start later).1 = .ok setup :=
    fst_setupOf_of_reads hvalues
      (fun path text hpath => (hwrote.readText_iff (hsettings path hpath)).mpr) hsetup
  obtain ⟨final, hagain, hquiet⟩ :=
    hrepairs.exists_again hanswer fun text => (hwrote.readText_iff hsource).mpr
  have hcheck : ∀ again others, repairManual.grammar.read again = .ok others →
      others.Checks arguments →
        ∃ final, (repairSources run again).start later = (.ok 0, final) ∧ later.Quiet final := by
    intro again others hothers hchecks
    have hcurrent : final.files.readText target = .ok result := by
      rw [hquiet.files_eq]
      exact hwrote.readText_eq hlocate hencode
        (hrepairs.unified hanswer (hnames setup hsetup) (unified_names_of_setupOf hsetup))
    have hworked : Worked setup run (deliveryOf others) (others.operands.map Path.ofText) later
        false final := by
      rw [hchecks.deliveryOf_eq hdelivery, hchecks.operands_eq, hone]
      exact .next hagain (.current htarget hcurrent) .done
    have hsingle : others.OneOut := fun _ => by
      rw [hchecks.operands_eq, hone]
      rfl
    exact ⟨final, Ending.start_eq hothers (.fine hsingle (hsame others hchecks.values_eq) hworked),
      hquiet⟩
  refine ⟨hcheck, ?_, ?_⟩
  · obtain ⟨others, hothers, hchecks⟩ := exists_checks hread hdelivery
    exact hcheck _ others hothers hchecks
  · obtain ⟨files, hwrite, hfiles⟩ := hwrote.exists_write_again hlocate
    rw [← hquiet.files_eq] at hwrite
    have hworked : Worked setup run (deliveryOf arguments) (arguments.operands.map Path.ofText)
        later false { final with files } := by
      rw [hdelivery, hone]
      exact .next hagain (.written htarget hencode hwrite) .done
    have hsingle : arguments.OneOut := fun _ => by
      rw [hone]
      rfl
    exact ⟨_, Ending.start_eq hread (.fine hsingle (hsame arguments rfl) hworked), hfiles⟩

/-- A source with a carriage return at the end of its line. -/
def returnedSource : World Unit where
  files := { entries := [(["a.rbm"], .file [120, 13, 10])] }
  process := ()

/-- It is written without the carriage return, and that is up to date. -/
theorem repairSources_up_to_date_returned :
    ∃ after : World Unit,
      (repairSources Runner.clean ["a.rbm"]).start returnedSource = (.ok 0, after) ∧
      after.files.read (Path.ofText "a.rb") = .ok [120, 10] ∧
      (∃ final, (repairSources Runner.clean ["--check", "a.rbm"]).start after = (.ok 0, final) ∧
        after.Quiet final) ∧
      ∃ final, (repairSources Runner.clean ["a.rbm"]).start after = (.ok 0, final) ∧
        ∀ place, final.files.entry? place = after.files.entry? place := by
  have hread : repairManual.grammar.read ["a.rbm"] = .ok { operands := ["a.rbm"] } := by
    decide +kernel
  have htext : returnedSource.files.readText (Path.ofText "a.rbm") = .ok "x\n" := by
    decide +kernel
  have hwrite : returnedSource.files.write (Path.ofText "a.rb") [120, 10] =
      .ok { entries := [(["a.rbm"], .file [120, 13, 10]), (["a.rb"], .file [120, 10])] } := by
    decide +kernel
  obtain ⟨after, hfiles, hnext⟩ := exists_worked_of_plain htext
    (defaultSetup.plain_clean (σ := Unit) rfl) rfl hwrite
  have hstart : (repairSources Runner.clean ["a.rbm"]).start returnedSource = (.ok 0, after) :=
    Ending.start_eq hread (.fine (fun hout => by cases hout)
      (fst_setupOf_of_values_eq_nil rfl _) (hnext _ _ _ .done))
  have hnames (setup : Setup) : setup.parser.UnifiedNames fun _ => .ok .clean := by
    intro text outcome result houtcome hreport
    obtain rfl := Except.ok.inj houtcome
    obtain rfl := Except.ok.inj ((report_clean setup.parser text).symm.trans hreport)
    exact (by decide +kernel : ∀ node ∈ (Document.report [] cleanDocument).tree.index.nodes.toList,
      ∀ name ∈ node.label.name, name.Unified)
  have hsource : returnedSource.files.locate (Path.ofText "a.rbm") = .ok ["a.rbm"] := by
    decide +kernel
  have htarget : returnedSource.files.locate (Path.ofText "a.rb") = .ok ["a.rb"] := by
    decide +kernel
  have hplain : (Path.ofText "a.rbm").target? = some (Path.ofText "a.rb") := by
    decide +kernel
  have hapart (place : List Text)
      (hplace : TargetAt none returnedSource.files (Path.ofText "a.rbm") place) :
      returnedSource.files.locate (Path.ofText "a.rbm") ≠ .ok place := by
    obtain ⟨target, hchosen, hlocate⟩ := hplace
    obtain rfl := Option.some.inj (hplain.symm.trans hchosen)
    obtain rfl := Except.ok.inj (htarget.symm.trans hlocate)
    rw [hsource]
    decide
  obtain ⟨-, hcheck, hagain⟩ := repairSources_up_to_date Runner.answers_clean hread rfl rfl
    (fun setup _ => hnames setup)
    (fun place hplace => ⟨hapart place hplace, fun path hpath => by cases hpath⟩) hstart rfl
  refine ⟨after, hstart, ?_, hcheck, hagain⟩
  rw [hfiles]
  decide +kernel

end Command

end SyntaxRepair
