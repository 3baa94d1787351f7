import SyntaxRepair.Proofs.Parse.Documents
import SyntaxRepair.Proofs.Repair.Mirroring
import SyntaxRepair.Proofs.Repair.Rounds
import Mathlib.Tactic

/-!
# The plain form of a text

Where a process does the same whenever it is called in the same way, the plain form of a text is a
matter of the text alone (`Setup.Plain`).  A text that the parser reports nothing about is its own
plain form (`Setup.plain_of_clean`), for one that is never reported on every text is
(`Setup.plain_clean`).
-/

namespace SyntaxRepair

open Step
open Utf8 (Octets)

variable {σ : Type}

namespace Setup

variable {setup : Setup} {run : Runner σ} {text result : Text} {octets others : Octets}
  {answer : Call → Except Failure ProcessOutcome} {before after : World σ}

/-- In every world the repair of the text succeeds, and its result has these octets. -/
def Plain (setup : Setup) (run : Runner σ) (text : Text) (octets : Octets) : Prop :=
  ∃ result, (∀ world, ((setup.repair run text).start world).1 = .ok result) ∧
    Utf8.encode result = .ok octets

theorem plain_of_repair (hanswer : run.Answers answer)
    (hrepair : (setup.repair run text).start before = (.ok result, after))
    (hencode : Utf8.encode result = .ok octets) : setup.Plain run text octets := by
  refine ⟨result, fun world => ?_, hencode⟩
  rw [repair_eq_of_answers hanswer setup text world before, hrepair]

theorem Plain.unique (h : setup.Plain run text octets) (h' : setup.Plain run text others)
    (world : World σ) : octets = others := by
  obtain ⟨result, hresult, hencode⟩ := h
  obtain ⟨result', hresult', hencode'⟩ := h'
  obtain rfl := Except.ok.inj ((hresult world).symm.trans (hresult' world))
  exact Except.ok.inj (hencode.symm.trans hencode')

end Setup

/-! ## Clean texts -/

/-- A repair leaves a text as it is if nothing is reported about it. -/
theorem fst_repair_of_clean {parser : Parser σ} {options : Options} {text : Text}
    {result : Parse} {state : σ} (hclean : result.diagnostics = [])
    (hparse : ((parser text).start state).1 = .ok result) :
    ((repair parser options).start (Run.of text state)).1 = .ok text := by
  have hopen := Run.start_openPass parser 1 (Run.of text state)
  rw [show (Run.of text state).buffer.text = text from rfl,
    show (Run.of text state).parser = state from rfl, eq_ok_of_fst hparse] at hopen
  have hempty : result.diagnostics.isEmpty = true := by
    rw [hclean]
    rfl
  rw [repair, start_bind, untilClean, start_bind, hopen]
  dsimp only
  rw [if_pos hempty, start_pure]
  -- no mission waits, so nothing is carried out
  rfl

/-- What a process prints about a text, where its outcome is settled by the call. -/
theorem Setup.plain_of_clean {setup : Setup} {run : Runner σ}
    {answer : Call → Except Failure ProcessOutcome} (hanswer : run.Answers answer) {text : Text}
    {octets : Octets} {outcome : ProcessOutcome} {result : Parse}
    (hencode : Utf8.encode text = .ok octets)
    (houtcome : answer ⟨setup.parser.command, text, setup.parser.limit⟩ = .ok outcome)
    (hreport : setup.parser.report text outcome = .ok result)
    (hclean : result.diagnostics = []) : setup.Plain run text octets := by
  refine ⟨text, fun world => ?_, hencode⟩
  have hcall := hanswer ⟨setup.parser.command, text, setup.parser.limit⟩ world.process
  have hparse : ((setup.parser.parse (Act.runCall run) text).start world).1 = .ok result := by
    simp only [CommandParser.parse, Act.runCall, start_bind, start_modify, start_within,
      start_ofExcept, hencode, Except.mapError]
    rw [hcall, houtcome]
    dsimp only
    rw [hreport]
    rfl
  simp only [repair, Act.ofStep, Act.start_of, Step.start_of]
  rw [fst_repair_of_clean hclean hparse]
  rfl

/-! ### A process without complaints -/

/-- A report without diagnostics. -/
def cleanDocument : Json.Value :=
  .object [("tree", .object [("kind", .string "program_node"),
      ("location", .object [("start", .int 0), ("end", .int 0), ("line", .int 1),
        ("column", .int 0)])]),
    ("diagnostics", .array [])]

/-- The report as it is printed. -/
def cleanPrint : Text :=
  "\x7b\"tree\":\x7b\"kind\":\"program_node\",\"location\":\x7b\"start\":0,\"end\":0,\"line\":1," ++
    "\"column\":0\x7d\x7d,\"diagnostics\":[]\x7d"

theorem parse_cleanPrint : Json.parse cleanPrint = .ok cleanDocument := by
  cbv

/-- The outcome of a process that prints it. -/
def ProcessOutcome.clean : ProcessOutcome :=
  .ended 0 ((Utf8.encode cleanPrint).toOption.getD []) []

/-- Processes that print it whatever they are asked. -/
def Runner.clean : Runner σ := fun _ => pure .clean

theorem Runner.answers_clean : (Runner.clean : Runner σ).Answers fun _ => .ok .clean :=
  fun _ _ => rfl

theorem report_clean (parser : CommandParser) (text : Text) :
    parser.report text .clean = .ok (Document.report text cleanDocument) := by
  have hprinted : Utf8.decodeLossy ((Utf8.encode cleanPrint).toOption.getD []) = cleanPrint := by
    decide +kernel
  rw [ProcessOutcome.clean, CommandParser.report]
  rw [if_neg (by decide), CommandParser.readReport, hprinted, parse_cleanPrint]
  dsimp only
  rw [Parse.ofDocument_eq_report (by decide +kernel)]
  rfl

/-- Where nothing is ever reported, every text with octets is its own plain form. -/
theorem Setup.plain_clean (setup : Setup) {text : Text} {octets : Octets}
    (hencode : Utf8.encode text = .ok octets) :
    setup.Plain (Runner.clean : Runner σ) text octets :=
  plain_of_clean Runner.answers_clean hencode rfl (report_clean setup.parser text) rfl

end SyntaxRepair
