import SyntaxRepair.Proofs.Repair.Progress
import SyntaxRepair.Proofs.Repair.Resuming

/-!
# A cap on the passes

A cap truncates a repair and does nothing else (`repair_capped`).  If the repair without a cap
is over before it would make one pass more than the cap allows, both are the same to the last
entry of the journal.  Otherwise the repair with the cap asks the same questions up to the
report of that pass, and gives up with it.

## Strategy

A pass reads nothing of its options but the names and whether it is one too many (`pass_congr`).
So the passes of the uncapped repair are passes of the capped one as long as the cap allows them
(`Passed.capped`), and the capped repair comes to the same state.  What becomes of it there is
told by the round that ends it (`Passed.outcome_eq`): either the one that ends the uncapped
repair, or the pass that is one too many.
-/

namespace SyntaxRepair

namespace Run

variable {σ : Type} {parser : Parser σ} {options : Options} {limit : Nat} {begun before : Run σ}
  {results : List Parse} {ending : Except Failure Parse × Run σ}

/-! ## Passes below the cap -/

theorem exceeded?_capped_of_le {number : Nat} (hle : number ≤ limit) :
    ({ options with maxPasses := some limit } : Options).exceeded? number = none := by
  rw [Options.exceeded?, Option.filter_some, if_neg (by simpa using hle)]

theorem exceeded?_capped_of_lt {number : Nat} (hlt : limit < number) :
    ({ options with maxPasses := some limit } : Options).exceeded? number = some (limit : Int) := by
  rw [Options.exceeded?, Option.filter_some, if_pos (by simpa using hlt)]

/-- A pass that the cap allows reads nothing of the options but the names. -/
theorem pass_capped_eq {number : Nat} (hle : number ≤ limit) (result : Parse) :
    (pass { options with maxPasses := some limit } number result : Step (Run σ) Unit) =
      pass { options with maxPasses := none } number result := by
  simp only [pass, exceeded?_capped_of_le hle]
  rfl

/-- The passes that a cap allows are made as they are without it. -/
theorem Passed.capped
    (hpassed : Passed parser { options with maxPasses := none } begun results before)
    (hle : results.length ≤ limit) :
    Passed parser { options with maxPasses := some limit } begun results before := by
  induction hpassed with
  | start => exact .start
  | @next results result before opened after earlier hparse hbroken hprogress hpass ih =>
      rw [List.length_append, List.length_singleton] at hle
      refine (ih (by omega)).next hparse hbroken hprogress ?_
      rw [pass_capped_eq hle, hpass]

/-- A round that ends a repair ends it in the same way below a cap that allows its pass, or if
it makes none. -/
theorem Ends.capped
    (hends : Ends parser { options with maxPasses := none } results before ending)
    (hclean : limit ≤ results.length → ∀ result opened,
      (openPass parser (results.length + 1)).start before = (.ok result, opened) →
        result.diagnostics = []) :
    Ends parser { options with maxPasses := some limit } results before ending := by
  -- a pass is made only over a parse that is not clean, so the cap allows it
  have hallowed : ∀ {result : Parse} {opened : Run σ},
      (openPass parser (results.length + 1)).start before = (.ok result, opened) →
      result.diagnostics ≠ [] → results.length + 1 ≤ limit := by
    intro result opened hparse hbroken
    by_contra hlimit
    exact hbroken (hclean (by omega) result opened hparse)
  cases hends with
  | unparsed hparse => exact .unparsed hparse
  | clean hparse hnone => exact .clean hparse hnone
  | refused hparse hbroken hpass =>
      rw [← pass_capped_eq (hallowed hparse hbroken)] at hpass
      exact .refused hparse hbroken hpass
  | stalled hparse hbroken hpass hlast hstalled =>
      rw [← pass_capped_eq (hallowed hparse hbroken)] at hpass
      exact .stalled hparse hbroken hpass hlast hstalled

/-- A repair that comes to a report beyond the cap gives up with it. -/
theorem capped_ends (options : Options) {result : Parse} {opened : Run σ}
    (hparse : (openPass parser (results.length + 1)).start before = (.ok result, opened))
    (hbroken : result.diagnostics ≠ []) (hlimit : results.length = limit) :
    ∃ ended, Ends parser { options with maxPasses := some limit } results before
      (.error result.givenUp, ended) := by
  have hpass :=
    start_pass { options with maxPasses := some limit } (results.length + 1) result opened
  rw [exceeded?_capped_of_lt (by omega)] at hpass
  exact ⟨_, .refused hparse hbroken hpass⟩

end Run

/-! ## Whole repairs -/

section

variable {σ : Type} (parser : Parser σ) (options : Options)

/-- Carrying out the missions asks the parser nothing. -/
theorem parsed_repair (run : Run σ) :
    ((repair parser options).start run).2.parsed =
      ((untilClean parser options).start run).2.parsed := by
  rw [repair, Step.start_bind]
  rcases (untilClean parser options).start run with ⟨failure | clean, ended⟩
  · rfl
  · simp only [Run.onWorkspace, Step.start_bind, Step.start_within, Step.start_get]
    rcases (executeAll clean).start ended.toWorkspace with ⟨failure | done, after⟩ <;> rfl

/-- A repair that finds no clean text ends there. -/
theorem start_repair_of_error {begun ended : Run σ} {failure : Failure}
    (h : (untilClean parser options).start begun = (.error failure, ended)) :
    (repair parser options).start begun = (.error failure, ended) := by
  rw [repair, Step.start_bind, h]

/-- Without one pass more than the cap allows, a repair comes to its clean text, or fails, as it
does without a cap. -/
theorem untilClean_capped_eq {begun : Run σ} (hbegun : begun.parsed = []) {limit : Nat}
    (hover : ∀ result : Parse, (parser.answers begun.parser ((untilClean parser
        { options with maxPasses := none }).start begun).2.parsed)[limit]? = some (.ok result) →
          result.diagnostics = []) :
    (untilClean parser { options with maxPasses := some limit }).start begun =
      (untilClean parser { options with maxPasses := none }).start begun := by
  obtain ⟨results, before, hpassed, hends⟩ :=
    Run.untilClean_ends parser { options with maxPasses := none } begun
  obtain ⟨-, -, -, hanswers⟩ := hends.answers_eq hbegun hpassed
  rw [hanswers] at hover
  -- no pass was made over a clean report
  have hle : results.length ≤ limit := by
    by_contra hlt
    have hindex : limit < results.length := Nat.lt_of_not_le hlt
    refine hpassed.falling.2 _ (List.getElem_mem hindex) (hover _ ?_)
    rw [List.getElem?_append_left (by rwa [List.length_map]), List.getElem?_map,
      List.getElem?_eq_getElem hindex, Option.map_some]
  refine (hpassed.capped hle).outcome_eq (hends.capped ?_)
  intro hge result opened hparse
  refine hover result ?_
  rw [show limit = (results.map (Except.ok (ε := Failure))).length by
    rw [List.length_map]; omega, List.getElem?_concat_length, hparse]

/-- A repair whose uncapped form would make one pass more than the cap allows gives up with the
report of that pass. -/
theorem untilClean_capped_givenUp {begun : Run σ} (hbegun : begun.parsed = []) {limit : Nat}
    {result : Parse}
    (hresult : (parser.answers begun.parser ((untilClean parser
        { options with maxPasses := none }).start begun).2.parsed)[limit]? = some (.ok result))
    (hbroken : result.diagnostics ≠ []) :
    ∃ ended : Run σ,
      (untilClean parser { options with maxPasses := some limit }).start begun =
        (.error result.givenUp, ended) ∧
      ended.parsed = ((untilClean parser
        { options with maxPasses := none }).start begun).2.parsed.take (limit + 1) := by
  obtain ⟨results, before, hpassed, hends⟩ :=
    Run.untilClean_ends parser { options with maxPasses := none } begun
  -- the round in which that report is the answer
  obtain ⟨earlier, opened, hle, hearlier, hparse, hprefix⟩ :=
    hends.exists_earlier hbegun hpassed hresult
  have hlimit : (results.take limit).length = limit := List.length_take_of_le hle
  have hcapped := hearlier.capped (Nat.le_of_eq hlimit)
  obtain ⟨ended, hended⟩ := Run.capped_ends options
    (hlimit.symm ▸ hparse) hbroken hlimit
  obtain ⟨-, hasked, hcount, -⟩ := hended.answers_eq hbegun hcapped
  dsimp only at hasked hcount
  refine ⟨ended, hcapped.outcome_eq hended, ?_⟩
  rw [← hasked] at hprefix
  rw [List.prefix_iff_eq_take.mp hprefix, hcount, hlimit]

end

/-- **A cap truncates a repair.**  Unless the repair without a cap comes to a report beyond the
cap that is not clean, the repair with the cap is the same, with its outcome, its text, its
missions and its journal.  Otherwise the capped repair asks about the same texts up to that
report and gives up with its diagnostics: it fails with their reports, in their order, as far
as they can be shown. -/
theorem repair_capped {σ : Type} (parser : Parser σ) (options : Options) (text : Text) (state : σ)
    (limit : Nat) :
    let uncapped := (repair parser { options with maxPasses := none }).start (Run.of text state)
    let capped :=
      (repair parser { options with maxPasses := some limit }).start (Run.of text state)
    let answers := parser.answers state uncapped.2.parsed
    ((∀ result : Parse, answers[limit]? = some (.ok result) → result.diagnostics = []) →
        capped = uncapped) ∧
      ∀ result : Parse, answers[limit]? = some (.ok result) → result.diagnostics ≠ [] →
        capped.1 = .error result.givenUp ∧
        capped.2.parsed = uncapped.2.parsed.take (limit + 1) ∧
        ((∀ diagnostic ∈ result.diagnostics, diagnostic.location.Showable) →
          ∃ reports, capped.1 = .error (.unrecovered reports) ∧
            List.Forall₂ (fun (diagnostic : Diagnostic) report =>
              diagnostic.report result.text = .ok report) result.diagnostics reports) := by
  intro uncapped capped answers
  have hbegun : (Run.of text state).parsed = [] := rfl
  have hparsed : uncapped.2.parsed = ((untilClean parser
      { options with maxPasses := none }).start (Run.of text state)).2.parsed :=
    parsed_repair ..
  have hanswers : answers = parser.answers state ((untilClean parser
      { options with maxPasses := none }).start (Run.of text state)).2.parsed :=
    congrArg (parser.answers state) hparsed
  rw [hanswers]
  constructor
  · intro hover
    have heq := untilClean_capped_eq parser options hbegun hover
    show (repair parser _).start _ = (repair parser _).start _
    rw [repair, repair, Step.start_bind, Step.start_bind, heq]
  · intro result hresult hbroken
    obtain ⟨ended, hended, htake⟩ := untilClean_capped_givenUp parser options hbegun hresult hbroken
    have hcapped : capped = (.error result.givenUp, ended) :=
      start_repair_of_error parser _ hended
    rw [hcapped, hparsed]
    refine ⟨rfl, htake, fun hshowable => ?_⟩
    obtain ⟨reports, hgivenUp, hall⟩ := Parse.exists_givenUp hshowable
    exact ⟨reports, congrArg Except.error hgivenUp, hall⟩

/-- What a parser reports that knows of two fields among the parameters of one definition, and
tells the column of the second one as it is told. -/
def fieldReport (column : Json.Number) (text : Text) : Parse :=
  let whole : Location := ⟨0, .int text.length, 1, 0⟩
  let keyword : Location := ⟨.int (text.length - 3), .int text.length, 1, .int (text.length - 3)⟩
  let definition : Label :=
    { kind := definitionKind, location := whole, name := some "f", endLocation := some keyword }
  let first : List Diagnostic :=
    [⟨"argument_formal_ivar", ⟨6, 8, 1, 6⟩, []⟩, ⟨"unexpected_token", ⟨8, 9, 1, 8⟩, []⟩]
  let second : List Diagnostic := [⟨"argument_formal_ivar", ⟨9, 11, 1, column⟩, []⟩]
  { text
    tree := .mk { kind := "program_node", location := whole } [some (.mk definition [])]
    diagnostics :=
      if text = "def f(@a, @b)end" then first
      else if text = "def f(a, @b)end" then second else [] }

/-- A parser with these reports. -/
def fieldLister (column : Json.Number) : Parser Unit := fun text => pure (fieldReport column text)

/-- The second field is beyond a cap of one pass and is reported; a cap of two passes changes
nothing. -/
theorem repair_capped_fields :
    (repair (fieldLister 9) { maxPasses := some 2 }).start (Run.of "def f(@a, @b)end" ()) =
        (repair (fieldLister 9) {}).start (Run.of "def f(@a, @b)end" ()) ∧
      ∃ reports, ((repair (fieldLister 9) { maxPasses := some 1 }).start
        (Run.of "def f(@a, @b)end" ())).1 = .error (.unrecovered reports) ∧
        reports = [⟨1, "def f(a, @b)end", "         ^~", [], "argument_formal_ivar"⟩] := by
  have hparsed : ((repair (fieldLister 9) {}).start (Run.of "def f(@a, @b)end" ())).2.parsed =
      [("def f(@a, @b)end" : Text), "def f(a, @b)end", "def f(a, b)end"] := by decide +kernel
  have hanswers : (fieldLister 9).answers () ((repair (fieldLister 9) {}).start
      (Run.of "def f(@a, @b)end" ())).2.parsed =
        [.ok (fieldReport 9 "def f(@a, @b)end"), .ok (fieldReport 9 "def f(a, @b)end"),
          .ok (fieldReport 9 "def f(a, b)end")] := by
    rw [hparsed]
    rfl
  have hbroken : (fieldReport 9 "def f(a, @b)end").diagnostics =
      [⟨"argument_formal_ivar", ⟨9, 11, 1, 9⟩, []⟩] := by decide +kernel
  obtain ⟨hsame, -⟩ := repair_capped (fieldLister 9) {} "def f(@a, @b)end" () 2
  obtain ⟨-, hgivesUp⟩ := repair_capped (fieldLister 9) {} "def f(@a, @b)end" () 1
  simp only [hanswers, Int.cast_ofNat_Int] at hsame hgivesUp
  constructor
  · refine hsame fun result hresult => ?_
    cases hresult
    decide +kernel
  · obtain ⟨-, -, hreports⟩ :=
      hgivesUp (fieldReport 9 "def f(a, @b)end") rfl (by rw [hbroken]; exact List.cons_ne_nil _ _)
    rw [hbroken] at hreports
    obtain ⟨reports, hcapped, hall⟩ := hreports fun diagnostic hmem => by
      rw [List.mem_singleton.mp hmem]
      exact ⟨rfl, by decide, by decide, by decide, by decide⟩
    refine ⟨reports, hcapped, ?_⟩
    cases hall with
    | cons hreport hrest =>
        cases hrest
        cases hreport
        rfl

/-- The column of a diagnostic beyond the cap that is written with a fraction stands in the way
of its report: the repair fails with the number in the place of the syntax error. -/
theorem repair_capped_float_column :
    let finder := fieldLister (.float (.ofInt 9))
    let uncapped := (repair finder {}).start (Run.of "def f(@a, @b)end" ())
    let capped := (repair finder { maxPasses := some 1 }).start (Run.of "def f(@a, @b)end" ())
    uncapped.1.map (fun _ => ()) = .ok () ∧
      (finder.answers () uncapped.2.parsed).map diagnosticCount = [2, 1, 0] ∧
      capped.1 = .error (.misfit .floatCount) ∧
      ¬ ∃ reports, capped.1 = .error (.unrecovered reports) := by
  intro finder uncapped capped
  have houtcome : capped.1 = .error (.misfit .floatCount) := by decide +kernel
  refine ⟨by decide +kernel, by decide +kernel, houtcome, ?_⟩
  rintro ⟨reports, hreports⟩
  rw [hreports] at houtcome
  cases houtcome

end SyntaxRepair
