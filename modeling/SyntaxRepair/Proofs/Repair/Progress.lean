import SyntaxRepair.Proofs.Repair.Agreement
import SyntaxRepair.Proofs.Repair.Rounds

/-!
# A repair ends

Every pass has to leave fewer diagnostics than the one before it, so a repair asks its parser
at most once more than the first report has diagnostics, whatever the parser answers
(`untilClean_parsed_length_le`).

A report that has no fewer diagnostics than the one before it is the last one.  Its pass is
made all the same before the repair gives up, and only if nothing stands in the way of that
pass does the repair end with the reports of these diagnostics
(`untilClean_of_stalled`).
-/

namespace SyntaxRepair

open Json (Number)

/-! ## How often the parser is asked -/

/-- The number of diagnostics that a parser answers; a failure has none. -/
def diagnosticCount : Except Failure Parse → Nat
  | .ok result => result.diagnostics.length
  | .error _ => 0

/-- Numbers that fall and stay positive are no more than the first of them. -/
theorem length_le_of_falling {first : Parse} {rest : List Parse}
    (hfalling : (first :: rest).IsChain fun earlier later =>
      later.diagnostics.length < earlier.diagnostics.length)
    (hbroken : ∀ result ∈ first :: rest, result.diagnostics ≠ []) :
    (first :: rest).length ≤ first.diagnostics.length := by
  induction rest generalizing first with
  | nil =>
      have hfirst := List.length_pos_of_ne_nil (hbroken first (List.mem_cons_self ..))
      rw [List.length_singleton]
      exact hfirst
  | cons second rest ih =>
      rw [List.isChain_cons_cons] at hfalling
      have hrest := ih hfalling.2 fun result hmem => hbroken result (List.mem_cons_of_mem _ hmem)
      rw [List.length_cons]
      omega

namespace Run

variable {σ : Type} {parser : Parser σ} {options : Options} {text : Text} {queue : Queue}
  {state : σ} {before : Run σ} {ending : Except Failure Parse × Run σ}

/-- The report of the first pass answers the first question. -/
theorem Ends.head_eq {first : Parse} {rest : List Parse}
    (hpassed : Passed parser options (onQueue text queue state) (first :: rest) before)
    (hends : Ends parser options (first :: rest) before ending) :
    ((parser text).start state).1 = .ok first := by
  obtain ⟨-, hparsed, -, hanswers⟩ := hends.answers_eq rfl hpassed
  obtain ⟨others, hothers⟩ := hpassed.exists_parsed_eq rfl
  rw [hparsed, hothers, List.map_cons, List.cons_append] at hanswers
  exact (List.cons.inj hanswers).1

theorem length_le_of_exceeded?_eq_none {number : Nat} {limit : Int}
    (hlimit : limit ∈ options.maxPasses) (hnumber : options.exceeded? number = none) :
    (number : Int) ≤ limit := by
  rw [Options.exceeded?, Option.filter_eq_none_iff] at hnumber
  have hnot := hnumber limit hlimit
  rw [decide_eq_true_eq] at hnot
  omega

end Run

/-- **A repair ends.**  It asks its parser at most once more than the first report has
diagnostics, and at most once more than it may make passes, whatever the parser answers and
however its answers depend on what it was asked before.  The texts that it asks about are all
there were: they leave the parser in the state in which the repair leaves it. -/
theorem untilClean_parsed_length_le {σ : Type} (parser : Parser σ) (options : Options)
    (text : Text) (queue : Queue) (state : σ) :
    let ended := ((untilClean parser options).start (Run.onQueue text queue state)).2
    ended.parser = parser.stateAfter state ended.parsed ∧
      ended.parsed.length ≤ diagnosticCount ((parser text).start state).1 + 1 ∧
      ∀ limit ∈ options.maxPasses, 1 ≤ limit → (ended.parsed.length : Int) ≤ limit + 1 := by
  obtain ⟨results, before, hpassed, hends⟩ :=
    Run.untilClean_ends parser options (Run.onQueue text queue state)
  obtain ⟨hasked, -, hlength, -⟩ := hends.answers_eq rfl hpassed
  refine ⟨hasked, ?_, ?_⟩
  · rw [hlength]
    cases results with
    | nil => exact Nat.le_add_left 1 _
    | cons first rest =>
        -- each pass but the last has at least one diagnostic more than the next one
        obtain ⟨hfalling, hbroken⟩ := hpassed.falling
        have hle := length_le_of_falling hfalling hbroken
        rw [hends.head_eq hpassed, diagnosticCount]
        exact Nat.succ_le_succ hle
  · intro limit hlimit hpositive
    rw [hlength]
    by_cases hnone : results = []
    · rw [hnone, List.length_nil]
      omega
    · have hle := Run.length_le_of_exceeded?_eq_none hlimit (hpassed.exceeded?_eq_none hnone)
      omega

/-- A parser that reports one diagnostic fewer each time, none of which is resolved. -/
def countdown : Parser Nat := fun text => Step.of fun left =>
  let place : Location := ⟨0, 0, 1, 0⟩
  (.ok {
    text
    tree := .mk { kind := "program_node", location := place } []
    diagnostics := List.replicate left ⟨"expect_rparen", place, []⟩ }, left - 1)

/-- It is asked three times if it begins with two diagnostics, and twice if only one pass may
be made. -/
theorem untilClean_parsed_length_le_countdown :
    ∃ ended capped : Run Nat,
      ((untilClean countdown {}).start (Run.onQueue "(" {} 2)).2 = ended ∧
      ended.parsed.length = 3 ∧ ended.parsed.length ≤ 2 + 1 ∧
      ((untilClean countdown { maxPasses := some 1 }).start (Run.onQueue "(" {} 2)).2 = capped ∧
      capped.parsed.length = 2 ∧ (capped.parsed.length : Int) ≤ 1 + 1 := by
  refine ⟨_, _, rfl, by decide +kernel, ?_, rfl, by decide +kernel, ?_⟩
  · exact (untilClean_parsed_length_le countdown {} "(" {} 2).2.1
  · exact (untilClean_parsed_length_le countdown { maxPasses := some 1 } "(" {} 2).2.2 1 rfl
      (by decide)

/-! ## Reports that can be shown -/

/-- A location with whole numbers that can be counted to. -/
structure Location.Showable (location : Location) : Prop where
  whole : location = ⟨.int location.start.whole, .int location.stop.whole,
    .int location.line.whole, .int location.column.whole⟩
  line_fits : Number.fitsWord location.line.whole = true
  column_fits : Number.fitsWord location.column.whole = true
  column_lt : location.column.whole < Number.memoryLimit
  length_le : location.stop.whole - location.start.whole ≤ Number.memoryLimit

theorem furtherColumns_int {start stop : Int} (line column : Number)
    (hlength : stop - start ≤ Number.memoryLimit) :
    furtherColumns ⟨.int start, .int stop, line, column⟩ = .ok (max (stop - start - 1) 0) := by
  rw [furtherColumns, except_bind_eq_ok]
  refine ⟨.int (stop - start), rfl, except_bind_eq_ok.mpr ⟨.int (stop - start - 1), rfl, ?_⟩⟩
  by_cases hnone : stop - start - 1 < 0
  · rw [Number.ltInt, if_pos (decide_eq_true hnone), Int.max_eq_right (Int.le_of_lt hnone)]
    rfl
  · have hfits : Number.fitsWord (stop - start - 1) = true := by
      have hword : Number.memoryLimit ≤ Number.wordLimit := by decide
      rw [Number.fitsWord, Bool.and_eq_true, decide_eq_true_eq, decide_eq_true_eq]
      omega
    rw [Number.ltInt, if_neg (by rwa [decide_eq_true_eq]), Int.max_eq_left (Int.not_lt.mp hnone)]
    exact Number.count_int hfits (by omega)

/-- A line that there is not is empty. -/
theorem lineAt_eq_nil {text : Text} {line : Int}
    (hnone : line < 1 ∨ (text.lines.length : Int) < line) : text.lineAt line = [] := by
  rw [Text.lineAt]
  split
  · rfl
  · rw [List.getElem?_eq_none (by omega)]
    rfl

/-- The number of a line is an index only if there is such a line. -/
theorem lineNumbered_eq (text : Text) (line : Int) :
    text.lineNumbered (.int line) =
      if line < 1 ∨ (text.lines.length : Int) < line then .ok (text.lineAt line)
      else (Number.int line).index >>= fun index => pure (text.lineAt index) := by
  unfold Text.lineNumbered
  by_cases hnone : line < 1 ∨ (text.lines.length : Int) < line
  · rw [if_pos hnone, lineAt_eq_nil hnone,
      if_pos (by simpa [Number.ltInt, Number.gtInt] using hnone)]
  · rw [if_neg hnone, if_neg (by simpa [Number.ltInt, Number.gtInt] using hnone)]

theorem lineNumbered_int (text : Text) {line : Int} (hline : Number.fitsWord line = true) :
    text.lineNumbered (.int line) = .ok (text.lineAt line) := by
  rw [lineNumbered_eq, Number.index_int hline]
  split <;> rfl

/-- Every diagnostic of a showable location has its report. -/
theorem Diagnostic.exists_report (text : Text) {diagnostic : Diagnostic}
    (hshowable : diagnostic.location.Showable) : ∃ report, diagnostic.report text = .ok report := by
  obtain ⟨kind, ⟨start, stop, line, column⟩, message⟩ := diagnostic
  obtain ⟨hwhole, hline, hcolumn, hlt, hle⟩ := hshowable
  simp only [Location.mk.injEq] at hwhole hline hcolumn hlt hle
  obtain ⟨hstart, hstop, hlineInt, hcolumnInt⟩ := hwhole
  rw [report, hstart, hstop, hlineInt, hcolumnInt]
  refine ⟨_, except_bind_eq_ok.mpr ⟨_, except_bind_eq_ok.mpr ⟨_, Number.count_int hcolumn hlt,
    except_bind_eq_ok.mpr ⟨_, furtherColumns_int _ _ hle, rfl⟩⟩,
    except_bind_eq_ok.mpr ⟨_, lineNumbered_int text hline, rfl⟩⟩⟩

/-- The reports of a parse are those of its diagnostics, in their order. -/
theorem Parse.exists_reports {result : Parse}
    (hshowable : ∀ diagnostic ∈ result.diagnostics, diagnostic.location.Showable) :
    ∃ reports, result.reports = .ok reports ∧
      List.Forall₂ (fun (diagnostic : Diagnostic) report =>
        diagnostic.report result.text = .ok report) result.diagnostics reports := by
  unfold reports
  generalize result.diagnostics = diagnostics at hshowable ⊢
  induction diagnostics with
  | nil => exact ⟨[], rfl, .nil⟩
  | cons diagnostic rest ih =>
      obtain ⟨report, hreport⟩ :=
        Diagnostic.exists_report result.text (hshowable diagnostic (List.mem_cons_self ..))
      obtain ⟨others, hothers, hall⟩ :=
        ih fun other hmem => hshowable other (List.mem_cons_of_mem _ hmem)
      refine ⟨report :: others, ?_, .cons hreport hall⟩
      rw [List.mapM_cons, hreport, hothers]
      rfl

/-- A repair that gives up shows the reports of a parse whose locations can be shown. -/
theorem Parse.exists_givenUp {result : Parse}
    (hshowable : ∀ diagnostic ∈ result.diagnostics, diagnostic.location.Showable) :
    ∃ reports, result.givenUp = .unrecovered reports ∧
      List.Forall₂ (fun (diagnostic : Diagnostic) report =>
        diagnostic.report result.text = .ok report) result.diagnostics reports := by
  obtain ⟨reports, hreports, hall⟩ := exists_reports hshowable
  refine ⟨reports, ?_, hall⟩
  rw [givenUp, hreports]

/-! ## The last report -/

/-- How a pass over a report of `text` fails that is not the first one: with its reports if
it is one too many, and else with what stands in its way. -/
def Parse.passFailure? (result : Parse) (options : Options) (number : Nat) (text : Text) :
    Option Failure :=
  match options.exceeded? number with
  | some _ => some result.givenUp
  | none => result.hindrance? text

namespace Run

variable {σ : Type} {parser : Parser σ} {options : Options} {before : Run σ}

theorem fst_pass_of_later {number : Nat} {result : Parse} {opened : Run σ} {text : Text}
    (hlater : number ≠ 1) (hfresh : opened.buffer = { text }) :
    ((pass options number result).start opened).1 =
      match result.passFailure? options number text with
      | some failure => .error failure
      | none => .ok ⟨⟩ := by
  rw [start_pass, Parse.passFailure?]
  cases options.exceeded? number with
  | some limit => rfl
  | none =>
      have hmade := @fst_makePass options number result text opened.toWorkspace hlater hfresh
      dsimp only
      rw [hmade]
      cases result.hindrance? text <;> rfl

/-- A last round that is not the first one and whose report is not clean ends the repair as its
pass fails, and if that does not fail the repair gives up. -/
theorem Ends.outcome_of_broken {results : List Parse} {result last : Parse} {opened : Run σ}
    {ending : Except Failure Parse × Run σ} (hends : Ends parser options results before ending)
    (hparse : (openPass parser (results.length + 1)).start before = (.ok result, opened))
    (hbroken : result.diagnostics ≠ []) (hlast : last ∈ results.getLast?) :
    ending.1 = .error ((result.passFailure? options (results.length + 1)
      before.buffer.text).getD result.givenUp) := by
  -- there is an earlier pass
  have hlater : results.length + 1 ≠ 1 := by
    intro hone
    rw [List.eq_nil_of_length_eq_zero (Nat.succ.inj hone)] at hlast
    cases hlast
  have hfailure : ((pass options (results.length + 1) result).start opened).1 = _ :=
    fst_pass_of_later hlater (openPass_eq_ok hparse)
  generalize result.passFailure? options (results.length + 1) before.buffer.text = failure?
    at hfailure ⊢
  cases hends with
  | unparsed hunparsed =>
      rw [hunparsed] at hparse
      cases hparse
  | clean hparse' hclean =>
      rw [hparse'] at hparse
      cases hparse
      exact absurd hclean hbroken
  | refused hparse' hbroken' hpass =>
      rw [hparse'] at hparse
      cases hparse
      rw [hpass] at hfailure
      cases failure? with
      | some failure =>
          cases hfailure
          rfl
      | none => cases hfailure
  | stalled hparse' hbroken' hpass hlast' hstalled =>
      rw [hparse'] at hparse
      cases hparse
      rw [hpass] at hfailure
      cases failure? with
      | some failure => cases hfailure
      | none => rfl

end Run

/-- A report with no fewer diagnostics than the one before it is the last answer. -/
theorem last_of_stalled {results : List Parse} {answer : Except Failure Parse} {earlier : Nat}
    {previous result : Parse}
    (hfalling : results.IsChain fun earlier later =>
      later.diagnostics.length < earlier.diagnostics.length)
    (hprevious : (results.map Except.ok ++ [answer])[earlier]? = some (.ok previous))
    (hresult : (results.map Except.ok ++ [answer])[earlier + 1]? = some (.ok result))
    (hstalled : previous.diagnostics.length ≤ result.diagnostics.length) :
    earlier + 1 = results.length ∧ previous ∈ results.getLast? ∧ answer = .ok result := by
  have hmapped : ∀ {index : Nat} {found : Parse}, index < results.length →
      (results.map Except.ok ++ [answer])[index]? = some (.ok found) →
        results[index]? = some found := by
    intro index found hlt hfound
    rw [List.getElem?_append_left (by rwa [List.length_map]), List.getElem?_map,
      Option.map_eq_some_iff] at hfound
    obtain ⟨there, hthere, hok⟩ := hfound
    cases hok
    exact hthere
  have hbound := (List.getElem?_eq_some_iff.mp hresult).1
  rw [List.length_append, List.length_map, List.length_singleton] at hbound
  have hearlier := hmapped (by omega) hprevious
  -- two reports of passes fall, so the second of them is no report of a pass
  have hlast : earlier + 1 = results.length := by
    by_contra hbefore
    obtain ⟨hlt, hat⟩ := List.getElem?_eq_some_iff.mp (hmapped (by omega) hresult)
    obtain ⟨hlt', hat'⟩ := List.getElem?_eq_some_iff.mp hearlier
    have hfalls := List.isChain_iff_getElem.mp hfalling earlier hlt
    rw [hat, hat'] at hfalls
    omega
  refine ⟨hlast, ?_, ?_⟩
  · rw [List.getLast?_eq_getElem?, ← hlast, Nat.add_sub_cancel]
    exact hearlier
  · rw [hlast, List.getElem?_append_right (by rw [List.length_map]), List.length_map,
      Nat.sub_self] at hresult
    exact Option.some.inj hresult

/-- **A stalled repair.**  A report that is not clean and has no fewer diagnostics than the
one before it is the last one of its repair.  If nothing stands in the way of the pass over
it, or that pass is one too many, the repair fails with the reports of these diagnostics, in
their order, as far as they can be shown.  Otherwise it fails with what stands in the way:
a violation, or a number that does not fit. -/
theorem untilClean_of_stalled {σ : Type} {parser : Parser σ} {options : Options} {text : Text}
    {queue : Queue} {state : σ} {outcome : Except Failure Parse} {ended : Run σ} {earlier : Nat}
    {previous result : Parse}
    (hended : (untilClean parser options).start (Run.onQueue text queue state) = (outcome, ended))
    (hprevious : (parser.answers state ended.parsed)[earlier]? = some (.ok previous))
    (hresult : (parser.answers state ended.parsed)[earlier + 1]? = some (.ok result))
    (hbroken : result.diagnostics ≠ [])
    (hstalled : previous.diagnostics.length ≤ result.diagnostics.length) :
    ∃ asked, ended.parsed[earlier + 1]? = some asked ∧ ended.parsed.length = earlier + 2 ∧
      ((options.exceeded? (earlier + 2)).isSome ∨ result.hindrance? asked = none →
        (∀ diagnostic ∈ result.diagnostics, diagnostic.location.Showable) →
        ∃ reports, outcome = .error (.unrecovered reports) ∧
          List.Forall₂ (fun (diagnostic : Diagnostic) report =>
            diagnostic.report result.text = .ok report) result.diagnostics reports) ∧
      (options.exceeded? (earlier + 2) = none → ∀ failure ∈ result.hindrance? asked,
        outcome = .error failure ∧ failure.OfReport) := by
  obtain ⟨results, before, hpassed, hends⟩ :=
    Run.untilClean_ends parser options (Run.onQueue text queue state)
  rw [hended] at hends
  obtain ⟨-, -, hlength, hanswers⟩ := hends.answers_eq rfl hpassed
  have hstate : (Run.onQueue text queue state).parser = state := rfl
  dsimp only at hlength hanswers
  rw [hstate] at hanswers
  rw [hanswers] at hprevious hresult
  -- all reports but the last one fall, so it is the last round that stalls
  obtain ⟨hlast, hpreviousLast, hanswer⟩ :=
    last_of_stalled hpassed.falling.1 hprevious hresult hstalled
  have houtcome := hends.outcome_of_broken (Step.eq_ok_of_fst hanswer) hbroken hpreviousLast
  dsimp only at houtcome
  rw [← hlast] at houtcome
  refine ⟨before.buffer.text, ?_, by omega, ?_, ?_⟩
  · rw [hlast]
    exact hends.getElem?_parsed rfl hpassed
  · intro hfree hshowable
    obtain ⟨reports, hgivenUp, hall⟩ := Parse.exists_givenUp hshowable
    refine ⟨reports, ?_, hall⟩
    rw [houtcome, ← hgivenUp, Parse.passFailure?]
    -- beyond the cap the repair gives up before the pass, and else behind it
    cases hexceeded : options.exceeded? (earlier + 2) with
    | some limit => rfl
    | none =>
        rcases hfree with hcapped | hnone
        · rw [hexceeded] at hcapped
          cases hcapped
        · rw [hnone]
          rfl
  · intro hallowed failure hfailure
    refine ⟨?_, Parse.ofReport_of_hindrance? hfailure⟩
    rw [houtcome, Parse.passFailure?, hallowed]
    dsimp only
    rw [hfailure]
    rfl

/-- A parser that reports one and the same fault of every text, at its first character. -/
def faultFinder (kind : Text) : Parser Unit := fun text =>
  pure {
    text
    tree := .mk { kind := "program_node", location := ⟨0, .int text.length, 1, 0⟩ } []
    diagnostics := [⟨kind, ⟨0, 1, 1, 0⟩, []⟩] }

/-- A bracket that stays open is reported in the end. -/
theorem untilClean_of_stalled_bracket :
    ∃ (ended : Run Unit) (reports : List Report),
      (untilClean (faultFinder "expect_rparen") {}).start (Run.onQueue "(" {} ()) =
        (.error (.unrecovered reports), ended) ∧
      ended.parsed = [("(" : Text), "("] ∧
      reports = [⟨1, "(", "^", [], "expect_rparen"⟩] := by
  let result : Parse := {
    text := "("
    tree := .mk { kind := "program_node", location := ⟨0, 1, 1, 0⟩ } []
    diagnostics := [⟨"expect_rparen", ⟨0, 1, 1, 0⟩, []⟩] }
  have hrun : ((untilClean (faultFinder "expect_rparen") {}).start
      (Run.onQueue "(" {} ())).2.parsed = [("(" : Text), "("] := by decide +kernel
  obtain ⟨outcome, ended, hended⟩ : ∃ outcome ended,
      (untilClean (faultFinder "expect_rparen") {}).start (Run.onQueue "(" {} ()) =
        (outcome, ended) := ⟨_, _, rfl⟩
  have hparsed : ended.parsed = [("(" : Text), "("] := by rw [← hrun, hended]
  have hanswers : (faultFinder "expect_rparen").answers () ended.parsed =
      [.ok result, .ok result] := by rw [hparsed]; rfl
  have hfirst : ((faultFinder "expect_rparen").answers () ended.parsed)[0]? =
      some (.ok result) := by
    rw [hanswers]
    rfl
  have hsecond : ((faultFinder "expect_rparen").answers () ended.parsed)[0 + 1]? =
      some (.ok result) := by
    rw [hanswers]
    rfl
  obtain ⟨asked, hasked, -, hstalled, -⟩ :=
    untilClean_of_stalled hended hfirst hsecond (by decide) (Nat.le_refl _)
  have hfree : result.hindrance? asked = none := by
    rw [hparsed] at hasked
    cases hasked
    decide +kernel
  have hshowable : ∀ diagnostic ∈ result.diagnostics, diagnostic.location.Showable := by
    intro diagnostic hmem
    rw [List.mem_singleton.mp hmem]
    exact ⟨rfl, by decide, by decide, by decide, by decide⟩
  obtain ⟨reports, houtcome, hall⟩ := hstalled (Or.inr hfree) hshowable
  refine ⟨ended, reports, ?_, hparsed, ?_⟩
  · rw [hended, houtcome]
  · cases hall with
    | cons hreport hrest =>
        cases hrest
        cases hreport
        rfl

/-- A parser that takes the only parameter of a constructor for a field, whether it is one or
not. -/
def fieldFinder : Parser Unit := fun text =>
  pure {
    text
    tree := .mk { kind := "program_node", location := ⟨0, .int text.length, 1, 0⟩ } []
    diagnostics := [⟨"argument_formal_ivar", ⟨15, .int (text.length - 6), 1, 15⟩, []⟩] }

/-- The report of what is no field any more has as many diagnostics as the one before it, and
its pass fails in the place of the syntax error. -/
theorem untilClean_of_stalled_no_field :
    let ending := (untilClean fieldFinder {}).start
      (Run.onQueue "def initialize(@x)\nend\n" {} ())
    ending.2.parsed = [("def initialize(@x)\nend\n" : Text), "def initialize(x)\nend\n"] ∧
      (fieldFinder.answers () ending.2.parsed).map diagnosticCount = [1, 1] ∧
      ending.1.map (fun _ => ()) = .error (.violation (.notField "x")) ∧
      ¬ ∃ reports, ending.1 = .error (.unrecovered reports) := by
  intro ending
  have houtcome : ending.1.map (fun _ => ()) = .error (.violation (.notField "x")) := by
    decide +kernel
  refine ⟨by decide +kernel, by decide +kernel, houtcome, ?_⟩
  rintro ⟨reports, hreports⟩
  rw [hreports] at houtcome
  cases houtcome

end SyntaxRepair
