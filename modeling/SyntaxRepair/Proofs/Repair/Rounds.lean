import SyntaxRepair.Repair.Loop
import SyntaxRepair.Proofs.Repair.Steps
import Mathlib.Data.List.Chain

/-!
# The rounds of a repair

A repair goes in rounds: the text is parsed and, unless it is clean, a pass is made over
its report.  `Run.Passed` tells the states that a repair comes to between two rounds, with
the reports that it has made passes over, and `Run.Ends` the ways in which its last round
can end.

## Strategy

`untilClean_ends` shows once that a repair does nothing else than to go from round to round
until one of them ends it.  Everything about whole repairs is then proved in two parts: what
one more round keeps, by induction on `Run.Passed`, and what the last one adds, by the cases
of `Run.Ends`.

The answers that a parser has given in a repair need no record of their own.  The texts that
it was asked about are known, and `Parser.answers` asks it again.
-/

namespace SyntaxRepair

/-! ## Asking a parser again -/

namespace Parser

variable {σ : Type}

/-- What a parser answers if it is asked about some texts, one after another. -/
def answers (parser : Parser σ) (state : σ) : List Text → List (Except Failure Parse)
  | [] => []
  | text :: rest =>
      let answer := (parser text).start state
      answer.1 :: parser.answers answer.2 rest

/-- The state in which a parser is left by some questions. -/
def stateAfter (parser : Parser σ) (state : σ) : List Text → σ
  | [] => state
  | text :: rest => parser.stateAfter ((parser text).start state).2 rest

theorem answers_concat (parser : Parser σ) (state : σ) (asked : List Text) (text : Text) :
    parser.answers state (asked ++ [text]) =
      parser.answers state asked ++ [((parser text).start (parser.stateAfter state asked)).1] := by
  induction asked generalizing state with
  | nil => rfl
  | cons first rest ih => exact congrArg (_ :: ·) (ih _)

theorem stateAfter_concat (parser : Parser σ) (state : σ) (asked : List Text) (text : Text) :
    parser.stateAfter state (asked ++ [text]) =
      ((parser text).start (parser.stateAfter state asked)).2 := by
  induction asked generalizing state with
  | nil => rfl
  | cons first rest ih => exact ih _

theorem length_answers (parser : Parser σ) (state : σ) (asked : List Text) :
    (parser.answers state asked).length = asked.length := by
  induction asked generalizing state with
  | nil => rfl
  | cons first rest ih => exact congrArg (· + 1) (ih _)

end Parser

namespace Run

variable {σ : Type} {parser : Parser σ} {options : Options} {number : Nat} {result : Parse}
  {before after : Run σ}

/-- A repair of a text that has not begun, with a queue that may hold missions already. -/
def onQueue (text : Text) (queue : Queue) (state : σ) : Run σ := { Run.of text state with queue }

/-! ## One round -/

/-- Opening a pass asks the parser about the text as it is, and begins a new coordinate
space if it answers. -/
theorem start_openPass (parser : Parser σ) (number : Nat) (run : Run σ) :
    (openPass parser number).start run =
      match (parser run.buffer.text).start run.parser with
      | (.error failure, state) =>
          (.error failure, { run with parser := state, parsed := run.parsed ++ [run.buffer.text] })
      | (.ok result, state) =>
          (.ok result,
            { run with
              parser := state
              parsed := run.parsed ++ [run.buffer.text]
              buffer := { text := run.buffer.text }
              journal := run.journal ++
                [.passBegins number result.diagnostics.length run.queue.missions.length] }) := by
  simp only [openPass, parse, onWorkspace, Step.start_bind, Step.start_within, Step.start_get,
    Step.start_modify, Step.start_pure]
  rcases (parser run.buffer.text).start run.parser with ⟨failure | result, state⟩ <;> rfl

theorem openPass_eq_ok_iff {opened : Run σ} :
    (openPass parser number).start before = (.ok result, opened) ↔
      ∃ state, (parser before.buffer.text).start before.parser = (.ok result, state) ∧
        opened = { before with
          parser := state
          parsed := before.parsed ++ [before.buffer.text]
          buffer := { text := before.buffer.text }
          journal := before.journal ++
            [.passBegins number result.diagnostics.length before.queue.missions.length] } := by
  rw [start_openPass]
  rcases (parser before.buffer.text).start before.parser with ⟨failure | answer, state⟩
  · simp
  · constructor
    · intro h
      cases h
      exact ⟨state, rfl, rfl⟩
    · rintro ⟨_, hanswer, rfl⟩
      cases hanswer
      rfl

theorem openPass_eq_ok
    (h : (openPass parser number).start before = (.ok result, after)) :
    after.buffer = { text := before.buffer.text } := by
  obtain ⟨state, -, rfl⟩ := openPass_eq_ok_iff.mp h
  rfl

/-- The parser is asked about the text as it is, whatever it answers. -/
theorem parsed_openPass (parser : Parser σ) (number : Nat) (run : Run σ) :
    ((openPass parser number).start run).2.parsed = run.parsed ++ [run.buffer.text] := by
  rw [start_openPass]
  rcases (parser run.buffer.text).start run.parser with ⟨failure | result, state⟩ <;> rfl

theorem parser_openPass (parser : Parser σ) (number : Nat) (run : Run σ) :
    ((openPass parser number).start run).2.parser =
      ((parser run.buffer.text).start run.parser).2 := by
  rw [start_openPass]
  rcases (parser run.buffer.text).start run.parser with ⟨failure | result, state⟩ <;> rfl

/-- A pass ends the repair at the cap, and else works on the workspace alone. -/
theorem start_pass (options : Options) (number : Nat) (result : Parse) (run : Run σ) :
    (pass options number result).start run =
      match options.exceeded? number with
      | some limit =>
          (.error result.givenUp, { run with journal := run.journal ++ [.givesUp limit] })
      | none =>
          (((makePass options number result).start run.toWorkspace).1,
            { run with
              toWorkspace := ((makePass options number result).start run.toWorkspace).2 }) := by
  unfold pass
  cases options.exceeded? number <;> rfl

/-- A pass asks the parser nothing, however it ends. -/
theorem pass_asks_nothing {outcome : Except Failure Unit}
    (h : (pass options number result).start before = (outcome, after)) :
    after.parser = before.parser ∧ after.parsed = before.parsed := by
  rw [start_pass] at h
  cases hexceeded : options.exceeded? number with
  | some limit =>
      rw [hexceeded] at h
      cases h
      exact ⟨rfl, rfl⟩
  | none =>
      rw [hexceeded] at h
      cases h
      exact ⟨rfl, rfl⟩

/-- A pass that succeeds is not one too many, and makes its pass on the workspace. -/
theorem pass_eq_ok {done : Unit}
    (h : (pass options number result).start before = (.ok done, after)) :
    (makePass options number result).start before.toWorkspace = (.ok done, after.toWorkspace) := by
  rw [start_pass] at h
  cases hexceeded : options.exceeded? number with
  | some limit =>
      rw [hexceeded] at h
      cases h
  | none =>
      rw [hexceeded] at h
      obtain ⟨houtcome, rfl⟩ := Prod.mk.inj h
      exact Step.eq_ok_of_fst houtcome

theorem exceeded?_of_pass_eq_ok {done : Unit}
    (h : (pass options number result).start before = (.ok done, after)) :
    options.exceeded? number = none := by
  rw [start_pass] at h
  cases hexceeded : options.exceeded? number with
  | some limit =>
      rw [hexceeded] at h
      cases h
  | none => rfl

/-- A round asks about the text that it begins with. -/
theorem parsed_round {opened : Run σ} {outcome : Except Failure Unit}
    (hparse : (openPass parser number).start before = (.ok result, opened))
    (hpass : (pass options number result).start opened = (outcome, after)) :
    after.parsed = before.parsed ++ [before.buffer.text] := by
  have hasked := parsed_openPass parser number before
  rw [hparse] at hasked
  exact (pass_asks_nothing hpass).2.trans hasked

/-! ## From round to round -/

/-- A repair that has made its passes over some reports, each of them over fewer
diagnostics than the one before it. -/
inductive Passed (parser : Parser σ) (options : Options) (begun : Run σ) :
    List Parse → Run σ → Prop
  | start : Passed parser options begun [] begun
  | next {results : List Parse} {result : Parse} {before opened after : Run σ}
      (earlier : Passed parser options begun results before)
      (hparse : (openPass parser (results.length + 1)).start before = (.ok result, opened))
      (hbroken : result.diagnostics ≠ [])
      (hprogress : ∀ last ∈ results.getLast?, result.diagnostics.length < last.diagnostics.length)
      (hpass : (pass options (results.length + 1) result).start opened = (.ok ⟨⟩, after)) :
      Passed parser options begun (results ++ [result]) after

/-- A pass is the first one if no other was made. -/
theorem decide_first (results : List Parse) :
    decide (results.length + 1 = 1) = results.isEmpty := by
  rw [Bool.eq_iff_iff, decide_eq_true_iff, List.isEmpty_iff_length_eq_zero, Nat.add_eq_right]

/-- How a round ends a repair that has made its passes over `results`. -/
inductive Ends (parser : Parser σ) (options : Options) (results : List Parse) (before : Run σ) :
    Except Failure Parse × Run σ → Prop
  /-- The parser gives no report. -/
  | unparsed {failure : Failure} {after : Run σ}
      (hparse : (openPass parser (results.length + 1)).start before = (.error failure, after)) :
      Ends parser options results before (.error failure, after)
  /-- The text parses cleanly. -/
  | clean {result : Parse} {after : Run σ}
      (hparse : (openPass parser (results.length + 1)).start before = (.ok result, after))
      (hclean : result.diagnostics = []) :
      Ends parser options results before (.ok result, after)
  /-- The pass fails or is one too many. -/
  | refused {result : Parse} {failure : Failure} {opened after : Run σ}
      (hparse : (openPass parser (results.length + 1)).start before = (.ok result, opened))
      (hbroken : result.diagnostics ≠ [])
      (hpass : (pass options (results.length + 1) result).start opened = (.error failure, after)) :
      Ends parser options results before (.error failure, after)
  /-- The report has no fewer diagnostics than the one before it. -/
  | stalled {last result : Parse} {opened after : Run σ}
      (hparse : (openPass parser (results.length + 1)).start before = (.ok result, opened))
      (hbroken : result.diagnostics ≠ [])
      (hpass : (pass options (results.length + 1) result).start opened = (.ok ⟨⟩, after))
      (hlast : last ∈ results.getLast?)
      (hstalled : last.diagnostics.length ≤ result.diagnostics.length) :
      Ends parser options results before (.error result.givenUp, after)

/-- From a state between two rounds there is a round that ends the repair. -/
theorem continueFrom_ends {begun : Run σ} {results : List Parse} {last : Parse}
    (hpassed : Passed parser options begun results before) (hlast : last ∈ results.getLast?) :
    ∃ results' before', Passed parser options begun results' before' ∧
      Ends parser options results' before'
        ((continueFrom parser options (results.length + 1) last.diagnostics.length).start
          before) := by
  -- each further round has fewer diagnostics than the one before it
  induction hcount : last.diagnostics.length using Nat.strong_induction_on
    generalizing results last before with
  | _ count ih =>
    subst hcount
    rw [continueFrom, Step.start_bind]
    rcases hparse : (openPass parser (results.length + 1)).start before with
      ⟨failure | result, opened⟩
    · exact ⟨results, before, hpassed, .unparsed hparse⟩
    · dsimp only
      by_cases hclean : result.diagnostics = []
      · rw [hclean, List.isEmpty_nil, if_pos rfl, Step.start_pure]
        exact ⟨results, before, hpassed, .clean hparse hclean⟩
      · rw [if_neg (by simpa using hclean), Step.start_bind]
        rcases hpass : (pass options (results.length + 1) result).start opened with
          ⟨failure | done, after⟩
        · exact ⟨results, before, hpassed, .refused hparse hclean hpass⟩
        · dsimp only
          by_cases hprogress : result.diagnostics.length < last.diagnostics.length
          · -- one more pass has been made, and the repair goes on from behind it
            rw [if_pos hprogress]
            have hnext : Passed parser options begun (results ++ [result]) after :=
              hpassed.next hparse hclean (fun other hother => by
                rw [Option.mem_unique hother hlast]
                exact hprogress) hpass
            have hends := ih _ hprogress hnext (by simp) rfl
            rw [List.length_append, List.length_singleton] at hends
            exact hends
          · rw [if_neg hprogress, Step.start_throw]
            exact ⟨results, before, hpassed,
              .stalled hparse hclean hpass hlast (Nat.le_of_not_lt hprogress)⟩

/-- **A repair goes from round to round.**  Whatever the parser answers, there is a round
that ends it. -/
theorem untilClean_ends (parser : Parser σ) (options : Options) (begun : Run σ) :
    ∃ results before, Passed parser options begun results before ∧
      Ends parser options results before ((untilClean parser options).start begun) := by
  rw [untilClean, Step.start_bind]
  rcases hparse : (openPass parser 1).start begun with ⟨failure | result, opened⟩
  · exact ⟨[], begun, .start, .unparsed hparse⟩
  · dsimp only
    by_cases hclean : result.diagnostics = []
    · rw [hclean, List.isEmpty_nil, if_pos rfl, Step.start_pure]
      exact ⟨[], begun, .start, .clean hparse hclean⟩
    · rw [if_neg (by simpa using hclean), Step.start_bind]
      rcases hpass : (pass options 1 result).start opened with ⟨failure | done, after⟩
      · exact ⟨[], begun, .start, .refused hparse hclean hpass⟩
      · have hnext : Passed parser options begun ([] ++ [result]) after :=
          Passed.start.next hparse hclean (by simp) hpass
        exact continueFrom_ends hnext (by simp)

/-! ## What the parser was asked -/

/-- What the parser answers is the outcome of opening a pass. -/
theorem fst_openPass (parser : Parser σ) (number : Nat) (run : Run σ) :
    ((openPass parser number).start run).1 =
      ((parser run.buffer.text).start run.parser).1 := by
  rw [start_openPass]
  rcases (parser run.buffer.text).start run.parser with ⟨failure | result, state⟩ <;> rfl

/-- The parser is in the state that its questions have left it in. -/
def Asked (parser : Parser σ) (begun run : Run σ) : Prop :=
  run.parser = parser.stateAfter begun.parser run.parsed

theorem Asked.openPass {begun run : Run σ} (hasked : Asked parser begun run) (number : Nat) :
    Asked parser begun ((openPass parser number).start run).2 ∧
      parser.answers begun.parser ((Run.openPass parser number).start run).2.parsed =
        parser.answers begun.parser run.parsed ++ [((Run.openPass parser number).start run).1] := by
  unfold Asked at *
  rw [parsed_openPass, parser_openPass, fst_openPass, Parser.stateAfter_concat,
    Parser.answers_concat, ← hasked]
  exact ⟨rfl, rfl⟩

/-- The answers of the parser between two rounds are the reports of the passes. -/
theorem Passed.answers_eq {begun : Run σ} {results : List Parse} (hbegun : begun.parsed = [])
    (hpassed : Passed parser options begun results before) :
    Asked parser begun before ∧
      parser.answers begun.parser before.parsed = results.map Except.ok := by
  induction hpassed with
  | start =>
      unfold Asked
      rw [hbegun]
      exact ⟨rfl, rfl⟩
  | @next results result before opened after earlier hparse hbroken hprogress hpass ih =>
      obtain ⟨hasked, hanswers⟩ := ih
      obtain ⟨hopened, hmore⟩ := hasked.openPass (results.length + 1)
      obtain ⟨hparser, hparsed⟩ := pass_asks_nothing hpass
      rw [hparse] at hopened hmore
      dsimp only at hopened hmore
      unfold Asked at *
      rw [hparser, hparsed, hmore, hanswers, List.map_append]
      exact ⟨hopened, rfl⟩

/-- The first question is the text that the repair began with. -/
theorem Passed.exists_parsed_eq {begun : Run σ} {results : List Parse}
    (hbegun : begun.parsed = []) (hpassed : Passed parser options begun results before) :
    ∃ rest, before.parsed ++ [before.buffer.text] = begun.buffer.text :: rest := by
  induction hpassed with
  | start => exact ⟨[], by rw [hbegun, List.nil_append]⟩
  | @next results result before opened after earlier hparse hbroken hprogress hpass ih =>
      obtain ⟨rest, hrest⟩ := ih
      refine ⟨rest ++ [after.buffer.text], ?_⟩
      rw [parsed_round hparse hpass, hrest, List.cons_append]

/-- The last round asks the parser once. -/
theorem Ends.run_eq {results : List Parse} {ending : Except Failure Parse × Run σ}
    (hends : Ends parser options results before ending) :
    ending.2.parser = ((openPass parser (results.length + 1)).start before).2.parser ∧
      ending.2.parsed = ((openPass parser (results.length + 1)).start before).2.parsed := by
  cases hends with
  | unparsed hparse => rw [hparse]; exact ⟨rfl, rfl⟩
  | clean hparse hclean => rw [hparse]; exact ⟨rfl, rfl⟩
  | refused hparse hbroken hpass => rw [hparse]; exact pass_asks_nothing hpass
  | stalled hparse hbroken hpass hlast hstalled => rw [hparse]; exact pass_asks_nothing hpass

/-- **The questions of a repair.**  It asks once in each round, and the answers are the
reports of its passes with the answer of its last round behind them. -/
theorem Ends.answers_eq {begun : Run σ} {results : List Parse}
    {ending : Except Failure Parse × Run σ} (hbegun : begun.parsed = [])
    (hpassed : Passed parser options begun results before)
    (hends : Ends parser options results before ending) :
    Asked parser begun ending.2 ∧ ending.2.parsed = before.parsed ++ [before.buffer.text] ∧
      ending.2.parsed.length = results.length + 1 ∧
      parser.answers begun.parser ending.2.parsed =
        results.map Except.ok ++ [((openPass parser (results.length + 1)).start before).1] := by
  obtain ⟨hasked, hanswers⟩ := hpassed.answers_eq hbegun
  obtain ⟨hopened, hmore⟩ := hasked.openPass (results.length + 1)
  obtain ⟨hparser, hparsed⟩ := hends.run_eq
  unfold Asked at *
  rw [← hparser, ← hparsed] at hopened
  rw [← hparsed, hanswers] at hmore
  have hlength := congrArg List.length hmore
  rw [Parser.length_answers, List.length_append, List.length_map, List.length_singleton] at hlength
  exact ⟨hopened, hparsed.trans (parsed_openPass ..), hlength, hmore⟩

/-- The last question is the text that the passes have left. -/
theorem Ends.getElem?_parsed {begun : Run σ} {results : List Parse}
    {ending : Except Failure Parse × Run σ} (hbegun : begun.parsed = [])
    (hpassed : Passed parser options begun results before)
    (hends : Ends parser options results before ending) :
    ending.2.parsed[results.length]? = some before.buffer.text := by
  obtain ⟨-, hparsed, hlength, -⟩ := hends.answers_eq hbegun hpassed
  rw [hparsed, List.length_append, List.length_singleton] at hlength
  rw [hparsed, ← Nat.succ.inj hlength, List.getElem?_concat_length]

/-! ## Passes make progress -/

/-- The numbers of diagnostics fall from pass to pass, and none of them is zero. -/
theorem Passed.falling {begun : Run σ} {results : List Parse}
    (hpassed : Passed parser options begun results before) :
    (results.IsChain fun earlier later =>
      later.diagnostics.length < earlier.diagnostics.length) ∧
      ∀ result ∈ results, result.diagnostics ≠ [] := by
  induction hpassed with
  | start => exact ⟨List.IsChain.nil, List.forall_mem_nil _⟩
  | @next results result before opened after earlier hparse hbroken hprogress hpass ih =>
      constructor
      · refine List.isChain_append.mpr ⟨ih.1, List.IsChain.singleton _, ?_⟩
        intro last hlast next hnext
        rw [List.head?_cons, Option.mem_some_iff] at hnext
        rw [← hnext]
        exact hprogress last hlast
      · rw [List.forall_mem_append]
        exact ⟨ih.2, List.forall_mem_singleton.mpr hbroken⟩

/-- No pass is beyond the cap. -/
theorem Passed.exceeded?_eq_none {begun : Run σ} {results : List Parse}
    (hpassed : Passed parser options begun results before) (hsome : results ≠ []) :
    options.exceeded? results.length = none := by
  cases hpassed with
  | start => exact absurd rfl hsome
  | next earlier hparse hbroken hprogress hpass =>
      rw [List.length_append, List.length_singleton]
      exact exceeded?_of_pass_eq_ok hpass

end Run

end SyntaxRepair
