import SyntaxRepair.Proofs.Repair.Findings
import SyntaxRepair.Proofs.Repair.Progress
import SyntaxRepair.Proofs.Repair.Resuming

/-!
# Passes without effect

A pass that resolves none of its diagnostics is found out at once, if the answers of the parser
depend on nothing but the text: the repair asks about the same text at most once more and gives
up with the diagnostics of that pass (`untilClean_of_idle`).

## Strategy

Two consecutive passes are compared that differ in what waits in the queue and in whether groups
are collected.  A diagnostic that is left alone changes nothing but the list of parameters that
were looked for, and whether it is left alone depends on that list and on the report
(`resolveDiagnostic_idle`).  So a sweep that resolves nothing resolves nothing from any other
state either (`sweep_idle`), and its pass leaves the text as it was (`makePass_idle`).  The next
answer is therefore the same report, and the round over it ends the repair whichever exit it
takes: the cap, or the count of its diagnostics.
-/

namespace SyntaxRepair

variable {result : Parse}

/-! ## Diagnostics that are left alone -/

/-- **A diagnostic that is left alone.**  It changes nothing but the parameters that were looked
for, and it is left alone from every state in which the same ones have been looked for. -/
theorem resolveDiagnostic_idle {diagnostic : Diagnostic} {before after : Sweep}
    (h : (resolveDiagnostic result.tree.index result diagnostic).start before =
      (.ok false, after))
    (mate : Sweep) (hseen : mate.seen = before.seen) :
    after = { before with seen := after.seen } ∧
      (resolveDiagnostic result.tree.index result diagnostic).start mate =
        (.ok false, { mate with seen := after.seen }) := by
  obtain ⟨hnone, hrange, rfl⟩ := resolveDiagnostic_eq_false_iff.mp h
  rw [← hseen] at hnone
  refine ⟨rfl, resolveDiagnostic_eq_false_iff.mpr ⟨hnone, hrange, ?_⟩⟩
  rw [hseen]

/-- All diagnostics of a pass that resolves none of them. -/
theorem resolveDiagnostics_idle {diagnostics : List Diagnostic} {before after : Sweep}
    (h : (resolveDiagnostics result.tree.index result diagnostics).start before = (.ok 0, after))
    (mate : Sweep) (hseen : mate.seen = before.seen) :
    after = { before with seen := after.seen } ∧
      (resolveDiagnostics result.tree.index result diagnostics).start mate =
        (.ok 0, { mate with seen := after.seen }) := by
  induction diagnostics generalizing before mate with
  | nil =>
      obtain ⟨-, rfl⟩ := Step.start_pure_eq_ok.mp h
      refine ⟨rfl, ?_⟩
      rw [resolveDiagnostics, Step.start_pure, ← hseen]
  | cons diagnostic rest ih =>
      rw [resolveDiagnostics_cons_eq_ok] at h ⊢
      obtain ⟨resolved, between, others, hfirst, hrest, hnone⟩ := h
      -- none of them was resolved, neither the first one nor another
      cases resolved with
      | true => cases hnone
      | false =>
          obtain rfl : others = 0 := hnone
          obtain ⟨hbetween, hmate⟩ := resolveDiagnostic_idle hfirst mate hseen
          obtain ⟨hafter, hother⟩ := ih hrest { mate with seen := between.seen } rfl
          refine ⟨?_, _, _, _, hmate, hother, rfl⟩
          rw [hafter, hbetween]

/-! ## Passes that resolve nothing -/

/-- **A sweep that resolves nothing.**  It changes nothing, and resolves nothing from any other
state, whether groups are collected or not. -/
theorem sweep_idle {first : Bool} {before after : Workspace} {groups : Option Groups}
    (h : (sweep first result).start before = (.ok (0, groups), after)) (again : Bool)
    (mate : Workspace) :
    (sweep again result).start mate = (.ok (0, if again then some [] else none), mate) := by
  obtain ⟨swept, hresolve, -⟩ := start_sweep_eq_ok.mp h
  obtain ⟨-, hmate⟩ := resolveDiagnostics_idle hresolve
    { mate with groups := if again then some [] else none } rfl
  exact start_sweep_eq_ok.mpr ⟨_, hmate, rfl, rfl⟩

/-- A pass that resolves nothing succeeds from every state, and leaves the text as it was. -/
theorem makePass_idle {first : Bool} {before after : Workspace} {groups : Option Groups}
    (h : (sweep first result).start before = (.ok (0, groups), after)) (options : Options)
    (number : Nat) (mate : Workspace) :
    ∃ made, (makePass options number result).start mate = (.ok ⟨⟩, made) ∧
      made.buffer = mate.buffer := by
  rw [makePass, Step.start_bind, sweep_idle h]
  dsimp only
  -- no groups were collected, so nothing is merged
  cases decide (number = 1) with
  | true => exact ⟨_, rfl, rfl⟩
  | false => exact ⟨_, rfl, rfl⟩

namespace Run

variable {σ : Type} {parser : Parser σ} {options : Options} {number : Nat}

theorem pass_idle {first : Bool} {before after : Workspace} {groups : Option Groups}
    (h : (sweep first result).start before = (.ok (0, groups), after))
    (hallowed : options.exceeded? number = none) (opened : Run σ) :
    ∃ made : Run σ, (pass options number result).start opened = (.ok ⟨⟩, made) ∧
      made.buffer = opened.buffer ∧ made.parsed = opened.parsed := by
  obtain ⟨workspace, hmade, hbuffer⟩ := makePass_idle h options number opened.toWorkspace
  rw [start_pass, hallowed]
  dsimp only
  rw [hmade]
  exact ⟨_, rfl, hbuffer, rfl⟩

/-- A parser that answers the same text in the same way answers a pass without effect with the
report that it was made over. -/
theorem openPass_again {answer : Text → Except Failure Parse}
    (hanswer : ∀ text state, ((parser text).start state).1 = answer text) {earlier later : Run σ}
    {opened : Run σ} (hparse : (openPass parser number).start earlier = (.ok result, opened))
    (htext : later.buffer.text = earlier.buffer.text) (again : Nat) :
    ∃ reopened, (openPass parser again).start later = (.ok result, reopened) := by
  have hfirst := fst_openPass parser number earlier
  rw [hparse, hanswer, ← htext, ← hanswer later.buffer.text later.parser] at hfirst
  exact ⟨_, Step.eq_ok_of_fst ((fst_openPass parser again later).trans hfirst.symm)⟩

/-- **A pass without effect.**  The repair ends with the report of that pass, in its own round or
in the next one. -/
theorem Passed.idle_ends {answer : Text → Except Failure Parse}
    (hanswer : ∀ text state, ((parser text).start state).1 = answer text)
    {begun earlier opened : Run σ}
    {results : List Parse} (hpassed : Passed parser options begun results earlier)
    (hparse : (openPass parser (results.length + 1)).start earlier = (.ok result, opened))
    (hbroken : result.diagnostics ≠ [])
    (hallowed : options.exceeded? (results.length + 1) = none) {first : Bool}
    {before after : Workspace} {groups : Option Groups}
    (h : (sweep first result).start before = (.ok (0, groups), after)) :
    ∃ ended, (untilClean parser options).start begun = (.error result.givenUp, ended) ∧
      (ended.parsed = earlier.parsed ++ [earlier.buffer.text] ∨
        ended.parsed = earlier.parsed ++ [earlier.buffer.text] ++ [earlier.buffer.text]) := by
  obtain ⟨made, hpass, hbuffer, -⟩ := pass_idle h hallowed opened
  have hparsed := parsed_round hparse hpass
  by_cases hprogress :
      ∀ last ∈ results.getLast?, result.diagnostics.length < last.diagnostics.length
  · -- the next answer is the same report, so its round is the last one
    have hnext := hpassed.next hparse hbroken hprogress hpass
    have htext : made.buffer.text = earlier.buffer.text := by
      rw [hbuffer, openPass_eq_ok hparse]
    obtain ⟨reopened, hagain⟩ :=
      openPass_again hanswer hparse htext ((results ++ [result]).length + 1)
    obtain ⟨ended, hends⟩ : ∃ ended, Ends parser options (results ++ [result]) made
        (.error result.givenUp, ended) := by
      cases hcap : options.exceeded? ((results ++ [result]).length + 1) with
      | some limit =>
          have hrefused := start_pass options ((results ++ [result]).length + 1) result reopened
          rw [hcap] at hrefused
          exact ⟨_, .refused hagain hbroken hrefused⟩
      | none =>
          obtain ⟨stalled, hstalled, -, -⟩ := pass_idle h hcap reopened
          exact ⟨_, .stalled hagain hbroken hstalled List.getLast?_concat (Nat.le_refl _)⟩
    refine ⟨ended, hnext.outcome_eq hends, Or.inr ?_⟩
    have hasked : ended.parsed = _ := hends.run_eq.2.trans (parsed_openPass ..)
    rw [hasked, hparsed, htext]
  · obtain ⟨last, hlast, hstalled⟩ : ∃ last ∈ results.getLast?,
        last.diagnostics.length ≤ result.diagnostics.length := by
      simpa only [not_forall, Nat.not_lt, exists_prop] using hprogress
    exact ⟨made, hpassed.outcome_eq (.stalled hparse hbroken hpass hlast hstalled), Or.inl hparsed⟩

end Run

/-- **A pass without effect is found out.**  Let the answers of a parser depend on the text alone.
If the pass over one of its reports is allowed, and a sweep resolves none of the diagnostics of
that report without a failure, then the repair asks about the text of that report at most once
more and gives up with it: it fails with the reports of these diagnostics, in their order, as far
as they can be shown. -/
theorem untilClean_of_idle {σ : Type} {parser : Parser σ} {options : Options} {text : Text}
    {queue : Queue} {state : σ} {answer : Text → Except Failure Parse}
    (hanswer : ∀ text state, ((parser text).start state).1 = answer text)
    {outcome : Except Failure Parse} {ended : Run σ}
    (hended : (untilClean parser options).start (Run.onQueue text queue state) = (outcome, ended))
    {index : Nat} (hresult : (parser.answers state ended.parsed)[index]? = some (.ok result))
    (hbroken : result.diagnostics ≠ []) (hallowed : options.exceeded? (index + 1) = none)
    {first : Bool} {before after : Workspace} {groups : Option Groups}
    (hidle : (sweep first result).start before = (.ok (0, groups), after)) :
    outcome = .error result.givenUp ∧
      (∃ asked, ended.parsed.drop index = [asked] ∨ ended.parsed.drop index = [asked, asked]) ∧
      ((∀ diagnostic ∈ result.diagnostics, diagnostic.location.Showable) →
        ∃ reports, outcome = .error (.unrecovered reports) ∧
          List.Forall₂ (fun (diagnostic : Diagnostic) report =>
            diagnostic.report result.text = .ok report) result.diagnostics reports) := by
  obtain ⟨results, last, hpassed, hends⟩ :=
    Run.untilClean_ends parser options (Run.onQueue text queue state)
  rw [hended] at hends
  -- the round in which the report is the answer
  obtain ⟨earlier, opened, hle, hearlier, hparse, -⟩ := hends.exists_earlier rfl hpassed hresult
  have hcount : (results.take index).length = index := List.length_take_of_le hle
  obtain ⟨ended', hgivenUp, hparsed⟩ := hearlier.idle_ends hanswer (hcount.symm ▸ hparse) hbroken
    (hcount.symm ▸ hallowed) hidle
  rw [hended] at hgivenUp
  obtain ⟨rfl, rfl⟩ := Prod.mk.inj hgivenUp
  have hasked : earlier.parsed.length = index := by
    have hlength := congrArg List.length (hearlier.answers_eq rfl).2
    rwa [Parser.length_answers, List.length_map, hcount] at hlength
  refine ⟨rfl, ⟨earlier.buffer.text, ?_⟩, fun hshowable => ?_⟩
  · rcases hparsed with hparsed | hparsed
    · exact Or.inl (by rw [hparsed, List.drop_left' hasked])
    · exact Or.inr (by rw [hparsed, List.append_assoc, List.drop_left' hasked]; rfl)
  · obtain ⟨reports, hreports, hall⟩ := Parse.exists_givenUp hshowable
    exact ⟨reports, congrArg Except.error hreports, hall⟩

/-- What a parser reports that finds the marker of a type outside of any definition and a bracket
in front of it that stays open, and tells the column of the bracket as it is told. -/
def strayReport (column : Json.Number) (text : Text) : Parse where
  text
  tree := .mk { kind := "program_node", location := ⟨0, .int text.length, 1, 0⟩ } []
  diagnostics :=
    [⟨"unexpected_token_ignore", ⟨2, 4, 1, 2⟩, []⟩, ⟨"expect_rparen", ⟨1, 2, 1, column⟩, []⟩]

/-- A parser with these reports. -/
def strayFinder (column : Json.Number) : Parser Unit := fun text => pure (strayReport column text)

/-- A marker without a definition is left alone, and it is reported with the bracket after the text
was parsed once more. -/
theorem untilClean_of_idle_stray :
    ∃ (ended : Run Unit) (reports : List Report),
      (untilClean (strayFinder 1) {}).start (Run.onQueue "f(=>" {} ()) =
        (.error (.unrecovered reports), ended) ∧
      ended.parsed = [("f(=>" : Text), "f(=>"] ∧
      reports = [⟨1, "f(=>", "  ^~", [], "unexpected_token_ignore"⟩,
        ⟨1, "f(=>", " ^", [], "expect_rparen"⟩] := by
  have hrun : ((untilClean (strayFinder 1) {}).start (Run.onQueue "f(=>" {} ())).2.parsed =
      [("f(=>" : Text), "f(=>"] := by decide +kernel
  obtain ⟨outcome, ended, hended⟩ : ∃ outcome ended,
      (untilClean (strayFinder 1) {}).start (Run.onQueue "f(=>" {} ()) = (outcome, ended) :=
    ⟨_, _, rfl⟩
  have hparsed : ended.parsed = [("f(=>" : Text), "f(=>"] := by rw [← hrun, hended]
  have hresult : ((strayFinder 1).answers () ended.parsed)[0]? =
      some (.ok (strayReport 1 "f(=>")) := by
    rw [hparsed]
    rfl
  obtain ⟨groups, swept, hidle⟩ : ∃ groups swept, (sweep true (strayReport 1 "f(=>")).start
      { buffer := { text := "f(=>" } } = (.ok (0, groups), swept) := by
    have hcount : ((sweep true (strayReport 1 "f(=>")).start
        { buffer := { text := "f(=>" } }).1.map Prod.fst = .ok 0 := by decide +kernel
    generalize (sweep true (strayReport 1 "f(=>")).start { buffer := { text := "f(=>" } } = swept
      at hcount ⊢
    obtain ⟨failure | ⟨count, groups⟩, after⟩ := swept
    · cases hcount
    · cases hcount
      exact ⟨groups, after, rfl⟩
  obtain ⟨-, -, hreports⟩ := untilClean_of_idle (fun _ _ => rfl) hended hresult
    (List.cons_ne_nil _ _) rfl hidle
  obtain ⟨reports, houtcome, hall⟩ := hreports (by
    intro diagnostic hmem
    simp only [strayReport, List.mem_cons, List.not_mem_nil, or_false] at hmem
    rcases hmem with rfl | rfl
    · exact ⟨rfl, by decide, by decide, by decide, by decide⟩
    · exact ⟨rfl, by decide, by decide, by decide, by decide⟩)
  refine ⟨ended, reports, by rw [hended, houtcome], hparsed, ?_⟩
  cases hall with
  | cons hfirst hrest =>
      cases hrest with
      | cons hsecond hnone =>
          cases hnone
          cases hfirst
          cases hsecond
          rfl

/-- The column of a diagnostic that is written with a fraction stands in the way of its report:
after a pass without effect the repair fails with the number in the place of the syntax error. -/
theorem untilClean_of_idle_float_column :
    let finder := strayFinder (.float (.ofInt 1))
    let ending := (untilClean finder {}).start (Run.onQueue "f(=>" {} ())
    ending.2.parsed = [("f(=>" : Text), "f(=>"] ∧
      (finder.answers () ending.2.parsed).map diagnosticCount = [2, 2] ∧
      ((sweep true (strayReport (.float (.ofInt 1)) "f(=>")).start
        { buffer := { text := "f(=>" } }).1.map Prod.fst = .ok 0 ∧
      ending.1.map (fun _ => ()) = .error (.misfit .floatCount) ∧
      ¬ ∃ reports, ending.1 = .error (.unrecovered reports) := by
  intro finder ending
  have houtcome : ending.1.map (fun _ => ()) = .error (.misfit .floatCount) := by decide +kernel
  refine ⟨by decide +kernel, by decide +kernel, by decide +kernel, houtcome, ?_⟩
  rintro ⟨reports, hreports⟩
  rw [hreports] at houtcome
  cases houtcome

end SyntaxRepair
