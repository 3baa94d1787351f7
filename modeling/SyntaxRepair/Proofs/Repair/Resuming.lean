import SyntaxRepair.Proofs.Repair.Rounds

/-!
# Going on with a repair

`Run.Passed` tells which states a repair comes to between two rounds, and `Run.Ends` how a
round ends it.  This file reads both as equations: from a state between two rounds a repair
does what `resume` does from there (`Passed.untilClean_eq`), and a round that ends it says what
comes of the whole repair (`Passed.outcome_eq`).

The equations serve two comparisons.  A repair can be followed beyond a state of which
something is known, and two repairs that come to the same state end in the same way.
-/

namespace SyntaxRepair

namespace Run

variable {σ : Type} {parser : Parser σ} {options : Options} {begun before : Run σ}
  {results : List Parse} {ending : Except Failure Parse × Run σ}

/-- What a repair does that has made its passes over some reports. -/
def resume (parser : Parser σ) (options : Options) (results : List Parse) :
    Step (Run σ) Parse :=
  match results.getLast? with
  | none => untilClean parser options
  | some last => continueFrom parser options (results.length + 1) last.diagnostics.length

theorem resume_concat (parser : Parser σ) (options : Options) (results : List Parse)
    (last : Parse) : resume parser options (results ++ [last]) =
      continueFrom parser options (results.length + 1 + 1) last.diagnostics.length := by
  rw [resume, List.getLast?_concat, List.length_append, List.length_singleton]

/-- **One round.**  A repair goes on by opening a pass.  A parse that is not clean is followed by
its pass, and the repair gives up behind it unless the parse has fewer diagnostics than the one
before it. -/
theorem resume_eq (parser : Parser σ) (options : Options) (results : List Parse) :
    resume parser options results = (do
      let result ← openPass parser (results.length + 1)
      if result.diagnostics.isEmpty then return result
      pass options (results.length + 1) result
      if ∀ last ∈ results.getLast?, result.diagnostics.length < last.diagnostics.length then
        resume parser options (results ++ [result])
      else throw result.givenUp) := by
  simp only [resume_concat]
  rw [resume]
  cases hlast : results.getLast? with
  | none =>
      obtain rfl : results = [] := List.getLast?_eq_none_iff.mp hlast
      simp only [Option.not_mem_none, false_implies, implies_true, if_true]
      rfl
  | some last =>
      simp only [Option.mem_some_iff, forall_eq']
      rw [continueFrom]

theorem start_resume_of_error {failure : Failure} {after : Run σ}
    (hparse : (openPass parser (results.length + 1)).start before = (.error failure, after)) :
    (resume parser options results).start before = (.error failure, after) := by
  rw [resume_eq, Step.start_bind, hparse]

theorem start_resume_of_clean {result : Parse} {after : Run σ}
    (hparse : (openPass parser (results.length + 1)).start before = (.ok result, after))
    (hclean : result.diagnostics = []) :
    (resume parser options results).start before = (.ok result, after) := by
  rw [resume_eq, Step.start_bind, hparse]
  dsimp only
  rw [hclean, List.isEmpty_nil, if_pos rfl, Step.start_pure]

theorem start_resume_of_broken {result : Parse} {opened : Run σ}
    (hparse : (openPass parser (results.length + 1)).start before = (.ok result, opened))
    (hbroken : result.diagnostics ≠ []) :
    (resume parser options results).start before =
      match (pass options (results.length + 1) result).start opened with
      | (.error failure, after) => (.error failure, after)
      | (.ok _, after) =>
          if ∀ last ∈ results.getLast?, result.diagnostics.length < last.diagnostics.length then
            (resume parser options (results ++ [result])).start after
          else (.error result.givenUp, after) := by
  rw [resume_eq, Step.start_bind, hparse]
  dsimp only
  rw [if_neg (by simpa using hbroken), Step.start_bind]
  rcases (pass options (results.length + 1) result).start opened with ⟨failure | done, after⟩
  · rfl
  · dsimp only
    split
    · rfl
    · rw [Step.start_throw]

/-- **Going on.**  A repair that has come to a state between two rounds does what is done from
there. -/
theorem Passed.untilClean_eq (hpassed : Passed parser options begun results before) :
    (untilClean parser options).start begun = (resume parser options results).start before := by
  induction hpassed with
  | start => rfl
  | next earlier hparse hbroken hprogress hpass ih =>
      rw [ih, start_resume_of_broken hparse hbroken, hpass]
      dsimp only
      rw [if_pos hprogress]

/-- A round that ends a repair is all that is left to do. -/
theorem Ends.start_resume (hends : Ends parser options results before ending) :
    (resume parser options results).start before = ending := by
  cases hends with
  | unparsed hparse => exact start_resume_of_error hparse
  | clean hparse hclean => exact start_resume_of_clean hparse hclean
  | refused hparse hbroken hpass => rw [start_resume_of_broken hparse hbroken, hpass]
  | stalled hparse hbroken hpass hlast hstalled =>
      rw [start_resume_of_broken hparse hbroken, hpass]
      dsimp only
      rw [if_neg fun hprogress => Nat.not_lt_of_le hstalled (hprogress _ hlast)]

/-- What comes of a repair is told by any round that ends it. -/
theorem Passed.outcome_eq (hpassed : Passed parser options begun results before)
    (hends : Ends parser options results before ending) :
    (untilClean parser options).start begun = ending :=
  hpassed.untilClean_eq.trans hends.start_resume

/-- Each report that a pass was made over is the answer of a round that began behind the
passes before it. -/
theorem Passed.exists_earlier (hpassed : Passed parser options begun results before) {index : Nat}
    {result : Parse} (hresult : results[index]? = some result) :
    ∃ earlier opened : Run σ, Passed parser options begun (results.take index) earlier ∧
      (openPass parser (index + 1)).start earlier = (.ok result, opened) ∧
      result.diagnostics ≠ [] ∧
      earlier.parsed ++ [earlier.buffer.text] <+: before.parsed := by
  induction hpassed with
  | start => cases hresult
  | @next results last before opened after passed hparse hbroken hprogress hpass ih =>
      have hround : before.parsed ++ [before.buffer.text] <+: after.parsed :=
        (parsed_round hparse hpass).symm ▸ List.prefix_rfl
      rcases Nat.lt_or_ge index results.length with hlt | hge
      · rw [List.getElem?_append_left hlt] at hresult
        obtain ⟨earlier, opened', hpassed, hparse', hbroken', hprefix⟩ := ih hresult
        rw [List.take_append_of_le_length (Nat.le_of_lt hlt)]
        refine ⟨earlier, opened', hpassed, hparse', hbroken', hprefix.trans ?_⟩
        exact (List.prefix_append ..).trans hround
      · -- it is the report of the last pass
        obtain ⟨hindex, -⟩ := List.getElem?_eq_some_iff.mp hresult
        rw [List.length_append, List.length_singleton] at hindex
        obtain rfl : index = results.length := by omega
        rw [List.getElem?_concat_length, Option.some.injEq] at hresult
        subst hresult
        rw [List.take_left]
        exact ⟨before, opened, passed, hparse, hbroken, hround⟩

/-- Each report that a repair was answered is the answer of a round of its own. -/
theorem Ends.exists_earlier (hends : Ends parser options results before ending)
    (hbegun : begun.parsed = []) (hpassed : Passed parser options begun results before)
    {index : Nat} {result : Parse}
    (hresult : (parser.answers begun.parser ending.2.parsed)[index]? = some (.ok result)) :
    ∃ earlier opened : Run σ, index ≤ results.length ∧
      Passed parser options begun (results.take index) earlier ∧
      (openPass parser (index + 1)).start earlier = (.ok result, opened) ∧
      earlier.parsed ++ [earlier.buffer.text] <+: ending.2.parsed := by
  obtain ⟨-, hparsed, -, hanswers⟩ := hends.answers_eq hbegun hpassed
  rw [hanswers] at hresult
  rw [hparsed]
  rcases Nat.lt_or_ge index results.length with hlt | hge
  · rw [List.getElem?_append_left (by rwa [List.length_map]), List.getElem?_map,
      Option.map_eq_some_iff] at hresult
    obtain ⟨found, hfound, hok⟩ := hresult
    cases hok
    obtain ⟨earlier, opened, hearlier, hparse, -, hprefix⟩ := hpassed.exists_earlier hfound
    exact ⟨earlier, opened, Nat.le_of_lt hlt, hearlier, hparse,
      hprefix.trans (List.prefix_append ..)⟩
  · -- it is the answer of the last round
    obtain ⟨hindex, -⟩ := List.getElem?_eq_some_iff.mp hresult
    rw [List.length_append, List.length_map, List.length_singleton] at hindex
    obtain rfl : index = results.length := by omega
    rw [List.getElem?_append_right (by rw [List.length_map]), List.length_map, Nat.sub_self]
      at hresult
    rw [List.take_length]
    exact ⟨before, _, Nat.le_refl _, hpassed, Step.eq_ok_of_fst (Option.some.inj hresult),
      List.prefix_rfl⟩

end Run

end SyntaxRepair
