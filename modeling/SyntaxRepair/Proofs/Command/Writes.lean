import SyntaxRepair.Proofs.Command.Outputs

/-!
# What the command writes

Sources are repaired one after another, and only what is repaired is written.  Wherever the command
ends, the files are therefore those that the sources before that one have left
(`exists_worked_of_returned`): each target of theirs holds the result of the last source that has
it, and all else is as it was (`WroteTargets`).  A source that fails leaves its target alone.
-/

namespace SyntaxRepair.Command

open Utf8 (Octets)

variable {σ : Type} {setup : Setup} {run : Runner σ} {out : Option Path} {source : Path}
  {result : Text} {place : List Text} {before repaired delivered after : World σ}

/-! ## Targets and what they hold -/

/-- The target of a source holds what the source came to when its turn came behind `earlier`
ones. -/
def Filled (setup : Setup) (run : Runner σ) (out : Option Path) (before : World σ)
    (after : FileStore) (earlier : List Path) (source : Path) (place : List Text) : Prop :=
  TargetAt out before.files source place ∧
    ∃ outdated between result repaired octets,
      Worked setup run (.write out) earlier before outdated between ∧
      Repairs setup run source between (.ok (.ok result), repaired) ∧
      Utf8.encode result = .ok octets ∧ after.entry? place = some (.file octets)

/-- Exactly the targets of some sources have been written. -/
structure WroteTargets (setup : Setup) (run : Runner σ) (out : Option Path) (sources : List Path)
    (before : World σ) (after : FileStore) : Prop where
  /-- Each source has a target. -/
  targets : ∀ source ∈ sources, ∃ place, TargetAt out before.files source place
  /-- Where targets stand there is the result of the last source that has its target there. -/
  filled : ∀ source ∈ sources, ∀ place, TargetAt out before.files source place →
    ∃ earlier last later, sources = earlier ++ last :: later ∧
      (∀ other ∈ later, ¬ TargetAt out before.files other place) ∧
      Filled setup run out before after earlier last place
  /-- Elsewhere there is what was there before. -/
  kept : ∀ place, (∀ source ∈ sources, ¬ TargetAt out before.files source place) →
    after.entry? place = before.files.entry? place

/-- Targets stand where they stood. -/
theorem targetAt_congr {store other : FileStore} (source : Path) (place : List Text)
    (h : ∀ path place, store.locate path = .ok place ↔ other.locate path = .ok place) :
    TargetAt out store source place ↔ TargetAt out other source place :=
  exists_congr fun target => and_congr_right fun _ => h target place

/-! ## What each part of the command leaves alone -/

/-- A result that is not to be written changes no file. -/
theorem Delivers.files_eq {delivery : Delivery} {ending : Except Error Bool × World σ}
    (h : Delivers source result before delivery ending) (hread : ∀ out, delivery ≠ .write out) :
    ending.2.files = before.files := by
  cases h with
  | written => exact absurd rfl (hread _)
  | unencodable => exact absurd rfl (hread _)
  | _ => rfl

theorem Worked.files_eq {delivery : Delivery} {sources : List Path} {outdated : Bool}
    (h : Worked setup run delivery sources before outdated after)
    (hread : ∀ out, delivery ≠ .write out) : after.files = before.files := by
  induction h with
  | done => rfl
  | next hrepairs hdelivers hrest ih =>
      exact ih.trans ((hdelivers.files_eq hread).trans hrepairs.files_eq)

/-! ## What is written -/

/-- One more source in front: where a later one has its target, too, nothing is left of it. -/
theorem WroteTargets.cons {rest : List Path} {octets : Octets} {outdated : Bool} {after : FileStore}
    (hrest : WroteTargets setup run out rest delivered after)
    (hrepairs : Repairs setup run source before (.ok (.ok result), repaired))
    (hdelivers : Delivers source result repaired (.write out) (.ok outdated, delivered))
    (htarget : TargetAt out before.files source place) (hencode : Utf8.encode result = .ok octets)
    (hwrote : before.files.Wrote place octets delivered.files) :
    WroteTargets setup run out (source :: rest) before after := by
  have hplaced (other : Path) (spot : List Text) :
      TargetAt out delivered.files other spot ↔ TargetAt out before.files other spot :=
    targetAt_congr other spot hwrote.locate_iff
  refine ⟨?_, ?_, ?_⟩
  · refine List.forall_mem_cons.mpr ⟨⟨place, htarget⟩, fun other hmem => ?_⟩
    obtain ⟨spot, hspot⟩ := hrest.targets other hmem
    exact ⟨spot, (hplaced other spot).mp hspot⟩
  · intro writer hwriter spot hspot
    by_cases hlater : ∃ other ∈ rest, TargetAt out before.files other spot
    · obtain ⟨other, hmem, hother⟩ := hlater
      obtain ⟨earlier, last, later, hsplit, hnone, hheld, between⟩ :=
        hrest.filled other hmem spot ((hplaced other spot).mpr hother)
      obtain ⟨stale, middle, words, done, contents, hworked, hlast, hwords, hentry⟩ := between
      refine ⟨source :: earlier, last, later, congrArg (source :: ·) hsplit,
        fun other hmem hother => hnone other hmem ((hplaced other spot).mpr hother),
        (hplaced last spot).mp hheld, _, middle, words, done, contents,
        .next hrepairs hdelivers hworked, hlast, hwords, hentry⟩
    · have hnone : ∀ other ∈ rest, ¬ TargetAt out before.files other spot :=
        fun other hmem hother => hlater ⟨other, hmem, hother⟩
      -- then the target of the first source stands there
      obtain rfl : writer = source := by
        rcases List.mem_cons.mp hwriter with hsame | hmem
        · exact hsame
        · exact absurd hspot (hnone writer hmem)
      obtain ⟨target, hchosen, hlocate⟩ := htarget
      obtain ⟨other, hother, hfound⟩ := hspot
      obtain rfl := Option.some.inj (hchosen.symm.trans hother)
      obtain rfl := Except.ok.inj (hlocate.symm.trans hfound)
      have hentry : after.entry? place = some (.file octets) := by
        rw [hrest.kept place fun other hmem hother =>
          hnone other hmem ((hplaced other place).mp hother)]
        exact hwrote.entry_eq
      exact ⟨[], writer, rest, rfl, hnone, ⟨target, hchosen, hlocate⟩, false, before, result,
        repaired, octets, .done, hrepairs, hencode, hentry⟩
  · intro spot hnone
    obtain ⟨hfirst, hothers⟩ := List.forall_mem_cons.mp hnone
    have hne : spot ≠ place := fun hsame => hfirst (hsame ▸ htarget)
    have hnone : ∀ other ∈ rest, ¬ TargetAt out delivered.files other spot :=
      fun other hmem hother => hothers other hmem ((hplaced other spot).mp hother)
    rw [hrest.kept spot hnone]
    exact hwrote.entry_eq_of_ne spot hne

/-- Sources that were worked on have written their targets. -/
theorem Worked.wroteTargets {sources : List Path} {outdated : Bool}
    (h : Worked setup run (.write out) sources before outdated after) :
    WroteTargets setup run out sources before after.files := by
  induction h with
  | done => exact ⟨by simp, by simp, fun place hnone => rfl⟩
  | next hrepairs hdelivers hrest ih =>
      obtain ⟨place, octets, htarget, hencode, hwrote⟩ := exists_wrote_target hrepairs hdelivers
      exact ih.cons hrepairs hdelivers htarget hencode hwrote

/-! ## The whole command -/

/-- What is not printed or compared is written to the target that it would be compared with. -/
theorem deliveryOf_eq_write {arguments : Arguments} (h : deliveryOf arguments = .write out) :
    (arguments.value? outOption).map Path.ofText = out ∧ arguments.has stdoutOption = false ∧
      arguments.has checkOption = false := by
  simp only [deliveryOf] at h
  split at h
  · cases h
  · next hstdout =>
    split at h
    · cases h
    · next hcheck =>
      exact ⟨Delivery.write.inj h, Bool.eq_false_of_not_eq_true hstdout,
        Bool.eq_false_of_not_eq_true hcheck⟩

/-- There is nothing to work on: the arguments can not be read, ask for the help text or name one
file for several results, or there is no setup. -/
def Unprepared (given : List Text) (before : World σ) : Prop :=
  ∀ arguments, repairManual.grammar.read given = .ok arguments →
    ¬ arguments.OneOut ∨ ∃ error, ((setupOf arguments).start before).1 = .error error

/-- Where the command returns, the files are those that the sources so far have left. -/
theorem exists_worked_of_returned {given : List Text} {code : ExitCode}
    (h : (repairSources run given).start before = (.ok code, after)) :
    (after.files = before.files ∧ Unprepared given before) ∨
      ∃ arguments setup worked rest outdated between,
        repairManual.grammar.read given = .ok arguments ∧
        ((setupOf arguments).start before).1 = .ok setup ∧
        arguments.operands.map Path.ofText = worked ++ rest ∧
        Worked setup run (deliveryOf arguments) worked before outdated between ∧
        after.files = between.files ∧
        (code = 2 ∨ code = 3 → ∃ source later, rest = source :: later ∧
          Repairs setup run source between (.ok (.error code), after)) := by
  cases hread : repairManual.grammar.read given with
  | error stop =>
      left
      refine ⟨?_, fun arguments harguments => ?_⟩
      · rw [repairSources, withArguments, hread] at h
        cases stop <;> cases h <;> rfl
      · rw [hread] at harguments
        cases harguments
  | ok arguments =>
      have hends : Ending run arguments before ((repairSources run given).start before) :=
        repairSources_ends hread
      rw [h] at hends
      have hunprepared (hnone : ¬ arguments.OneOut ∨
          ∃ error, ((setupOf arguments).start before).1 = .error error) :
          Unprepared given before := fun other hother => by
        obtain rfl := Except.ok.inj (hread.symm.trans hother)
        exact hnone
      cases hends with
      | fine hone hsetup hworked =>
          exact .inr ⟨arguments, _, _, [], _, _, rfl, hsetup, (List.append_nil _).symm, hworked,
            rfl, by simp⟩
      | outOfDate hone hsetup hworked =>
          exact .inr ⟨arguments, _, _, [], _, _, rfl, hsetup, (List.append_nil _).symm, hworked,
            rfl, by simp⟩
      | tooMany hmany => exact .inl ⟨rfl, hunprepared (.inl hmany)⟩
      | unusable hone hsetup hanswered => exact .inl ⟨rfl, hunprepared (.inr ⟨_, hsetup⟩)⟩
      | stopped hone hsetup hsources hworked hstopped =>
          cases hstopped with
          | answered hrepairs =>
              exact .inr ⟨arguments, _, _, _, _, _, rfl, hsetup, hsources, hworked,
                hrepairs.files_eq, fun _ => ⟨_, _, rfl, hrepairs⟩⟩

/-- **A source that fails leaves its target alone.**  Where the command returns, each place that
differs is that of the target of a source that was repaired in its turn, and holds the result; with
`--stdout` or `--check` no file differs; and if the code is 2 or 3, nothing was done at all, since
the arguments or the settings can not be used, or a source failed, and exactly the targets of the
sources before it have been written. -/
theorem repairSources_writes {given : List Text} {code : ExitCode}
    (h : (repairSources run given).start before = (.ok code, after)) :
    (∀ place, after.files.entry? place ≠ before.files.entry? place →
      ∃ arguments setup out earlier source later,
        repairManual.grammar.read given = .ok arguments ∧
        ((setupOf arguments).start before).1 = .ok setup ∧
        deliveryOf arguments = .write out ∧
        arguments.operands.map Path.ofText = earlier ++ source :: later ∧
        Filled setup run out before after.files earlier source place) ∧
    (∀ arguments, repairManual.grammar.read given = .ok arguments →
      arguments.has stdoutOption = true ∨ arguments.has checkOption = true →
        after.files = before.files) ∧
    (code = 2 ∨ code = 3 →
      (after.files = before.files ∧ Unprepared given before) ∨
      ∃ arguments setup earlier source later outdated between,
        repairManual.grammar.read given = .ok arguments ∧
        ((setupOf arguments).start before).1 = .ok setup ∧
        arguments.operands.map Path.ofText = earlier ++ source :: later ∧
        Worked setup run (deliveryOf arguments) earlier before outdated between ∧
        Repairs setup run source between (.ok (.error code), after) ∧
        ∀ out, deliveryOf arguments = .write out →
          WroteTargets setup run out earlier before after.files) := by
  rcases exists_worked_of_returned h with ⟨hfiles, hunprepared⟩ |
    ⟨arguments, setup, worked, rest, outdated, between, hread, hsetup, hsources, hworked, hfiles,
      hfailed⟩
  · refine ⟨fun place hne => absurd (congrArg (FileStore.entry? · place) hfiles) hne,
      fun _ _ _ => hfiles, fun _ => .inl ⟨hfiles, hunprepared⟩⟩
  · rw [hfiles]
    refine ⟨fun place hne => ?_, fun others hothers hflag => ?_, fun hcode => .inr ?_⟩
    · cases hdelivery : deliveryOf arguments with
      | write out =>
          rw [hdelivery] at hworked
          have hwrote := hworked.wroteTargets
          obtain ⟨source, hmem, htarget⟩ :
              ∃ source ∈ worked, TargetAt out before.files source place := by
            by_contra hnone
            exact hne (hwrote.kept place fun source hmem htarget => hnone ⟨source, hmem, htarget⟩)
          obtain ⟨earlier, last, later, hsplit, -, hheld⟩ :=
            hwrote.filled source hmem place htarget
          refine ⟨arguments, setup, out, earlier, last, later ++ rest, hread, hsetup, hdelivery, ?_,
            hheld⟩
          rw [hsources, hsplit, List.append_assoc, List.cons_append]
      | _ =>
          rw [hdelivery] at hworked
          exact absurd (congrArg (FileStore.entry? · place) (hworked.files_eq (by simp))) hne
    · obtain rfl := Except.ok.inj (hread.symm.trans hothers)
      refine hworked.files_eq fun out hdelivery => ?_
      obtain ⟨-, hstdout, hcheck⟩ := deliveryOf_eq_write hdelivery
      simp [hstdout, hcheck] at hflag
    · obtain ⟨source, later, rfl, hrepairs⟩ := hfailed hcode
      refine ⟨arguments, setup, worked, source, later, outdated, between, hread, hsetup, hsources,
        hworked, hrepairs, fun out hdelivery => ?_⟩
      rw [hdelivery] at hworked
      exact hworked.wroteTargets

/-- A source and no second one. -/
def oneSource : World Unit where
  files := { entries := [(["a.rbm"], .file [120, 10])] }
  process := ()

/-- The first source is written before the second one turns out to be missing. -/
theorem repairSources_writes_first :
    ∃ after : World Unit,
      (repairSources Runner.clean ["a.rbm", "b.rbm"]).start oneSource = (.ok 3, after) ∧
      after.files.entry? ["a.rb"] ≠ oneSource.files.entry? ["a.rb"] ∧
      ∃ setup out earlier source later,
        ["a.rbm", "b.rbm"].map Path.ofText = earlier ++ source :: later ∧
        Filled setup Runner.clean out oneSource after.files earlier source ["a.rb"] := by
  have hread : repairManual.grammar.read ["a.rbm", "b.rbm"] =
      .ok { operands := ["a.rbm", "b.rbm"] } := by
    decide +kernel
  have htext : oneSource.files.readText (Path.ofText "a.rbm") = .ok "x\n" := by
    decide +kernel
  have hwrite : oneSource.files.write (Path.ofText "a.rb") [120, 10] =
      .ok { entries := [(["a.rbm"], .file [120, 10]), (["a.rb"], .file [120, 10])] } := by
    decide +kernel
  have hsources : ["a.rbm", "b.rbm"].map Path.ofText =
      [Path.ofText "a.rbm"] ++ Path.ofText "b.rbm" :: [] := rfl
  obtain ⟨between, hfiles, hnext⟩ := exists_worked_of_plain htext
    (defaultSetup.plain_clean (σ := Unit) rfl) rfl hwrite
  have hmissing : between.files.readText (Path.ofText "b.rbm") =
      .error (.file ⟨.notFound, Path.ofText "b.rbm"⟩) := by
    rw [hfiles]
    decide +kernel
  have hending : (repairSources Runner.clean ["a.rbm", "b.rbm"]).start oneSource = (.ok 3, _) :=
    Ending.start_eq hread (.stopped (fun hout => by cases hout)
      (fst_setupOf_of_values_eq_nil rfl _) hsources (hnext _ _ _ .done)
      (.answered (.unreadable hmissing rfl)))
  have hdiffers : between.files.entry? ["a.rb"] ≠ oneSource.files.entry? ["a.rb"] := by
    rw [hfiles]
    decide +kernel
  obtain ⟨arguments, setup, out, earlier, source, later, hsame, -, -, hsplit, hheld⟩ :=
    (repairSources_writes hending).1 ["a.rb"] hdiffers
  obtain rfl := Except.ok.inj (hread.symm.trans hsame)
  exact ⟨_, hending, hdiffers, setup, out, earlier, source, later, hsplit, hheld⟩

end SyntaxRepair.Command
