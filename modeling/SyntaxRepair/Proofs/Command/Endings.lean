import SyntaxRepair.Command.RepairSources
import SyntaxRepair.Proofs.Command.Setups
import SyntaxRepair.Proofs.Repair.PlainForm

/-!
# How repairing sources ends

The command that repairs sources ends with the exit code of its table, or it passes an error on.
`Ending` tells for each code when the command ends with it, and what it has left behind; and it
tells which errors are passed on.  They are few: settings with too many brackets inside one
another, a null character in a path, a failure that the table does not know, a target that is no
text when it is compared, and a result that can not be written.

The relations follow the command: what comes of one source (`Repairs`), of its result
(`Delivers`), and of one source after another (`Worked`, `Stopped`).
-/

namespace SyntaxRepair

/-- A failure of a repair that the command has no exit code for. -/
def Failure.Untold : Failure → Prop
  | .unrecovered _ => False
  | .violation _ => False
  | .parser _ => False
  | _ => True

namespace Command

variable {σ : Type}

/-! ## One source -/

/-- What comes of reading and repairing a source: its plain form, an exit code, or an error. -/
inductive Repairs (setup : Setup) (run : Runner σ) (source : Path) (before : World σ) :
    Except Error (Except ExitCode Text) × World σ → Prop
  | repaired {text result : Text} {after : World σ}
      (hread : before.files.readText source = .ok text)
      (hrepair : (setup.repair run text).start before = (.ok result, after)) :
      Repairs setup run source before (.ok (.ok result), after)
  | unreadable {error : Error} (hread : before.files.readText source = .error error)
      (hunreadable : error.isUnreadable = true) :
      Repairs setup run source before
        (.ok (.error 3),
          before.complained ("Failed to read " ++ source.text ++ ": " ++ error.message))
  | unrecovered {text : Text} {reports : List Report} {after : World σ}
      (hread : before.files.readText source = .ok text)
      (hrepair : (setup.repair run text).start before =
        (.error (.failure (.unrecovered reports)), after)) :
      Repairs setup run source before
        (.ok (.error 2), reports.foldl
          (fun world report => world.complained (source.text ++ report.display)) after)
  | violated {text : Text} {violation : Violation} {after : World σ}
      (hread : before.files.readText source = .ok text)
      (hrepair : (setup.repair run text).start before =
        (.error (.failure (.violation violation)), after)) :
      Repairs setup run source before
        (.ok (.error 2),
          after.complained (source.text ++ ": internal error: " ++ violation.message))
  | unreported {text : Text} {fault : ParserFault} {after : World σ}
      (hread : before.files.readText source = .ok text)
      (hrepair : (setup.repair run text).start before =
        (.error (.failure (.parser fault)), after)) :
      Repairs setup run source before
        (.ok (.error 3),
          after.complained (source.text ++ ": parser error: " ++ fault.message))
  /-- Passed on: there is a null character in the path of the source. -/
  | unreachable (hread : before.files.readText source = .error (.file ⟨.nullInPath, source⟩))
      (hnull : source.text.contains (.char '\x00') = true) :
      Repairs setup run source before (.error (.file ⟨.nullInPath, source⟩), before)
  /-- Passed on: the repair fails in a way that has no exit code. -/
  | failed {text : Text} {cause : Failure} {after : World σ}
      (hread : before.files.readText source = .ok text)
      (hrepair : (setup.repair run text).start before = (.error (.failure cause), after))
      (huntold : cause.Untold) :
      Repairs setup run source before (.error (.failure cause), after)

/-- What comes of a result: whether its target is out of date, or an error. -/
inductive Delivers (source : Path) (result : Text) (before : World σ) :
    Delivery → Except Error Bool × World σ → Prop
  | printed :
      Delivers source result before .print
        (.ok false, { before with stdout := before.stdout ++ result })
  | current {out : Option Path} {target : Path}
      (htarget : (out.orElse fun _ => source.target?) = some target)
      (hread : before.files.readText target = .ok result) :
      Delivers source result before (.compare out) (.ok false, before)
  | differs {out : Option Path} {target : Path} {text : Text}
      (htarget : (out.orElse fun _ => source.target?) = some target)
      (hread : before.files.readText target = .ok text) (hne : text ≠ result) :
      Delivers source result before (.compare out)
        (.ok true, before.complained (target.text ++ ": out of date"))
  | missing {out : Option Path} {target : Path} {error : Error}
      (htarget : (out.orElse fun _ => source.target?) = some target)
      (hread : before.files.readText target = .error error) (hsystem : error.isSystem = true) :
      Delivers source result before (.compare out)
        (.ok true, before.complained (target.text ++ ": out of date"))
  | written {out : Option Path} {target : Path} {octets : Utf8.Octets} {files : FileStore}
      (htarget : (out.orElse fun _ => source.target?) = some target)
      (hencode : Utf8.encode result = .ok octets)
      (hwrite : before.files.write target octets = .ok files) :
      Delivers source result before (.write out) (.ok false, { before with files })
  /-- Passed on: the target to compare with holds no text. -/
  | illegible {out : Option Path} {target : Path} {fault : Utf8.Fault}
      (htarget : (out.orElse fun _ => source.target?) = some target)
      (hread : before.files.readText target = .error (.notText fault)) :
      Delivers source result before (.compare out) (.error (.notText fault), before)
  /-- Passed on: there is a null character in the path of the target to compare with. -/
  | unreachable {out : Option Path} {target : Path}
      (htarget : (out.orElse fun _ => source.target?) = some target)
      (hread : before.files.readText target = .error (.file ⟨.nullInPath, target⟩))
      (hnull : target.text.contains (.char '\x00') = true) :
      Delivers source result before (.compare out) (.error (.file ⟨.nullInPath, target⟩), before)
  /-- Passed on: the target can not be written. -/
  | unwritable {out : Option Path} {target : Path} {fault : FileFault}
      (htarget : (out.orElse fun _ => source.target?) = some target)
      (hwrite : before.files.write target ((Utf8.encode result).toOption.getD []) =
        .error fault) :
      Delivers source result before (.write out) (.error (.file fault), before)
  /-- Passed on: the result has no octets, and its target is left empty. -/
  | unencodable {out : Option Path} {target : Path} {fault : Utf8.Unencodable} {files : FileStore}
      (htarget : (out.orElse fun _ => source.target?) = some target)
      (hencode : Utf8.encode result = .error fault)
      (hwrite : before.files.write target [] = .ok files) :
      Delivers source result before (.write out)
        (.error (.failure (.unencodable fault)), { before with files })
  /-- Passed on: the source has no name, so there is nothing to name its target after. -/
  | nameless {delivery : Delivery} (hdelivery : delivery = .compare none ∨ delivery = .write none)
      (htarget : source.target? = none) :
      Delivers source result before delivery (.error (.noName source), before)

/-! ## One source after another -/

/-- Sources that were read, repaired and delivered in turn, and whether a target of theirs is out of
date. -/
inductive Worked (setup : Setup) (run : Runner σ) (delivery : Delivery) :
    List Path → World σ → Bool → World σ → Prop
  | done {world : World σ} : Worked setup run delivery [] world false world
  | next {source : Path} {rest : List Path} {result : Text} {outdated stale : Bool}
      {before repaired delivered after : World σ}
      (hrepairs : Repairs setup run source before (.ok (.ok result), repaired))
      (hdelivers : Delivers source result repaired delivery (.ok outdated, delivered))
      (hrest : Worked setup run delivery rest delivered stale after) :
      Worked setup run delivery (source :: rest) before (outdated || stale) after

/-- The source at which the command stops, with an exit code or with an error that is passed on. -/
inductive Stopped (setup : Setup) (run : Runner σ) (delivery : Delivery) (source : Path)
    (before : World σ) : Except Error ExitCode × World σ → Prop
  | answered {code : ExitCode} {after : World σ}
      (hrepairs : Repairs setup run source before (.ok (.error code), after)) :
      Stopped setup run delivery source before (.ok code, after)
  | unrepaired {error : Error} {after : World σ}
      (hrepairs : Repairs setup run source before (.error error, after)) :
      Stopped setup run delivery source before (.error error, after)
  | undelivered {result : Text} {error : Error} {repaired after : World σ}
      (hrepairs : Repairs setup run source before (.ok (.ok result), repaired))
      (hdelivers : Delivers source result repaired delivery (.error error, after)) :
      Stopped setup run delivery source before (.error error, after)

/-- One file takes one result. -/
def Arguments.OneOut (arguments : Arguments) : Prop :=
  (arguments.value? outOption).isSome = true → arguments.operands.length = 1

/-- How the command ends on arguments that follow its grammar. -/
inductive Ending (run : Runner σ) (arguments : Arguments) (before : World σ) :
    Except Error ExitCode × World σ → Prop
  /-- All went well, and no target is out of date. -/
  | fine {setup : Setup} {after : World σ}
      (hone : arguments.OneOut) (hsetup : ((setupOf arguments).start before).1 = .ok setup)
      (hworked : Worked setup run (deliveryOf arguments) (arguments.operands.map Path.ofText) before
        false after) :
      Ending run arguments before (.ok 0, after)
  /-- All went well, but a target is out of date. -/
  | outOfDate {setup : Setup} {after : World σ}
      (hone : arguments.OneOut) (hsetup : ((setupOf arguments).start before).1 = .ok setup)
      (hworked : Worked setup run (deliveryOf arguments) (arguments.operands.map Path.ofText) before
        true after) :
      Ending run arguments before (.ok 1, after)
  /-- One file for several results. -/
  | tooMany (hmany : ¬ arguments.OneOut) :
      Ending run arguments before
        (.ok 3, before.complained "--out requires exactly one input path")
  /-- The settings can not be used. -/
  | unusable {error : Error} (hone : arguments.OneOut)
      (hsetup : ((setupOf arguments).start before).1 = .error error)
      (hanswered : error.isSettings = true ∨ error.isValue = true) :
      Ending run arguments before (.ok 3, before.complained ("config error: " ++ error.message))
  /-- Passed on: too many brackets of the settings stand inside one another. -/
  | tooDeep {cause : Misfit} (hone : arguments.OneOut)
      (hsetup : ((setupOf arguments).start before).1 = .error (.failure (.misfit cause)))
      (hcause : cause = .deepArray ∨ cause = .deepObject) :
      Ending run arguments before (.error (.failure (.misfit cause)), before)
  /-- The command stops at a source. -/
  | stopped {setup : Setup} {worked rest : List Path} {source : Path} {outdated : Bool}
      {between : World σ} {ending : Except Error ExitCode × World σ}
      (hone : arguments.OneOut) (hsetup : ((setupOf arguments).start before).1 = .ok setup)
      (hsources : arguments.operands.map Path.ofText = worked ++ source :: rest)
      (hworked : Worked setup run (deliveryOf arguments) worked before outdated between)
      (hstopped : Stopped setup run (deliveryOf arguments) source between ending) :
      Ending run arguments before ending

/-! ## What the parts of the command do -/

/-- A repair only fails with failures of a repair. -/
theorem exists_cause_of_repair {setup : Setup} {run : Runner σ} {text : Text} {error : Error}
    {before after : World σ}
    (h : (setup.repair run text).start before = (.error error, after)) :
    ∃ cause, error = .failure cause := by
  simp only [Setup.repair, Act.ofStep, Act.start_of, Step.start_of] at h
  have houtcome := congrArg Prod.fst h
  generalize (SyntaxRepair.repair _ _).start _ = outcome at houtcome
  obtain ⟨cause | result, run⟩ := outcome
  · exact ⟨cause, (Except.error.inj houtcome).symm⟩
  · cases houtcome

/-- What is told of a failure that the command has an exit code for, and with which code it
ends. -/
theorem start_reportFailure_unrecovered (source : Path) (reports : List Report)
    (before : World σ) :
    (reportFailure source (.failure (.unrecovered reports))).start before =
      (.ok 2,
        reports.foldl (fun world report => world.complained (source.text ++ report.display))
          before) := by
  rw [reportFailure, Act.start_bind_of_ok (Act.start_forM_complain _ _)]
  rfl

/-- A source that is read is repaired. -/
theorem start_repairSource_of_ok {setup : Setup} {run : Runner σ} {source : Path} {text : Text}
    {before : World σ} (hread : before.files.readText source = .ok text) :
    (repairSource setup run source).start before =
      match (setup.repair run text).start before with
      | (.ok result, after) => (.ok (.ok result), after)
      | (.error error, after) =>
          (do return .error (← reportFailure source error) : Act σ (Except ExitCode Text)).start
            after := by
  rw [repairSource, Act.start_bind_of_ok (Act.start_attempt _ _), Act.start_readText, hread]
  dsimp only
  rw [Act.start_bind_of_ok (Act.start_attempt _ _)]
  rcases (setup.repair run text).start before with ⟨error | result, after⟩ <;> rfl

/-- A source that is not read is told, unless there is a null character in its path. -/
theorem start_repairSource_of_error {setup : Setup} {run : Runner σ} {source : Path}
    {error : Error} {before : World σ} (hread : before.files.readText source = .error error) :
    (repairSource setup run source).start before =
      if error.isUnreadable then
        (.ok (.error 3),
          before.complained ("Failed to read " ++ source.text ++ ": " ++ error.message))
      else (.error error, before) := by
  rw [repairSource, Act.start_bind_of_ok (Act.start_attempt _ _), Act.start_readText, hread]
  dsimp only
  split <;> rfl

theorem repairSource_repairs (setup : Setup) (run : Runner σ) (source : Path) (before : World σ) :
    Repairs setup run source before ((repairSource setup run source).start before) := by
  cases hread : before.files.readText source with
  | error error =>
      rw [start_repairSource_of_error hread]
      rcases FileStore.readText_eq_error hread with hsystem | ⟨fault, rfl⟩ | ⟨rfl, hnull⟩
      · have hunreadable : error.isUnreadable = true := by
          unfold Error.isUnreadable
          split
          · rfl
          · exact hsystem
        rw [if_pos hunreadable]
        exact .unreadable hread hunreadable
      · exact .unreadable hread rfl
      · exact .unreachable hread hnull
  | ok text =>
      rw [start_repairSource_of_ok hread]
      cases hrepair : (setup.repair run text).start before with
      | mk outcome after =>
          cases outcome with
          | ok result => exact .repaired hread hrepair
          | error error =>
              obtain ⟨cause, rfl⟩ := exists_cause_of_repair hrepair
              cases cause with
              | unrecovered reports =>
                  dsimp only
                  rw [Act.start_bind_of_ok (start_reportFailure_unrecovered _ _ _)]
                  exact .unrecovered hread hrepair
              | violation violation => exact .violated hread hrepair
              | parser fault => exact .unreported hread hrepair
              | _ => exact .failed hread hrepair trivial

theorem Repairs.start_eq {setup : Setup} {run : Runner σ} {source : Path} {before : World σ}
    {ending : Except Error (Except ExitCode Text) × World σ}
    (h : Repairs setup run source before ending) :
    (repairSource setup run source).start before = ending := by
  cases h with
  | repaired hread hrepair => rw [start_repairSource_of_ok hread, hrepair]
  | unreadable hread hunreadable =>
      rw [start_repairSource_of_error hread, if_pos hunreadable]
  | unreachable hread hnull => exact start_repairSource_of_error hread
  | unrecovered hread hrepair =>
      rw [start_repairSource_of_ok hread, hrepair]
      exact Act.start_bind_of_ok (start_reportFailure_unrecovered _ _ _)
  | violated hread hrepair =>
      rw [start_repairSource_of_ok hread, hrepair]
      rfl
  | unreported hread hrepair =>
      rw [start_repairSource_of_ok hread, hrepair]
      rfl
  | @failed text cause after hread hrepair huntold =>
      rw [start_repairSource_of_ok hread, hrepair]
      cases cause <;> first | exact huntold.elim | rfl

/-- A source that has a plain form is repaired. -/
theorem exists_repairs {setup : Setup} {run : Runner σ} {source : Path} {text : Text}
    {octets : Utf8.Octets} {before : World σ}
    (hread : before.files.readText source = .ok text) (hplain : setup.Plain run text octets) :
    ∃ result repaired, Repairs setup run source before (.ok (.ok result), repaired) ∧
      Utf8.encode result = .ok octets ∧ before.Quiet repaired := by
  obtain ⟨result, hresult, hencode⟩ := hplain
  exact ⟨result, _, .repaired hread (Prod.ext (hresult before) rfl), hencode,
    setup.quiet_repair run text before⟩

/-! ## Its result -/

theorem start_targetOf {source target : Path} {out : Option Path} {before : World σ}
    (htarget : (out.orElse fun _ => source.target?) = some target) :
    (Act.targetOf source out).start before = (.ok target, before) := by
  rw [Act.targetOf, htarget]
  rfl

/-- Only a source without a name has no target, and only if none is given. -/
theorem start_targetOf_of_eq_none {source : Path} {out : Option Path} (before : World σ)
    (htarget : (out.orElse fun _ => source.target?) = none) :
    (Act.targetOf source out).start before = (.error (.noName source), before) ∧ out = none ∧
      source.target? = none := by
  refine ⟨?_, ?_⟩
  · rw [Act.targetOf, htarget]
    rfl
  · cases out with
    | none => exact ⟨rfl, htarget⟩
    | some target => cases htarget

theorem start_deliver_compare {source target : Path} {out : Option Path} {result : Text}
    {before : World σ} (htarget : (out.orElse fun _ => source.target?) = some target) :
    (deliver (.compare out) source result).start before =
      match before.files.readText target with
      | .ok text =>
          if text = result then (.ok false, before)
          else (.ok true, before.complained (target.text ++ ": out of date"))
      | .error error =>
          if error.isSystem then (.ok true, before.complained (target.text ++ ": out of date"))
          else (.error error, before) := by
  rw [deliver, Act.start_bind_of_ok (start_targetOf htarget), isCurrent, Act.start_bind,
    Act.start_bind_of_ok (Act.start_attempt _ _), Act.start_readText]
  rcases before.files.readText target with error | text
  · dsimp only
    cases error.isSystem <;> rfl
  · by_cases hsame : text = result
    · simp [hsame]
    · simp only [Act.start_pure, hsame, decide_false]
      rfl

theorem start_deliver_write {source target : Path} {out : Option Path} {result : Text}
    {before : World σ} (htarget : (out.orElse fun _ => source.target?) = some target) :
    (deliver (.write out) source result).start before =
      match Utf8.encode result,
        before.files.write target ((Utf8.encode result).toOption.getD []) with
      | _, .error fault => (.error (.file fault), before)
      | .ok _, .ok files => (.ok false, { before with files })
      | .error fault, .ok files =>
          (.error (.failure (.unencodable fault)), { before with files }) := by
  rw [deliver, Act.start_bind_of_ok (start_targetOf htarget), Act.start_bind,
    Act.start_writeText]
  rcases before.files.write target _ with fault | files <;>
    rcases Utf8.encode result with fault | octets <;> rfl

theorem deliver_delivers (delivery : Delivery) (source : Path) (result : Text)
    (before : World σ) :
    Delivers source result before delivery ((deliver delivery source result).start before) := by
  cases delivery with
  | print => exact .printed
  | compare out =>
      cases htarget : out.orElse fun _ => source.target? with
      | none =>
          obtain ⟨hstart, rfl, hnone⟩ := start_targetOf_of_eq_none before htarget
          rw [deliver, Act.start_bind_of_error hstart]
          exact .nameless (.inl rfl) hnone
      | some target =>
          rw [start_deliver_compare htarget]
          cases hread : before.files.readText target with
          | ok text =>
              dsimp only
              split
              · next hsame => exact .current htarget (hsame ▸ hread)
              · next hne => exact .differs htarget hread hne
          | error error =>
              rcases FileStore.readText_eq_error hread with hsystem | ⟨fault, rfl⟩ | ⟨rfl, hnull⟩
              · dsimp only
                rw [if_pos hsystem]
                exact .missing htarget hread hsystem
              · exact .illegible htarget hread
              · exact .unreachable htarget hread hnull
  | write out =>
      cases htarget : out.orElse fun _ => source.target? with
      | none =>
          obtain ⟨hstart, rfl, hnone⟩ := start_targetOf_of_eq_none before htarget
          rw [deliver, Act.start_bind_of_error hstart]
          exact .nameless (.inr rfl) hnone
      | some target =>
          rw [start_deliver_write htarget]
          cases hwrite : before.files.write target ((Utf8.encode result).toOption.getD []) with
          | error fault => exact .unwritable htarget hwrite
          | ok files =>
              cases hencode : Utf8.encode result with
              | ok octets =>
                  rw [hencode] at hwrite
                  exact .written htarget hencode hwrite
              | error fault =>
                  rw [hencode] at hwrite
                  exact .unencodable htarget hencode hwrite

theorem Delivers.start_eq {delivery : Delivery} {source : Path} {result : Text}
    {before : World σ} {ending : Except Error Bool × World σ}
    (h : Delivers source result before delivery ending) :
    (deliver delivery source result).start before = ending := by
  cases h with
  | printed => rfl
  | current htarget hread =>
      rw [start_deliver_compare htarget, hread]
      exact if_pos rfl
  | differs htarget hread hne =>
      rw [start_deliver_compare htarget, hread]
      exact if_neg hne
  | missing htarget hread hsystem =>
      rw [start_deliver_compare htarget, hread]
      exact if_pos hsystem
  | illegible htarget hread =>
      rw [start_deliver_compare htarget, hread]
      rfl
  | unreachable htarget hread hnull =>
      rw [start_deliver_compare htarget, hread]
      rfl
  | written htarget hencode hwrite =>
      rw [start_deliver_write htarget, hencode, Except.toOption, Option.getD_some, hwrite]
  | unwritable htarget hwrite => rw [start_deliver_write htarget, hwrite]
  | unencodable htarget hencode hwrite =>
      rw [start_deliver_write htarget, hencode, Except.toOption, Option.getD_none, hwrite]
  | nameless hdelivery htarget =>
      have hnone : (Option.none.orElse fun _ => source.target?) = none := htarget
      have hstart := (start_targetOf_of_eq_none before hnone).1
      rcases hdelivery with rfl | rfl <;> rw [deliver, Act.start_bind_of_error hstart]

/-! ## The whole command -/

/-- Going through the sources, the command comes to the last one or stops at one of them. -/
theorem repairEach_ends (setup : Setup) (run : Runner σ) (delivery : Delivery) (stale : Bool)
    (sources : List Path) (before : World σ) :
    (∃ outdated after, Worked setup run delivery sources before outdated after ∧
        (repairEach setup run delivery stale sources).start before =
          (.ok (if stale || outdated then 1 else 0), after)) ∨
      ∃ worked source rest outdated between, sources = worked ++ source :: rest ∧
        Worked setup run delivery worked before outdated between ∧
        Stopped setup run delivery source between
          ((repairEach setup run delivery stale sources).start before) := by
  induction sources generalizing stale before with
  | nil => exact .inl ⟨false, before, .done, by rw [Bool.or_false]; rfl⟩
  | cons source rest ih =>
      have hrepairs := repairSource_repairs setup run source before
      rw [repairEach, Act.start_bind]
      generalize (repairSource setup run source).start before = outcome at hrepairs ⊢
      rcases outcome with ⟨error | code | result, repaired⟩
      · exact .inr ⟨[], source, rest, false, before, rfl, .done, .unrepaired hrepairs⟩
      · exact .inr ⟨[], source, rest, false, before, rfl, .done, .answered hrepairs⟩
      · have hdelivers := deliver_delivers delivery source result repaired
        dsimp only
        rw [Act.start_bind]
        generalize (deliver delivery source result).start repaired = outcome at hdelivers ⊢
        rcases outcome with ⟨error | outdated, delivered⟩
        · exact .inr ⟨[], source, rest, false, before, rfl, .done,
            .undelivered hrepairs hdelivers⟩
        · rcases ih (stale || outdated) delivered with
            ⟨later, after, hworked, houtcome⟩ |
              ⟨worked, stop, others, later, between, hrest, hworked, hstopped⟩
          · refine .inl ⟨outdated || later, after, .next hrepairs hdelivers hworked, ?_⟩
            rw [← Bool.or_assoc]
            exact houtcome
          · exact .inr ⟨source :: worked, stop, others, outdated || later, between,
              congrArg (source :: ·) hrest, .next hrepairs hdelivers hworked, hstopped⟩

theorem Worked.start_eq {setup : Setup} {run : Runner σ} {delivery : Delivery}
    {sources : List Path} {before after : World σ} {outdated : Bool}
    (h : Worked setup run delivery sources before outdated after) (stale : Bool)
    (rest : List Path) :
    (repairEach setup run delivery stale (sources ++ rest)).start before =
      (repairEach setup run delivery (stale || outdated) rest).start after := by
  induction h generalizing stale with
  | done => rw [List.nil_append, Bool.or_false]
  | next hrepairs hdelivers hrest ih =>
      rw [List.cons_append, repairEach, Act.start_bind_of_ok hrepairs.start_eq]
      dsimp only
      rw [Act.start_bind_of_ok hdelivers.start_eq, ih, Bool.or_assoc]

theorem Stopped.start_eq {setup : Setup} {run : Runner σ} {delivery : Delivery} {source : Path}
    {before : World σ} {ending : Except Error ExitCode × World σ}
    (h : Stopped setup run delivery source before ending) (stale : Bool) (rest : List Path) :
    (repairEach setup run delivery stale (source :: rest)).start before = ending := by
  rw [repairEach]
  cases h with
  | answered hrepairs =>
      rw [Act.start_bind_of_ok hrepairs.start_eq]
      rfl
  | unrepaired hrepairs => rw [Act.start_bind_of_error hrepairs.start_eq]
  | undelivered hrepairs hdelivers =>
      rw [Act.start_bind_of_ok hrepairs.start_eq]
      exact Act.start_bind_of_error hdelivers.start_eq

section

variable {given : List Text} {arguments : Arguments} {run : Runner σ} {before : World σ}
  (hread : repairManual.grammar.read given = .ok arguments)

include hread

/-- Several sources for one file are refused before anything else. -/
theorem start_repairSources_of_not_oneOut (hmany : ¬ arguments.OneOut) :
    (repairSources run given).start before =
      (.ok 3, before.complained "--out requires exactly one input path") := by
  have hcheck : ((arguments.value? outOption).isSome &&
      decide (arguments.operands.length ≠ 1)) = true := by
    obtain ⟨hout, hlength⟩ := Classical.not_imp.mp hmany
    rw [hout, decide_eq_true hlength]
    rfl
  rw [repairSources, withArguments, hread]
  dsimp only
  rw [hcheck, if_pos rfl]
  rfl

/-- Otherwise the command goes on with the setup, or tells why there is none. -/
theorem start_repairSources_of_oneOut (hone : arguments.OneOut) :
    (repairSources run given).start before =
      match ((setupOf arguments).start before).1 with
      | .ok setup =>
          (repairEach setup run (deliveryOf arguments) false
            (arguments.operands.map Path.ofText)).start before
      | .error error =>
          if error.isSettings || error.isValue then
            (.ok 3, before.complained ("config error: " ++ error.message))
          else (.error error, before) := by
  have hcheck : ((arguments.value? outOption).isSome &&
      decide (arguments.operands.length ≠ 1)) = false := by
    rw [Bool.and_eq_false_imp]
    exact fun hout => decide_eq_false (not_not_intro (hone hout))
  rw [repairSources, withArguments, hread]
  dsimp only
  rw [hcheck, if_neg Bool.false_ne_true, Act.start_bind_of_ok (Act.start_attempt _ _),
    start_setupOf]
  cases ((setupOf arguments).start before).1 with
  | ok setup => rfl
  | error error =>
      dsimp only
      split <;> rfl

theorem repairSources_ends :
    Ending run arguments before ((repairSources run given).start before) := by
  by_cases hone : arguments.OneOut
  · rw [start_repairSources_of_oneOut hread hone]
    cases hsetup : ((setupOf arguments).start before).1 with
    | error error =>
        dsimp only
        rcases setupOf_refused hsetup with hsettings | hvalue | rfl | rfl
        · rw [hsettings, Bool.true_or, if_pos rfl]
          exact .unusable hone hsetup (.inl hsettings)
        · rw [hvalue, Bool.or_true, if_pos rfl]
          exact .unusable hone hsetup (.inr hvalue)
        · exact .tooDeep hone hsetup (.inl rfl)
        · exact .tooDeep hone hsetup (.inr rfl)
    | ok setup =>
        dsimp only
        rcases repairEach_ends setup run (deliveryOf arguments) false
          (arguments.operands.map Path.ofText) before with
          ⟨outdated, after, hworked, houtcome⟩ |
            ⟨worked, source, rest, outdated, between, hsources, hworked, hstopped⟩
        · rw [houtcome, Bool.false_or]
          cases outdated with
          | false => exact .fine hone hsetup hworked
          | true => exact .outOfDate hone hsetup hworked
        · exact .stopped hone hsetup hsources hworked hstopped
  · rw [start_repairSources_of_not_oneOut hread hone]
    exact .tooMany hone

theorem Ending.start_eq {ending : Except Error ExitCode × World σ}
    (h : Ending run arguments before ending) :
    (repairSources run given).start before = ending := by
  cases h with
  | tooMany hmany => exact start_repairSources_of_not_oneOut hread hmany
  | unusable hone hsetup hanswered =>
      rw [start_repairSources_of_oneOut hread hone, hsetup]
      exact if_pos (Bool.or_eq_true_iff.mpr hanswered)
  | tooDeep hone hsetup hcause =>
      rw [start_repairSources_of_oneOut hread hone, hsetup]
      rcases hcause with rfl | rfl <;> rfl
  | fine hone hsetup hworked =>
      rw [start_repairSources_of_oneOut hread hone, hsetup]
      have hall := hworked.start_eq false []
      rw [List.append_nil] at hall
      exact hall
  | outOfDate hone hsetup hworked =>
      rw [start_repairSources_of_oneOut hread hone, hsetup]
      have hall := hworked.start_eq false []
      rw [List.append_nil] at hall
      exact hall
  | stopped hone hsetup hsources hworked hstopped =>
      rw [start_repairSources_of_oneOut hread hone, hsetup, hsources]
      dsimp only
      rw [hworked.start_eq]
      exact hstopped.start_eq _ _

end

/-- **How the command ends.**  On arguments that follow the grammar, and for every store of files
and every runner of processes, the command ends as the table of its exit codes has it, or it passes
one of the errors in `Ending` on. -/
theorem repairSources_eq_iff {given : List Text} {arguments : Arguments} {run : Runner σ}
    {before : World σ} {ending : Except Error ExitCode × World σ}
    (hread : repairManual.grammar.read given = .ok arguments) :
    (repairSources run given).start before = ending ↔ Ending run arguments before ending :=
  ⟨fun h => h ▸ repairSources_ends hread, fun h => h.start_eq hread⟩

/-- A source that is missing. -/
theorem repairSources_missing :
    repairManual.grammar.read ["a.rbm"] = .ok { operands := ["a.rbm"] } ∧
      (repairSources Runner.clean ["a.rbm"]).start { process := () } =
        (.ok 3, ({ process := () } : World Unit).complained
          "Failed to read a.rbm: [Errno 2] No such file or directory: 'a.rbm'") := by
  have hread : repairManual.grammar.read ["a.rbm"] = .ok { operands := ["a.rbm"] } := by
    decide +kernel
  have hmessage : ("Failed to read a.rbm: [Errno 2] No such file or directory: 'a.rbm'" : Text) =
      "Failed to read " ++ (Path.ofText "a.rbm").text ++ ": " ++
        (Error.file ⟨.notFound, Path.ofText "a.rbm"⟩).message := by
    decide +kernel
  have hsources : [Path.ofText "a.rbm"] = [] ++ Path.ofText "a.rbm" :: [] := rfl
  refine ⟨hread, (repairSources_eq_iff hread).mpr ?_⟩
  rw [hmessage]
  exact .stopped (fun hout => by cases hout) (fst_setupOf_of_values_eq_nil rfl _) hsources .done
    (.answered (.unreadable rfl rfl))

/-- A source with a target that is no text. -/
def illegibleTarget : World Unit where
  files := { entries := [(["a.rbm"], .file [120, 10]), (["a.rb"], .file [255])] }
  process := ()

/-- The target is not told to be out of date: that it is no text is passed on. -/
theorem repairSources_illegible_target :
    repairManual.grammar.read ["--check", "a.rbm"] =
        .ok { operands := ["a.rbm"], flags := [checkOption] } ∧
      ((repairSources Runner.clean ["--check", "a.rbm"]).start illegibleTarget).1 =
        .error (.notText ⟨0, 255, 1, .invalidStart⟩) := by
  have hread : repairManual.grammar.read ["--check", "a.rbm"] =
      .ok { operands := ["a.rbm"], flags := [checkOption] } := by
    decide +kernel
  have htext : illegibleTarget.files.readText (Path.ofText "a.rbm") = .ok "x\n" := by
    decide +kernel
  have hplain : defaultSetup.Plain (Runner.clean : Runner Unit) "x\n" [120, 10] :=
    Setup.plain_clean _ rfl
  obtain ⟨result, repaired, hrepairs, -, hquiet⟩ := exists_repairs htext hplain
  have htarget : repaired.files.readText (Path.ofText "a.rb") =
      .error (.notText ⟨0, 255, 1, .invalidStart⟩) := by
    rw [hquiet.files_eq]
    decide +kernel
  have hsources : [Path.ofText "a.rbm"] = [] ++ Path.ofText "a.rbm" :: [] := rfl
  have hending : Ending Runner.clean { operands := ["a.rbm"], flags := [checkOption] }
      illegibleTarget (.error (.notText ⟨0, 255, 1, .invalidStart⟩), repaired) :=
    .stopped (fun hout => by cases hout) (fst_setupOf_of_values_eq_nil rfl _) hsources .done
      (.undelivered hrepairs (.illegible rfl htarget))
  exact ⟨hread, congrArg Prod.fst (hending.start_eq hread)⟩

end Command

end SyntaxRepair
