import SyntaxRepair.Proofs.Command.Endings
import SyntaxRepair.Proofs.Files.Targets
import SyntaxRepair.Proofs.Repair.PlainForm

/-!
# What is left of several outputs

Sources are repaired one after another, and the target of each of them is written before the next
one is read.  If the sources are apart, each target holds in the end what its source had come to
from the start (`repairSources_outputs`): no later source has been overwritten when it is read, and
no target is overwritten with anything else (`Worked.entry_kept`).

Where they are not apart, an output can be lost.
-/

namespace SyntaxRepair.Command

open Utf8 (Octets)

variable {σ : Type} {setup : Setup} {run : Runner σ}
  {answer : Call → Except Failure ProcessOutcome}

/-! ## What is written for one source -/

section

variable {out : Option Path} {source : Path} {result : Text} {before repaired delivered : World σ}

/-- The target of a source stands at a place. -/
def TargetAt (out : Option Path) (store : FileStore) (source : Path) (place : List Text) : Prop :=
  ∃ target, (out.orElse fun _ => source.target?) = some target ∧ store.locate target = .ok place

@[simp] theorem files_foldl_complained {ι : Type} (line : ι → Text) (items : List ι)
    (before : World σ) :
    (items.foldl (fun world item => world.complained (line item)) before).files = before.files := by
  induction items generalizing before with
  | nil => rfl
  | cons item rest ih => exact ih _

/-- To read and repair a source changes no file, whatever comes of it. -/
theorem Repairs.files_eq {ending : Except Error (Except ExitCode Text) × World σ}
    (h : Repairs setup run source before ending) : ending.2.files = before.files := by
  have hquiet {text : Text} {outcome : Except Error Text} {after : World σ}
      (hrepair : (setup.repair run text).start before = (outcome, after)) :
      after.files = before.files := by
    have hworld := setup.quiet_repair run text before
    rw [hrepair] at hworld
    exact hworld.files_eq
  cases h with
  | repaired hread hrepair => exact hquiet hrepair
  | unreadable hread hunreadable => rfl
  | unrecovered hread hrepair => exact (files_foldl_complained _ _ _).trans (hquiet hrepair)
  | violated hread hrepair => exact (hquiet hrepair :)
  | unreported hread hrepair => exact (hquiet hrepair :)
  | unreachable hread hnull => rfl
  | failed hread hrepair huntold => exact hquiet hrepair

/-- A result that is written stands at its target, and nothing else changes. -/
theorem exists_wrote_target {outdated : Bool}
    (hrepairs : Repairs setup run source before (.ok (.ok result), repaired))
    (hdelivers : Delivers source result repaired (.write out) (.ok outdated, delivered)) :
    ∃ place octets, TargetAt out before.files source place ∧ Utf8.encode result = .ok octets ∧
      before.files.Wrote place octets delivered.files := by
  have hfiles : repaired.files = before.files := hrepairs.files_eq
  cases hdelivers with
  | @written _ target octets files htarget hencode hwrite =>
      rw [hfiles] at hwrite
      obtain ⟨place, hlocate, hwrote⟩ := FileStore.write_eq_ok hwrite
      exact ⟨place, octets, ⟨target, htarget, hlocate⟩, hencode, hwrote⟩

end

/-! ## Sources that are apart -/

/-- A source that stands apart is read as it has been before the target of another one was
written. -/
theorem readText_later {source target later : Path} {rest : List Path} {place : List Text}
    {octets : Octets} {text : Text} {before after : FileStore}
    (hapart : before.Apart (source :: rest)) (htarget : source.target? = some target)
    (hlocate : before.locate target = .ok place) (hwrote : before.Wrote place octets after)
    (hmem : later ∈ rest) (hread : after.readText later = .ok text) :
    before.readText later = .ok text := by
  refine (hwrote.readText_iff fun hspot => ?_).mp hread
  have hfirst := (List.pairwise_cons.mp hapart).1 later hmem
  exact (hfirst target place place htarget hlocate hspot).1 rfl

section

variable (hanswer : run.Answers answer)

include hanswer

/-- What is written for one source: its plain form, and nothing else. -/
theorem exists_wrote {source : Path} {result : Text} {outdated : Bool}
    {before repaired delivered : World σ}
    (hrepairs : Repairs setup run source before (.ok (.ok result), repaired))
    (hdelivers : Delivers source result repaired (.write none) (.ok outdated, delivered)) :
    ∃ target place text octets, source.target? = some target ∧
      before.files.locate target = .ok place ∧ before.files.readText source = .ok text ∧
      setup.Plain run text octets ∧ before.files.Wrote place octets delivered.files := by
  obtain ⟨place, octets, ⟨target, htarget, hlocate⟩, hencode, hwrote⟩ :=
    exists_wrote_target hrepairs hdelivers
  cases hrepairs with
  | @repaired text _ _ hread hrepair =>
      exact ⟨target, place, text, octets, htarget, hlocate, hread,
        Setup.plain_of_repair hanswer hrepair hencode, hwrote⟩

/-- Paths lead where they led. -/
theorem Worked.locate_iff {sources : List Path} {stale : Bool} {before after : World σ}
    (h : Worked setup run (.write none) sources before stale after) (path : Path)
    (place : List Text) :
    after.files.locate path = .ok place ↔ before.files.locate path = .ok place := by
  induction h with
  | done => exact Iff.rfl
  | next hrepairs hdelivers hrest ih =>
      obtain ⟨_, _, _, _, -, -, -, -, hwrote⟩ := exists_wrote hanswer hrepairs hdelivers
      exact ih.trans (hwrote.locate_iff path place)

/-- A place keeps what it holds, if each source whose target stands there has that for its plain
form. -/
theorem Worked.entry_kept {sources : List Path} {stale : Bool} {before after : World σ}
    (h : Worked setup run (.write none) sources before stale after)
    (hapart : before.files.Apart sources) {place : List Text} {octets : Octets}
    (hheld : before.files.entry? place = some (.file octets))
    (hsame : ∀ source ∈ sources, ∀ target text, source.target? = some target →
      before.files.locate target = .ok place → before.files.readText source = .ok text →
        setup.Plain run text octets) :
    after.files.entry? place = some (.file octets) := by
  induction h with
  | done => exact hheld
  | @next source rest result outdated stale before repaired delivered after hrepairs hdelivers
      hrest ih =>
      obtain ⟨target, spot, text, found, htarget, hlocate, hread, hplain, hwrote⟩ :=
        exists_wrote hanswer hrepairs hdelivers
      have hlater : before.files.Apart rest := (List.pairwise_cons.mp hapart).2
      refine ih (hlater.congr hwrote.locate_iff) ?_ ?_
      · by_cases hspot : place = spot
        · subst hspot
          have hoctets := hplain.unique
            (hsame source List.mem_cons_self target text htarget hlocate hread) before
          rw [hwrote.entry_eq, hoctets]
        · rw [hwrote.entry_eq_of_ne place hspot]
          exact hheld
      · intro later hmem other words hother hplaced hwords
        exact hsame later (List.mem_cons_of_mem source hmem) other words hother
          ((hwrote.locate_iff other place).mp hplaced)
          (readText_later hapart htarget hlocate hwrote hmem hwords)

/-- Each target holds the plain form of what its source held from the start. -/
theorem Worked.outputs {sources : List Path} {stale : Bool} {before after : World σ}
    (h : Worked setup run (.write none) sources before stale after)
    (hapart : before.files.Apart sources) :
    ∀ source ∈ sources, ∃ target text octets, source.target? = some target ∧
      before.files.readText source = .ok text ∧ setup.Plain run text octets ∧
      after.files.read target = .ok octets := by
  induction h with
  | done => simp
  | @next source rest result outdated stale before repaired delivered after hrepairs hdelivers
      hrest ih =>
      obtain ⟨target, place, text, octets, htarget, hlocate, hread, hplain, hwrote⟩ :=
        exists_wrote hanswer hrepairs hdelivers
      have hlater : before.files.Apart rest := (List.pairwise_cons.mp hapart).2
      have hapart' := hlater.congr hwrote.locate_iff
      refine List.forall_mem_cons.mpr ⟨?_, fun later hmem => ?_⟩
      · refine ⟨target, text, octets, htarget, hread, hplain, ?_⟩
        refine FileStore.read_eq_ok.mpr ⟨place, ?_, ?_⟩
        · exact (hrest.locate_iff hanswer target place).mpr
            ((hwrote.locate_iff target place).mpr hlocate)
        · refine hrest.entry_kept hanswer hapart' hwrote.entry_eq ?_
          intro later hmem other words hother hplaced hwords
          have hbegun := readText_later hapart htarget hlocate hwrote hmem hwords
          -- a later source with this target is the same file
          have hsame : text = words :=
            FileStore.readText_eq_of_place hread hbegun fun first origin hfirst horigin =>
              ((List.pairwise_cons.mp hapart).1 later hmem target place origin htarget hlocate
                horigin).2 other hother ((hwrote.locate_iff other place).mp hplaced) first hfirst
          exact hsame ▸ hplain
      · obtain ⟨other, words, found, hother, hwords, hform, hafter⟩ := ih hapart' later hmem
        exact ⟨other, words, found, hother,
          readText_later hapart htarget hlocate hwrote hmem hwords, hform, hafter⟩

end

/-- A source that has a plain form is worked on if its target can be written. -/
theorem exists_worked_of_plain {source target : Path} {text : Text} {octets : Octets}
    {files : FileStore} {before : World σ} (hread : before.files.readText source = .ok text)
    (hplain : setup.Plain run text octets) (htarget : source.target? = some target)
    (hwrite : before.files.write target octets = .ok files) :
    ∃ delivered : World σ, delivered.files = files ∧
      ∀ rest stale after, Worked setup run (.write none) rest delivered stale after →
        Worked setup run (.write none) (source :: rest) before stale after := by
  obtain ⟨result, repaired, hrepairs, hencode, hquiet⟩ := exists_repairs hread hplain
  have hplace : (Option.none.orElse fun _ => source.target?) = some target := htarget
  rw [← hquiet.files_eq] at hwrite
  exact ⟨{ repaired with files }, rfl, fun rest stale after hrest =>
    .next hrepairs (.written hplace hencode hwrite) hrest⟩

/-- Only without complaints the command ends with 0. -/
theorem worked_of_start_eq_zero {given : List Text} {arguments : Arguments} {before after : World σ}
    (hread : repairManual.grammar.read given = .ok arguments)
    (h : (repairSources run given).start before = (.ok 0, after)) :
    ∃ setup, ((setupOf arguments).start before).1 = .ok setup ∧
      Worked setup run (deliveryOf arguments) (arguments.operands.map Path.ofText) before false
        after := by
  have hends : Ending run arguments before ((repairSources run given).start before) :=
    repairSources_ends hread
  rw [h] at hends
  cases hends with
  | fine hone hsetup hworked => exact ⟨_, hsetup, hworked⟩
  | stopped hone hsetup hsources hworked hstopped =>
      cases hstopped with
      | answered hrepairs => cases hrepairs

/-- **No output is lost.**  Sources that are apart are written one after another, by processes that
do the same whenever they are called in the same way.  If the command ends with 0, each target holds
the plain form of the text that its source held when the command began. -/
theorem repairSources_outputs {given : List Text} {arguments : Arguments}
    {before after : World σ} (hanswer : run.Answers answer)
    (hread : repairManual.grammar.read given = .ok arguments)
    (hdelivery : deliveryOf arguments = .write none)
    (hapart : before.files.Apart (arguments.operands.map Path.ofText))
    (h : (repairSources run given).start before = (.ok 0, after)) :
    ∃ setup, ((setupOf arguments).start before).1 = .ok setup ∧
      ∀ operand ∈ arguments.operands, ∃ target text octets,
        (Path.ofText operand).target? = some target ∧
        before.files.readText (Path.ofText operand) = .ok text ∧ setup.Plain run text octets ∧
        after.files.read target = .ok octets := by
  obtain ⟨setup, hsetup, hworked⟩ := worked_of_start_eq_zero hread h
  rw [hdelivery] at hworked
  exact ⟨setup, hsetup, fun operand hmem =>
    hworked.outputs hanswer hapart _ (List.mem_map_of_mem hmem)⟩

/-- Two sources that are clean are both worked on. -/
theorem exists_start_of_two {first second : Text} {source target other last : Path}
    {text words : Text} {octets contents : Octets} {between files : FileStore} {before : World Unit}
    (hread : repairManual.grammar.read [first, second] = .ok { operands := [first, second] })
    (hsources : [first, second].map Path.ofText = [source, other])
    (hfirst : before.files.readText source = .ok text) (hencode : Utf8.encode text = .ok octets)
    (htarget : source.target? = some target)
    (hwrite : before.files.write target octets = .ok between)
    (hsecond : between.readText other = .ok words) (hwords : Utf8.encode words = .ok contents)
    (hlast : other.target? = some last) (hfiles : between.write last contents = .ok files) :
    ∃ after : World Unit, after.files = files ∧
      (repairSources Runner.clean [first, second]).start before = (.ok 0, after) := by
  obtain ⟨middle, rfl, hrest⟩ := exists_worked_of_plain hfirst
    (defaultSetup.plain_clean hencode) htarget hwrite
  obtain ⟨after, hafter, hend⟩ := exists_worked_of_plain hsecond
    (defaultSetup.plain_clean hwords) hlast hfiles
  refine ⟨after, hafter, Ending.start_eq hread (.fine (fun hout => by cases hout)
    (fst_setupOf_of_values_eq_nil rfl _) ?_)⟩
  rw [hsources]
  exact hrest _ _ _ (hend _ _ _ .done)

/-- Two sources in the extended language. -/
def twoSources : World Unit where
  files := { entries := [(["a.rbm"], .file [120, 10]), (["b.rbm"], .file [121, 10])] }
  process := ()

/-- Both outputs are there in the end. -/
theorem repairSources_outputs_two :
    ∃ after : World Unit,
      (repairSources Runner.clean ["a.rbm", "b.rbm"]).start twoSources = (.ok 0, after) ∧
      ∃ setup : Setup, ∀ operand ∈ (["a.rbm", "b.rbm"] : List Text), ∃ target text octets,
        (Path.ofText operand).target? = some target ∧
        twoSources.files.readText (Path.ofText operand) = .ok text ∧
        setup.Plain (Runner.clean : Runner Unit) text octets ∧
        after.files.read target = .ok octets := by
  have hread : repairManual.grammar.read ["a.rbm", "b.rbm"] =
      .ok { operands := ["a.rbm", "b.rbm"] } := by
    decide +kernel
  have htext : twoSources.files.readText (Path.ofText "a.rbm") = .ok "x\n" := by
    decide +kernel
  have hwrite : twoSources.files.write (Path.ofText "a.rb") [120, 10] =
      .ok { entries := [(["a.rbm"], .file [120, 10]), (["b.rbm"], .file [121, 10]),
        (["a.rb"], .file [120, 10])] } := by
    decide +kernel
  have hsecond : FileStore.readText { entries := [(["a.rbm"], .file [120, 10]),
      (["b.rbm"], .file [121, 10]), (["a.rb"], .file [120, 10])] } (Path.ofText "b.rbm") =
      .ok "y\n" := by
    decide +kernel
  obtain ⟨after, -, hstart⟩ := exists_start_of_two hread rfl htext rfl rfl hwrite hsecond rfl rfl rfl
  obtain ⟨setup, -, houtputs⟩ := repairSources_outputs Runner.answers_clean hread rfl
    (FileStore.apart_of_suffix _ (by decide +kernel)) hstart
  exact ⟨after, hstart, setup, houtputs⟩

/-- A source that is the target of the one before it. -/
def overwrittenSource : World Unit where
  files := { entries := [(["a.rbm"], .file [120, 10]), (["a.rb"], .file [121, 10])] }
  process := ()

/-- What the second source held has come to nothing, although the command ends with 0. -/
theorem repairSources_overwritten_source :
    (Path.ofText "a.rb").target? = some (Path.ofText "a.rb.rb") ∧
      overwrittenSource.files.readText (Path.ofText "a.rb") = .ok "y\n" ∧
      (∀ setup : Setup, setup.Plain (Runner.clean : Runner Unit) "y\n" [121, 10]) ∧
      ∃ after : World Unit,
        (repairSources Runner.clean ["a.rbm", "a.rb"]).start overwrittenSource = (.ok 0, after) ∧
          after.files.read (Path.ofText "a.rb.rb") = .ok [120, 10] := by
  have hread : repairManual.grammar.read ["a.rbm", "a.rb"] =
      .ok { operands := ["a.rbm", "a.rb"] } := by
    decide +kernel
  have htext : overwrittenSource.files.readText (Path.ofText "a.rbm") = .ok "x\n" := by
    decide +kernel
  have hwrite : overwrittenSource.files.write (Path.ofText "a.rb") [120, 10] =
      .ok { entries := [(["a.rbm"], .file [120, 10]), (["a.rb"], .file [120, 10])] } := by
    decide +kernel
  have hsecond : FileStore.readText { entries := [(["a.rbm"], .file [120, 10]),
      (["a.rb"], .file [120, 10])] } (Path.ofText "a.rb") = .ok "x\n" := by
    decide +kernel
  obtain ⟨after, hafter, hstart⟩ :=
    exists_start_of_two hread rfl htext rfl rfl hwrite hsecond rfl rfl rfl
  refine ⟨by decide +kernel, by decide +kernel, fun setup => setup.plain_clean rfl, after,
    hstart, ?_⟩
  rw [hafter]
  decide +kernel

end SyntaxRepair.Command
