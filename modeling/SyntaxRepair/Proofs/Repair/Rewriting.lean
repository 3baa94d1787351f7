import SyntaxRepair.Proofs.Repair.Merging
import SyntaxRepair.Proofs.Repair.Rounds

/-!
# A pass is a rewriting of its text

What a pass makes of its text is told by the report alone, without a history of edits:
each finding and each merge is a write at its place in the text as it was parsed, and the
pass splices all of them into it.

## Strategy

A sweep makes the writes of its findings (`sweep_eq_ok`), a merge those of its groups
(`mergeOverloads_eq_ok`); together they are what a fresh buffer accepts
(`editPass_eq_ok`), before the missions move along (`makePass_eq`).  The buffer then holds
the spliced text, provided that nothing is inserted where a range was replaced before.

* A finding leaves less than it removes.
* A new name stands in place of an old one, which is not empty.
* A dispatcher is inserted, and only its place has to be kept free
  (`Rewriting.Separate`).
-/

namespace SyntaxRepair

/-- What a pass makes of its text. -/
structure Rewriting where
  findings : List Finding
  merges : List Merge

namespace Rewriting

/-- The writes of a rewriting, in the order in which they are made. -/
def writes (text : Text) (rewriting : Rewriting) : List Write :=
  rewriting.findings.map (Finding.write text) ++ rewriting.merges.flatMap Merge.writes

/-- No dispatcher goes where something is removed. -/
def Separate (text : Text) (rewriting : Rewriting) : Prop :=
  ∀ merge ∈ rewriting.merges, ∀ write ∈ rewriting.writes text, 0 < write.length →
    write.offset ≠ merge.dispatcher.offset

instance (text : Text) (rewriting : Rewriting) : Decidable (rewriting.Separate text) :=
  inferInstanceAs (Decidable (∀ merge ∈ rewriting.merges, _))

variable {text : Text} {rewriting : Rewriting}

/-- A write of a rewriting is that of a finding, a new name or a dispatcher. -/
theorem mem_writes {write : Write} :
    write ∈ rewriting.writes text ↔
      write ∈ rewriting.findings.map (Finding.write text) ∨
        ∃ merge ∈ rewriting.merges, write ∈ merge.renamings ∨ write = merge.dispatcher := by
  rw [writes, List.mem_append, List.mem_flatMap]
  simp only [Merge.writes, List.mem_append, List.mem_singleton]

theorem inside_of_mem_writes
    (hfindings : ∀ write ∈ rewriting.findings.map (Finding.write text), write.Inside text.length)
    (hmerges : ∀ merge ∈ rewriting.merges, merge.Placed text.length) :
    ∀ write ∈ rewriting.writes text, write.Inside text.length := by
  intro write hmem
  rcases mem_writes.mp hmem with hfinding | ⟨merge, hmerge, hname | rfl⟩
  · exact hfindings write hfinding
  · exact (hmerges merge hmerge).renamings_inside write hname
  · exact (hmerges merge hmerge).dispatcher_inside

/-- Every write of a rewriting may be made behind every other one. -/
theorem Separate.admits (hseparate : rewriting.Separate text)
    (hfindings : ∀ write ∈ rewriting.findings.map (Finding.write text), write.Shrinks)
    (hmerges : ∀ merge ∈ rewriting.merges, merge.Placed text.length) :
    (rewriting.writes text).Pairwise Write.Admits := by
  refine List.pairwise_of_forall_mem_list fun earlier hearlier later hlater => ?_
  rcases mem_writes.mp hlater with hfinding | ⟨merge, hmerge, hname | rfl⟩
  · exact (hfindings later hfinding).admits
  · intro hempty _ _
    have hpositive := (hmerges merge hmerge).renamings_positive later hname
    exact absurd hempty (Int.ne_of_gt hpositive)
  · intro _ _ hremoves
    exact hseparate merge hmerge earlier hearlier hremoves

end Rewriting

/-- What a pass makes of the text of a parse; only the first pass merges overloads.  There
is nothing to make if a definition that is merged lacks a name or a line. -/
def Parse.rewriting? (result : Parse) (table : NameTable) (first : Bool) : Option Rewriting :=
  if first then
    (result.mergesOf? table result.groups).map fun merges => ⟨result.findings, merges⟩
  else some ⟨result.findings, []⟩

theorem findings_of_rewriting? {result : Parse} {table : NameTable} {first : Bool}
    {rewriting : Rewriting} (h : result.rewriting? table first = some rewriting) :
    rewriting.findings = result.findings := by
  unfold Parse.rewriting? at h
  split at h
  · obtain ⟨merges, -, rfl⟩ := Option.map_eq_some_iff.mp h
    rfl
  · cases h
    rfl

/-- The merges of a rewriting stand in the text. -/
theorem Parse.Located.of_rewriting? {result : Parse} {table : NameTable} {first : Bool}
    {rewriting : Rewriting} (hlocated : result.Located)
    (h : result.rewriting? table first = some rewriting) :
    ∀ merge ∈ rewriting.merges, merge.Placed result.text.length := by
  unfold Parse.rewriting? at h
  split at h
  · obtain ⟨merges, hmerges, rfl⟩ := Option.map_eq_some_iff.mp h
    exact hlocated.of_mergesOf? hmerges
  · cases h
    exact List.forall_mem_nil _

/-- The end of a pass leaves the text alone, moves the missions and is told in the journal. -/
theorem Workspace.closing_eq_ok {before after : Workspace} {event : Event} {done : Unit}
    (h : (do relocate; note event : Step Workspace Unit).start before = (.ok done, after)) :
    after.buffer = before.buffer ∧ after.queue = before.queue.relocate before.buffer.carry ∧
      after.journal.getLast? = some event := by
  simp only [Step.start_bind, start_relocate, start_note, Prod.mk.injEq, true_and] at h
  subst h
  exact ⟨rfl, rfl, List.getLast?_concat⟩

/-! ## A pass up to the move of its missions -/

section

variable {result : Parse} {options : Options} {number resolved : Nat}
  {before edited after : Workspace}

/-- The edits of a pass, before the waiting missions move along.  Returns how many diagnostics were
resolved. -/
def editPass (options : Options) (number : Nat) (result : Parse) : Step Workspace Nat := do
  let (resolved, groups) ← sweep (number = 1) result
  match groups with
  | none => return resolved
  | some groups =>
    let _ ← mergeOverloads result.tree.index result options.names groups
    return resolved

/-- A pass makes its edits and then moves the missions. -/
theorem makePass_eq (options : Options) (number : Nat) (result : Parse) :
    makePass options number result = (do
      let resolved ← editPass options number result
      Workspace.relocate
      Workspace.note (.passEnds number resolved result.diagnostics.length)) := by
  simp only [makePass, editPass, bind_assoc]
  refine bind_congr fun swept => ?_
  obtain ⟨resolved, _ | groups⟩ := swept
  · rfl
  · simp only [bind_assoc, pure_bind]

/-- A pass that succeeds has made its edits, moved the missions that these have left, and counted
what was resolved. -/
theorem exists_editPass {done : Unit}
    (h : (makePass options number result).start before = (.ok done, after)) :
    ∃ resolved edited, (editPass options number result).start before = (.ok resolved, edited) ∧
      after.buffer = edited.buffer ∧
      after.queue = edited.queue.relocate edited.buffer.carry ∧
      after.journal.getLast? = some (.passEnds number resolved result.diagnostics.length) := by
  rw [makePass_eq, Step.start_bind_eq_ok] at h
  obtain ⟨resolved, edited, hedit, hclosing⟩ := h
  exact ⟨resolved, edited, hedit, Workspace.closing_eq_ok hclosing⟩

/-- The edits of a pass are those of its sweep and, if that has collected groups, of their merge. -/
theorem editPass_cases
    (h : (editPass options number result).start before = (.ok resolved, edited)) :
    ∃ groups swept, (sweep (number = 1) result).start before = (.ok (resolved, groups), swept) ∧
      (groups = none ∧ edited = swept ∨ ∃ collected merged, groups = some collected ∧
        (mergeOverloads result.tree.index result options.names collected).start swept =
          (.ok merged, edited)) := by
  rw [editPass, Step.start_bind_eq_ok] at h
  obtain ⟨⟨_, _ | collected⟩, swept, hsweep, h⟩ := h
  · obtain ⟨rfl, rfl⟩ := Step.start_pure_eq_ok.mp h
    exact ⟨none, swept, hsweep, Or.inl ⟨rfl, rfl⟩⟩
  · rw [Step.start_bind_eq_ok] at h
    obtain ⟨merged, _, hmerge, h⟩ := h
    obtain ⟨rfl, rfl⟩ := Step.start_pure_eq_ok.mp h
    exact ⟨some collected, swept, hsweep, Or.inr ⟨collected, merged, rfl, hmerge⟩⟩

/-! ## The writes of a pass -/

/-- **The edits of a pass** that succeeds are the writes of its rewriting and no others. -/
theorem editPass_eq_ok
    (hlocations : ∀ location ∈ result.locations, location.Within result.text.length)
    (hfresh : before.buffer = { text := result.text })
    (h : (editPass options number result).start before = (.ok resolved, edited)) :
    ∃ rewriting, result.rewriting? options.names (number = 1) = some rewriting ∧
      Buffer.performAll { text := result.text } (rewriting.writes result.text) =
        .ok edited.buffer ∧
      (∀ write ∈ rewriting.writes result.text, write.Inside result.text.length) ∧
      (∀ finding ∈ result.findings, (finding.write result.text).Shrinks) ∧
      resolved = result.findings.length := by
  obtain ⟨groups, swept, hsweep, hmerge⟩ := editPass_cases h
  obtain ⟨hfollows, hgroups, hresolved⟩ := sweep_eq_ok hlocations hfresh hsweep
  have hshrinks : ∀ finding ∈ result.findings, (finding.write result.text).Shrinks :=
    fun finding hmem => hfollows.shrinks _ (List.mem_map_of_mem hmem)
  rw [Parse.rewriting?]
  rcases hmerge with ⟨rfl, rfl⟩ | ⟨collected, merged, rfl, hmerge⟩
  · -- a later pass makes the writes of its findings alone
    have hlater : ¬ decide (number = 1) = true := fun hfirst => by
      rw [if_pos hfirst] at hgroups
      cases hgroups
    have hwrites : (Rewriting.mk result.findings []).writes result.text =
        result.findings.map (Finding.write result.text) := List.append_nil _
    rw [if_neg hlater]
    refine ⟨_, rfl, ?_, ?_, hshrinks, hresolved⟩
    · rw [hwrites]
      exact hfollows.performed
    · rw [hwrites]
      exact hfollows.inside
  · have hfirst : decide (number = 1) = true := by
      by_contra hlater
      rw [if_neg hlater] at hgroups
      cases hgroups
    rw [if_pos hfirst, Option.map_some, Option.some.injEq] at hgroups
    obtain ⟨merges, hmerges, hperform⟩ := mergeOverloads_eq_ok hmerge
    rw [← Parse.mergesOf?_bare, hgroups] at hmerges
    rw [if_pos hfirst, hmerges, Option.map_some]
    refine ⟨_, rfl, ?_, ?_, hshrinks, hresolved⟩
    · exact Buffer.performAll_append.mpr ⟨swept.buffer, hfollows.performed, hperform⟩
    · rw [Rewriting.writes, List.forall_mem_append, List.forall_mem_flatMap]
      exact ⟨hfollows.inside, Parse.inside_of_mergesOf? hlocations hmerges⟩

/-- **The writes of a pass.**  A pass that succeeds has made the writes of its rewriting
and no others, and has counted its findings. -/
theorem makePass_eq_ok {done : Unit} (hlocated : result.Located)
    (hfresh : before.buffer = { text := result.text })
    (h : (makePass options number result).start before = (.ok done, after)) :
    ∃ rewriting, result.rewriting? options.names (number = 1) = some rewriting ∧
      Buffer.performAll { text := result.text } (rewriting.writes result.text) =
        .ok after.buffer ∧
      (∀ write ∈ rewriting.findings.map (Finding.write result.text),
        write.Inside result.text.length ∧ write.Shrinks) ∧
      (∀ merge ∈ rewriting.merges, merge.Placed result.text.length) ∧
      after.journal.getLast? =
        some (.passEnds number rewriting.findings.length result.diagnostics.length) := by
  obtain ⟨resolved, edited, hedit, hbuffer, -, hjournal⟩ := exists_editPass h
  obtain ⟨rewriting, hrewriting, hperform, hinside, hshrinks, rfl⟩ :=
    editPass_eq_ok hlocated.within hfresh hedit
  have hfindings := findings_of_rewriting? hrewriting
  rw [hbuffer]
  refine ⟨rewriting, hrewriting, hperform, ?_, hlocated.of_rewriting? hrewriting, ?_⟩
  · intro write hmem
    refine ⟨hinside write (Rewriting.mem_writes.mpr (Or.inl hmem)), ?_⟩
    rw [hfindings] at hmem
    obtain ⟨finding, hfinding, rfl⟩ := List.mem_map.mp hmem
    exact hshrinks finding hfinding
  · rw [hfindings]
    exact hjournal

end

/-! ## The text that is handed on -/

namespace Run

variable {σ : Type} {parser : Parser σ} {number : Nat} {result : Parse} {before after : Run σ}

/-- **A pass is a rewriting.**  For every report whose locations stand in its text and
whose names are not empty, a pass that succeeds hands on the text with the writes of its
rewriting spliced in, each at its place in the text as it was parsed: the fields that were
found lose their mark, the types are removed with their markers, and in the first pass
the definitions of every group with several of them are renamed and a dispatcher is put
above the first one.  Taken by their places the writes stand one behind the other inside
the text, so all other characters are kept, once and in order. -/
theorem pass_text_eq_spliceAll {options : Options} {opened : Run σ} {done : Unit}
    (hparse : (openPass parser number).start before = (.ok result, opened))
    (htext : result.text = before.buffer.text) (hlocated : result.Located)
    (hseparate : ∀ rewriting ∈ result.rewriting? options.names (number = 1),
      rewriting.Separate result.text)
    (hpass : (pass options number result).start opened = (.ok done, after)) :
    ∃ rewriting, result.rewriting? options.names (number = 1) = some rewriting ∧
      ((openPass parser (number + 1)).start after).2.parsed =
        after.parsed ++ [result.text.spliceAll (rewriting.writes result.text)] ∧
      (arrange (rewriting.writes result.text)).Pairwise Change.Clears ∧
      (∀ change ∈ arrange (rewriting.writes result.text), change.Fits result.text.length) ∧
      after.journal.getLast? =
        some (.passEnds number rewriting.findings.length result.diagnostics.length) := by
  have hfresh : opened.buffer = { text := result.text } := by
    rw [htext]
    exact openPass_eq_ok hparse
  obtain ⟨rewriting, hrewriting, hperform, hfindings, hmerges, hjournal⟩ :=
    makePass_eq_ok hlocated hfresh (pass_eq_ok hpass)
  have records := Buffer.records_of_performAll hperform
  have hinside :=
    Rewriting.inside_of_mem_writes (fun write hmem => (hfindings write hmem).1) hmerges
  have hadmits := (hseparate rewriting hrewriting).admits
    (fun write hmem => (hfindings write hmem).2) hmerges
  refine ⟨rewriting, hrewriting, ?_, ?_, records.fits hinside, hjournal⟩
  · rw [parsed_openPass, Buffer.text_of_performAll hinside hadmits hperform]
  · exact arrange_clears (fun write hmem => (records.nonneg write hmem).2) records.apart hadmits

/-! ### A pass over three definitions -/

/-- The location of some characters of line `line`, which begins at `origin`. -/
def sampleLocation (origin line column size : Int) : Location :=
  ⟨.int (origin + column), .int (origin + column + size), .int line, .int column⟩

/-- A definition `def f(A=>a)end` that fills line `line`, with the type as its parameter and
the parameter as its body. -/
def sampleDefinition (origin line : Int) : Node :=
  .mk { kind := definitionKind, location := sampleLocation origin line 0 14, name := some "f",
        nameLocation := some (sampleLocation origin line 4 1) }
    [some (.mk { kind := parametersKind, location := sampleLocation origin line 6 1 }
      [some (.mk { kind := "parameter_node", location := sampleLocation origin line 6 1 } [])]),
     some (.mk { kind := "statements_node", location := sampleLocation origin line 9 1 }
      [some (.mk { kind := "call_node", location := sampleLocation origin line 9 1 } [])])]

/-- Two definitions of one name and a third one with a field; the last of their diagnostics
is not reported last. -/
def sampleParse : Parse where
  text := "def f(A=>a)end\ndef f(B=>b)end\ndef g(@c)end"
  tree := .mk { kind := "program_node", location := sampleLocation 0 1 0 42 }
    [some (sampleDefinition 0 1), some (sampleDefinition 15 2)]
  diagnostics :=
    [⟨"argument_formal_ivar", sampleLocation 30 3 6 2, []⟩,
     ⟨"unexpected_token_ignore", sampleLocation 0 1 7 2, []⟩,
     ⟨"unexpected_token_ignore", sampleLocation 15 2 7 2, []⟩]

/-- What the first pass makes of it: new names with a dispatcher above them, and a plain
parameter. -/
def sampleRewritten : Text :=
  "# @rbs (A) -> untyped\n#    | (B) -> untyped\ndef f(*args)\n  case args\n" ++
    "  in [A]\n    f__overload0(*args)\n  in [B]\n    f__overload1(*args)\n  end\nend\n\n" ++
    "def f__overload0(a)end\ndef f__overload1(b)end\ndef g(c)end"

theorem pass_text_eq_spliceAll_sample :
    ∃ (parser : Parser Unit) (opened after : Run Unit),
      (openPass parser 1).start (Run.of sampleParse.text ()) = (.ok sampleParse, opened) ∧
      sampleParse.Located ∧
      (∀ rewriting ∈ sampleParse.rewriting? [] (1 = 1), rewriting.Separate sampleParse.text) ∧
      (pass {} 1 sampleParse).start opened = (.ok (), after) ∧
      ((openPass parser 2).start after).2.parsed = after.parsed ++ [sampleRewritten] := by
  let parser : Parser Unit := fun _ => pure sampleParse
  have hparse := @Step.eq_ok_of_fst _ Parse
    ((openPass parser 1).start (Run.of sampleParse.text ())) sampleParse rfl
  generalize hopened : ((openPass parser 1).start (Run.of sampleParse.text ())).2 = opened at hparse
  have hpass := @Step.eq_ok_of_fst _ Unit ((pass {} 1 sampleParse).start opened) () (by
    rw [← hopened]
    decide +kernel)
  generalize ((pass {} 1 sampleParse).start opened).2 = after at hpass
  have hlocated : sampleParse.Located := ⟨by decide +kernel, by decide +kernel⟩
  have hseparate : ∀ rewriting ∈ sampleParse.rewriting? [] (1 = 1),
      rewriting.Separate sampleParse.text := by decide +kernel
  have hspliced : (sampleParse.rewriting? [] (1 = 1)).map (fun rewriting =>
      sampleParse.text.spliceAll (rewriting.writes sampleParse.text)) = some sampleRewritten := by
    decide +kernel
  obtain ⟨rewriting, hrewriting, hparsed, -⟩ :=
    @pass_text_eq_spliceAll Unit parser 1 sampleParse _ after {} opened () hparse rfl hlocated
      hseparate hpass
  refine ⟨parser, opened, after, hparse, hlocated, hseparate, hpass, ?_⟩
  rw [hrewriting, Option.map_some, Option.some.injEq] at hspliced
  rw [hparsed, hspliced]

end Run

end SyntaxRepair
