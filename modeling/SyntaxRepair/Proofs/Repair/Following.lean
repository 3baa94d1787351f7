import SyntaxRepair.Proofs.Repair.Waiting
import SyntaxRepair.Proofs.Sequences

/-!
# Missions follow their tokens

A mission is anchored where its finding was written.  When the text parses cleanly, its anchor
stands in front of the token that it was posted for: the bare name of a field, or the parameter
behind a type (`untilClean_anchors`).

## Strategy

`Rewriting.Leaves` tells the token of a finding and where the pass leaves it.  `Run.Anchors` is
kept from then on: the characters of the token stand at a place, and the mission is anchored there.

* The pass that posts the mission establishes it (`Round.anchors_posted`).
* Every later pass that does not touch the token keeps it (`Anchors.round`), since it makes the
  writes of its findings alone and none of them adds to the length.

Hence each finding is followed through the passes of a repair (`Run.Follows`), from the pass that
posts it (`Round.follows`) to one more pass (`Follows.round`).
-/

namespace SyntaxRepair

/-! ## Tokens -/

/-- The token that a finding leaves in the text, and where: behind a field its name, behind a type
the character that followed.  No dispatcher goes where the finding was written. -/
inductive Rewriting.Leaves (result : Parse) (rewriting : Rewriting) : Finding → Int → Text → Prop
  | field {range : Range}
      (hfree : ∀ merge ∈ rewriting.merges, merge.dispatcher.offset ≠ range.start) :
      Leaves result rewriting (.field range)
        (landing (rewriting.writes result.text) range.start)
        (result.text.slice range.start range.stop).tail
  | typed {site : Sweep.Site} {range : Range} {c : CodePoint}
      (hfree : ∀ merge ∈ rewriting.merges,
        merge.dispatcher.offset ≠ range.start ∧ merge.dispatcher.offset ≠ range.stop)
      (hc : Text.pick? result.text range.stop = some c)
      (hkept : ∀ write ∈ rewriting.writes result.text, ¬ write.Removes range.stop) :
      Leaves result rewriting (.typed site range)
        (landing (rewriting.writes result.text) range.stop) [c]

namespace Parse

/-- Where what stands at a place gets to by a pass that merges nothing. -/
def moved (result : Parse) (place : Int) : Int :=
  landing (result.findings.map (Finding.write result.text)) place

/-- Where what stands at a place gets to by several passes. -/
def movedBy (later : List Parse) (place : Int) : Int :=
  later.foldl (fun place result => result.moved place) place

/-- Some characters at a place that no finding of several passes meets. -/
def Untouched (size : Nat) : Int → List Parse → Prop
  | _, [] => True
  | place, result :: later =>
      (∀ finding ∈ result.findings, finding.range.meets ⟨place, place + size⟩ = false) ∧
        Untouched size (result.moved place) later

theorem movedBy_concat (later : List Parse) (result : Parse) (place : Int) :
    movedBy (later ++ [result]) place = result.moved (movedBy later place) := by
  rw [movedBy, List.foldl_append]
  rfl

theorem untouched_concat {size : Nat} {place : Int} {later : List Parse} {result : Parse} :
    Untouched size place (later ++ [result]) ↔
      Untouched size place later ∧ ∀ finding ∈ result.findings,
        finding.range.meets ⟨movedBy later place, movedBy later place + size⟩ = false := by
  induction later generalizing place with
  | nil => exact ⟨fun h => ⟨trivial, h.1⟩, fun h => ⟨h.2, trivial⟩⟩
  | cons first rest ih =>
      rw [List.cons_append, Untouched, Untouched, ih, and_assoc]
      rfl

end Parse

/-! ## One round -/

/-- A text keeps a stretch that no write touches. -/
theorem Text.HoldsAt.carry {text content : Text} {place : Int} {writes : List Write}
    {buffer : Buffer} (hholds : text.HoldsAt place content)
    (hperform : Buffer.performAll { text } writes = .ok buffer)
    (hspared : ∀ write ∈ writes, write.offset + write.length ≤ place ∨
      place < write.offset ∧ place + content.length ≤ write.offset) :
    buffer.text.HoldsAt (buffer.carry place) content := by
  obtain ⟨front, back, htext, rfl⟩ := hholds
  have hstop : front.length + content.length ≤ text.length := by
    rw [htext, List.length_append, List.length_append]
    omega
  have hmiddle : (text.take (front.length + content.length)).drop front.length = content := by
    rw [htext, ← List.length_append, List.take_left, List.drop_left]
  rw [← hmiddle]
  apply Buffer.holdsAt_carry hperform hstop
  intro write hmem
  have hwrite := hspared write hmem
  omega

theorem Finding.range_write (text : Text) (finding : Finding) :
    (finding.write text).range = finding.range := by
  have hrange : ∀ range : Range, (⟨range.start, range.start + range.length⟩ : Range) = range := by
    intro range
    rw [Range.length, Int.add_comm, Int.sub_add_cancel]
  cases finding with
  | field range => exact hrange range
  | typed site range => exact hrange range

theorem Write.Shrinks.growth_le {write : Write} (hshrinks : write.Shrinks) : write.growth ≤ 0 := by
  rw [growth]
  rcases hshrinks with hless | ⟨hempty, hnothing⟩
  · omega
  · rw [hempty, hnothing]
    exact Int.le_refl 0

/-- A pass that is not the first one makes the writes of its findings and no others. -/
theorem writes_of_rewriting? {result : Parse} {table : NameTable} {rewriting : Rewriting}
    (h : result.rewriting? table false = some rewriting) :
    rewriting.writes result.text = result.findings.map (Finding.write result.text) := by
  cases h
  rw [Rewriting.writes, List.flatMap_nil, List.append_nil]

namespace Run

variable {σ : Type} {parser : Parser σ} {options : Options} {number : Nat} {result : Parse}
  {rewriting : Rewriting} {before opened after : Run σ}

/-- A run in which the characters of a token stand at a place, and where the mission with the number
of a task is anchored there, as long as it waits. -/
structure Anchors (run : Run σ) (task : Task) (place : Int) (content : Text) : Prop where
  nonempty : content ≠ []
  holds : run.buffer.text.HoldsAt place content
  issued : task.sequence < run.queue.next
  anchored : ∀ mission ∈ run.queue.missions, mission.sequence = task.sequence →
    mission.offset = place ∧ mission.task = task

variable {task : Task} {place : Int} {content : Text}

/-- The missions that a round posts have numbers of their own. -/
theorem le_of_mem_missions {number : Nat} {postings : List Posting} {mission : Mission}
    (hmem : mission ∈ Posting.missions number postings) : number ≤ mission.sequence := by
  obtain ⟨⟨posting, place⟩, hposting, rfl⟩ := List.mem_map.mp hmem
  exact List.le_snd_of_mem_zipIdx hposting

/-- **Later rounds.**  A round that does not touch a token carries its mission along with it. -/
theorem Anchors.round (hanchors : before.Anchors task place content)
    (hround : Round options number result rewriting before after) (hnumber : number ≠ 1)
    (huntouched : ∀ finding ∈ result.findings,
      finding.range.meets ⟨place, place + content.length⟩ = false) :
    after.Anchors task (result.moved place) content := by
  have hwrites : rewriting.writes result.text = result.findings.map (Finding.write result.text) :=
    writes_of_rewriting? (decide_eq_false hnumber ▸ hround.rewriting_eq)
  have hperform := hround.performed
  rw [hwrites] at hperform
  have records := Buffer.records_of_performAll hperform
  have hlength : 0 < content.length := List.length_pos_of_ne_nil hanchors.nonempty
  have hcarry : after.buffer.carry place = result.moved place := by
    apply records.carry_eq_landing
    intro write hmem _
    obtain ⟨finding, hfinding, rfl⟩ := List.mem_map.mp hmem
    exact (hround.shrinks finding hfinding).growth_le
  have hholds := hanchors.holds
  rw [hround.text_eq] at hholds
  have hcarried := hholds.carry hperform (by
    intro write hmem
    obtain ⟨finding, hfinding, rfl⟩ := List.mem_map.mp hmem
    have hnonneg := (records.nonneg _ hmem).2
    have hmeets := huntouched finding hfinding
    rw [← finding.range_write result.text, Range.meets_eq_false_iff
      (Int.le_add_of_nonneg_right hnonneg) (by dsimp only; omega)] at hmeets
    dsimp only [Write.range] at hmeets
    omega)
  rw [hcarry] at hcarried
  have hnext := hround.accounts.next_eq
  have hissued := hanchors.issued
  refine ⟨hanchors.nonempty, hcarried, by omega, ?_⟩
  intro mission hmem hsequence
  obtain ⟨origin, rfl, hold | hnew⟩ := hround.origins mission hmem
  · obtain ⟨hplace, htask⟩ := hanchors.anchored origin hold hsequence
    exact ⟨by rw [hplace, hcarry], htask⟩
  · -- missions that are posted now have greater numbers
    have hle := le_of_mem_missions hnew
    have hsame : origin.sequence = task.sequence := hsequence
    omega

/-! ### The round that posts a mission -/

variable {finding : Finding} {sequence : Nat}

/-- Where the start of a finding is carried, its mission is anchored. -/
theorem Round.anchors_of_carry (hround : Round options number result rewriting before after)
    (hordered : before.queue.Ordered)
    (hmem : (finding, sequence) ∈ result.findings.zipIdx before.queue.next)
    (hcontent : content ≠ []) (hcarry : after.buffer.carry finding.range.start = place)
    (hholds : after.buffer.text.HoldsAt place content) :
    after.Anchors ((finding.posting result.text).mission sequence).task place content := by
  have hnext := hround.accounts.next_eq
  have hlt := List.snd_lt_add_of_mem_zipIdx hmem
  have hle := List.le_snd_of_mem_zipIdx hmem
  refine ⟨hcontent, hholds, ?_, ?_⟩
  · rw [hnext]
    exact hlt
  · intro mission hmission hsequence
    obtain ⟨origin, rfl, hold | hnew⟩ := hround.origins mission hmission
    · -- missions that waited before have smaller numbers
      have hissued := hordered.sequence_lt hold
      have hsame : origin.sequence = sequence := hsequence
      omega
    · obtain ⟨⟨posting, sequence'⟩, hposting, rfl⟩ := List.mem_map.mp hnew
      have hsame : sequence' = sequence := hsequence
      subst hsame
      have hfinding : (finding.posting result.text, sequence') ∈
          (result.findings.map (Finding.posting result.text)).zipIdx before.queue.next := by
        rw [List.zipIdx_map]
        exact List.mem_map_of_mem hmem
      rw [Posting.eq_of_mem_zipIdx hfinding hposting]
      exact ⟨hcarry, rfl⟩

/-- Nothing adds to the length at a character that is kept, if no dispatcher goes there. -/
theorem Round.growth_le_of_kept (hround : Round options number result rewriting before after)
    {offset : Int} (hkept : ∀ write ∈ rewriting.writes result.text, ¬ write.Removes offset)
    (hfree : ∀ merge ∈ rewriting.merges, merge.dispatcher.offset ≠ offset) :
    ∀ write ∈ rewriting.writes result.text, write.offset = offset → write.growth ≤ 0 := by
  intro write hmem hsame
  have hnot := hkept write hmem
  rw [Rewriting.mem_writes, findings_of_rewriting? hround.rewriting_eq] at hmem
  rcases hmem with hfinding | ⟨merge, hmerge, hname | rfl⟩
  · obtain ⟨found, hfound, rfl⟩ := List.mem_map.mp hfinding
    exact (hround.shrinks found hfound).growth_le
  · have hnamed := (hround.placed merge hmerge).renamings_positive write hname
    rw [Write.Removes] at hnot
    omega
  · exact absurd hsame (hfree merge hmerge)

/-- The two ends of a type that was removed are carried to one place. -/
theorem Round.carry_typed_start (hround : Round options number result rewriting before after)
    {site : Sweep.Site} {range : Range} (hfinding : .typed site range ∈ result.findings)
    (hfree : ∀ merge ∈ rewriting.merges, merge.dispatcher.offset ≠ range.start)
    (hstop : after.buffer.carry range.stop =
      landing (rewriting.writes result.text) range.stop) :
    after.buffer.carry range.start = landing (rewriting.writes result.text) range.stop := by
  have records := Buffer.records_of_performAll hround.performed
  have hwrite := hround.write_mem hfinding
  have hlength := (records.nonneg _ hwrite).2
  have hend : range.start + range.length = range.stop := by
    rw [Range.length, Int.add_comm, Int.sub_add_cancel]
  simp only [Finding.write, Write.length] at hlength
  rcases Int.lt_or_eq_of_le hlength with hpositive | hempty
  · have hlone := hround.lone hwrite hpositive hfree
    have hland := records.landing_stop hlone
    have hcarry := records.carry_eq_landing_of_lone hlone (hround.shrinks _ hfinding).growth_le
    simp only [Finding.write, Write.offset, Write.length, Write.inserted, List.length_nil,
      hend] at hland hcarry
    rw [hcarry, hland]
    exact (Int.add_zero _).symm
  · have hsame : range.start = range.stop := by omega
    rw [hsame]
    exact hstop

/-- **The round that posts a mission.**  It anchors the mission at the token of the finding. -/
theorem Round.anchors_posted (hround : Round options number result rewriting before after)
    (hordered : before.queue.Ordered)
    (hmem : (finding, sequence) ∈ result.findings.zipIdx before.queue.next)
    (hleaves : rewriting.Leaves result finding place content) :
    after.Anchors ((finding.posting result.text).mission sequence).task place content := by
  have records := Buffer.records_of_performAll hround.performed
  have hfinding : finding ∈ result.findings := List.fst_mem_of_mem_zipIdx hmem
  have hshrinks := hround.shrinks finding hfinding
  cases hleaves with
  | @field range hfree =>
      have hnamed : (result.text.slice range.start range.stop).tail ≠ [] := by
        obtain ⟨c, name, hslice⟩ := hround.marked _ hfinding
        rw [hslice]
        exact List.cons_ne_nil c name
      have hpositive : 0 < ((Finding.field range).write result.text).length := by
        rcases hshrinks with hless | ⟨-, hnothing⟩
        · omega
        · exact absurd hnothing hnamed
      have hlone := hround.lone (hround.write_mem hfinding) hpositive hfree
      apply hround.anchors_of_carry hordered hmem hnamed
      · exact records.carry_eq_landing_of_lone hlone hshrinks.growth_le
      · exact Buffer.holdsAt_landing hround.inside hround.performed hlone
  | @typed site range c hfree hc hkept =>
      have hgrowth := hround.growth_le_of_kept hkept fun merge hmerge => (hfree merge hmerge).2
      have hstop := records.carry_eq_landing hgrowth
      apply hround.anchors_of_carry hordered hmem (List.cons_ne_nil c [])
      · exact hround.carry_typed_start hfinding (fun merge hmerge => (hfree merge hmerge).1) hstop
      · obtain ⟨hstart, hlength⟩ := records.nonneg _ (hround.write_mem hfinding)
        simp only [Finding.write, Write.offset, Write.length, Range.length] at hstart hlength
        obtain ⟨offset, hoffset⟩ := Int.eq_ofNat_of_zero_le (by omega : 0 ≤ range.stop)
        rw [hoffset] at hc hkept hstop ⊢
        rw [Text.pick?_natCast] at hc
        rw [← hstop]
        exact Buffer.holdsAt_carry_of_kept hround.performed hc hkept

/-! ### Findings through the passes -/

/-- What becomes of a finding of one pass by some later ones: the task of a field still waits, and
the task is anchored at its token, if no later pass touches that. -/
structure Follows (run : Run σ) (result : Parse) (rewriting : Rewriting) (later : List Parse)
    (finding : Finding) (sequence : Nat) : Prop where
  waits : finding.purpose = .assignment →
    ((finding.posting result.text).mission sequence).task ∈ run.queue.tasks
  anchors : ∀ place content, rewriting.Leaves result finding place content →
    Parse.Untouched content.length place later →
      run.Anchors ((finding.posting result.text).mission sequence).task
        (Parse.movedBy later place) content

/-- Behind the pass that posts it. -/
theorem Round.follows (hround : Round options number result rewriting before after)
    (hordered : before.queue.Ordered)
    (hmem : (finding, sequence) ∈ result.findings.zipIdx before.queue.next) :
    after.Follows result rewriting [] finding sequence := by
  refine ⟨?_, ?_⟩
  · intro hassignment
    rw [(hround.accounts.tasks_perm hordered).mem_iff]
    refine List.mem_append_right _ (Posting.mem_kept_of_alone hmem ?_)
    intro other _
    cases finding with
    | field range => rfl
    | typed site range => cases hassignment
  · intro place content hleaves _
    exact hround.anchors_posted hordered hmem hleaves

/-- Behind one more pass. -/
theorem Follows.round {posted : Parse} {rewriting' : Rewriting} {later : List Parse}
    (hfollows : before.Follows posted rewriting' later finding sequence)
    (hround : Round options number result rewriting before after) (hordered : before.queue.Ordered)
    (hnumber : number ≠ 1) :
    after.Follows posted rewriting' (later ++ [result]) finding sequence := by
  refine ⟨?_, ?_⟩
  · intro hassignment
    rw [(hround.accounts.tasks_perm hordered).mem_iff]
    exact List.mem_append_left _ (hfollows.waits hassignment)
  · intro place content hleaves huntouched
    obtain ⟨hearlier, hnow⟩ := Parse.untouched_concat.mp huntouched
    rw [Parse.movedBy_concat]
    exact (hfollows.anchors place content hleaves hearlier).round hround hnumber hnow

end Run

/-! ## Whole repairs -/

/-- The reports that a parser has given for some texts are reports of these texts, with locations
that stand in them. -/
def Parser.Locates {σ : Type} (parser : Parser σ) (state : σ) (asked : List Text) : Prop :=
  ∀ text answer, (text, Except.ok answer) ∈ asked.zip (parser.answers state asked) →
    answer.text = text ∧ answer.Located

/-- The number of the first mission that is posted behind some passes. -/
def numberBehind (next : Nat) (earlier : List Parse) : Nat :=
  next + (earlier.map fun result => result.findings.length).sum

theorem numberBehind_concat (next : Nat) (earlier : List Parse) (result : Parse) :
    numberBehind next (earlier ++ [result]) =
      numberBehind next earlier + result.findings.length := by
  rw [numberBehind, numberBehind, List.map_append, List.sum_append, List.map_singleton,
    List.sum_singleton, Nat.add_assoc]

namespace Parser

variable {σ : Type} {parser : Parser σ} {state : σ} {asked : List Text} {text : Text}

theorem Locates.init (hlocates : parser.Locates state (asked ++ [text])) :
    parser.Locates state asked := by
  intro asking answer hmem
  apply hlocates asking answer
  rw [answers_concat, List.zip_append (parser.length_answers state asked).symm]
  exact List.mem_append_left _ hmem

theorem Locates.last (hlocates : parser.Locates state (asked ++ [text])) {result : Parse}
    (hanswer : ((parser text).start (parser.stateAfter state asked)).1 = .ok result) :
    result.text = text ∧ result.Located := by
  apply hlocates text result
  rw [answers_concat, List.zip_append (parser.length_answers state asked).symm, hanswer]
  exact List.mem_append_right _ (List.mem_singleton_self _)

end Parser

namespace Run

variable {σ : Type} {parser : Parser σ} {options : Options} {begun before opened after : Run σ}
  {result : Parse} {number : Nat}

/-- What the parser answers when a pass is opened is located, if all that it has answered is. -/
theorem located_openPass (hasked : Asked parser begun before)
    (hlocates : parser.Locates begun.parser (before.parsed ++ [before.buffer.text]))
    (hparse : (openPass parser number).start before = (.ok result, opened)) :
    result.text = before.buffer.text ∧ result.Located := by
  apply hlocates.last
  have hfirst := fst_openPass parser number before
  rw [hparse] at hfirst
  rw [← hasked, ← hfirst]

/-- **The rounds of a repair.**  Behind each of its passes the missions of that pass are anchored at
their tokens, as long as no later pass touches these. -/
theorem Passed.anchors {results : List Parse} (hpassed : Passed parser options begun results before)
    (hbegun : begun.parsed = []) (hordered : begun.queue.Ordered)
    (hlocates : parser.Locates begun.parser before.parsed) :
    before.queue.Ordered ∧ before.queue.next = numberBehind begun.queue.next results ∧
      ∀ earlier result later, results = earlier ++ result :: later →
        ∃ rewriting, result.rewriting? options.names earlier.isEmpty = some rewriting ∧
          ∀ finding sequence,
            (finding, sequence) ∈ result.findings.zipIdx (numberBehind begun.queue.next earlier) →
              before.Follows result rewriting later finding sequence := by
  induction hpassed with
  | start =>
      refine ⟨hordered, rfl, ?_⟩
      intro earlier result later hsplit
      exact absurd hsplit (by simp)
  | @next results result before opened after earlier hparse hbroken hprogress hpass ih =>
      rw [parsed_round hparse hpass] at hlocates
      obtain ⟨hqueue, hnext, hfollows⟩ := ih hlocates.init
      obtain ⟨htext, hlocated⟩ := located_openPass (earlier.answers_eq hbegun).1 hlocates hparse
      obtain ⟨rewriting, hround⟩ := exists_round htext hlocated hparse hpass
      refine ⟨hround.accounts.ordered hqueue, ?_, ?_⟩
      · rw [hround.accounts.next_eq, hnext, numberBehind_concat]
      · intro first other later hsplit
        rcases eq_append_cons_of_concat hsplit with ⟨rfl, rfl, rfl⟩ | ⟨rest, rfl, hresults⟩
        · -- the pass that was made last
          refine ⟨rewriting, ?_, ?_⟩
          · rw [← decide_first]
            exact hround.rewriting_eq
          · intro finding sequence hmem
            rw [← hnext] at hmem
            exact hround.follows hqueue hmem
        · -- an earlier one
          have hnumber : results.length + 1 ≠ 1 := by
            rw [hresults, List.length_append, List.length_cons]
            omega
          obtain ⟨rewriting', hrewriting, hposted⟩ := hfollows first other rest hresults
          refine ⟨rewriting', hrewriting, ?_⟩
          intro finding sequence hmem
          exact (hposted finding sequence hmem).round hround hqueue hnumber

end Run

/-- **Missions follow their tokens.**  If a repair ends with a clean text, then each mission that a
pass has posted and that still waits is anchored at its token in the clean text, provided that no
dispatcher went where its finding was written and no later pass has touched the token: a mission of
a field, which always waits, in front of the bare name, and one of a type in front of the character
that followed what was removed. -/
theorem untilClean_anchors {σ : Type} {parser : Parser σ} {options : Options} {text : Text}
    {queue : Queue} {state : σ} {clean : Parse} {run : Run σ} (hordered : queue.Ordered)
    (hlocates : parser.Locates state run.parsed)
    (h : (untilClean parser options).start (Run.onQueue text queue state) = (.ok clean, run)) :
    ∃ reports : List Parse,
      parser.answers state run.parsed = reports.map Except.ok ++ [.ok clean] ∧
      ∀ earlier result later, reports = earlier ++ result :: later →
        ∃ rewriting, result.rewriting? options.names earlier.isEmpty = some rewriting ∧
          ∀ finding sequence,
            (finding, sequence) ∈ result.findings.zipIdx (numberBehind queue.next earlier) →
              (finding.purpose = .assignment →
                ∃ mission ∈ run.queue.missions, mission.sequence = sequence) ∧
              ∀ place content, rewriting.Leaves result finding place content →
                Parse.Untouched content.length place later →
                  ∀ mission ∈ run.queue.missions, mission.sequence = sequence →
                    mission.task = ((finding.posting result.text).mission sequence).task ∧
                      clean.text.slice mission.offset (mission.offset + content.length) =
                        content := by
  obtain ⟨reports, before, hpassed, hends⟩ :=
    Run.untilClean_ends parser options (Run.onQueue text queue state)
  rw [h] at hends
  obtain ⟨-, hparsed, -, hanswers⟩ := hends.answers_eq rfl hpassed
  dsimp only at hparsed hanswers
  rw [hparsed] at hlocates
  cases hends with
  | clean hparse hclean =>
      obtain ⟨-, -, hanchors⟩ := hpassed.anchors rfl hordered hlocates.init
      obtain ⟨htext, -⟩ := Run.located_openPass (hpassed.answers_eq rfl).1 hlocates hparse
      have hqueue : run.queue = before.queue := by
        obtain ⟨state', -, rfl⟩ := Run.openPass_eq_ok_iff.mp hparse
        rfl
      rw [hparse] at hanswers
      refine ⟨reports, hanswers, ?_⟩
      intro earlier result later hsplit
      obtain ⟨rewriting, hrewriting, hposted⟩ := hanchors earlier result later hsplit
      refine ⟨rewriting, hrewriting, ?_⟩
      intro finding sequence hmem
      obtain ⟨hwaits, hfollows⟩ := hposted finding sequence hmem
      rw [hqueue]
      refine ⟨?_, ?_⟩
      · intro hassignment
        obtain ⟨mission, hmission, htask⟩ := List.mem_map.mp (hwaits hassignment)
        exact ⟨mission, hmission, congrArg Task.sequence htask⟩
      · intro place content hleaves huntouched mission hmission hsequence
        have hanchored := hfollows place content hleaves huntouched
        obtain ⟨hplace, htask⟩ := hanchored.anchored mission hmission hsequence
        refine ⟨htask, ?_⟩
        rw [htext, hplace]
        exact hanchored.holds.slice_eq

/-! ### A repair in two passes -/

/-- A typed parameter and a field; a second diagnostic hides the type from the first pass. -/
def hiddenParse : Parse where
  text := "def f(A=>a)end\ndef g(@c)end"
  tree := .mk { kind := "program_node", location := Run.sampleLocation 0 1 0 27 } []
  diagnostics :=
    [⟨"argument_formal_ivar", Run.sampleLocation 15 2 6 2, []⟩,
     ⟨"unexpected_token", Run.sampleLocation 0 1 7 2, []⟩]

/-- The report of the text behind that pass. -/
def shownParse : Parse where
  text := "def f(A=>a)end\ndef g(c)end"
  tree := .mk { kind := "program_node", location := Run.sampleLocation 0 1 0 26 }
    [some (Run.sampleDefinition 0 1)]
  diagnostics := [⟨"unexpected_token_ignore", Run.sampleLocation 0 1 7 2, []⟩]

/-- The report of the text behind both. -/
def plainParse : Parse where
  text := "def f(a)end\ndef g(c)end"
  tree := .mk { kind := "program_node", location := Run.sampleLocation 0 1 0 23 } []

/-- A parser that knows these three texts. -/
def stepParser : Parser Unit := fun text =>
  pure (if text = hiddenParse.text then hiddenParse
    else if text = shownParse.text then shownParse else plainParse)

theorem answers_stepParser :
    stepParser.answers () [hiddenParse.text, shownParse.text, plainParse.text] =
      [hiddenParse, shownParse].map Except.ok ++ [.ok plainParse] := by
  have hhidden : stepParser hiddenParse.text = pure hiddenParse := by
    rw [stepParser, if_pos rfl]
  have hshown : stepParser shownParse.text = pure shownParse := by
    rw [stepParser, if_neg (by decide +kernel), if_pos rfl]
  have hplain : stepParser plainParse.text = pure plainParse := by
    rw [stepParser, if_neg (by decide +kernel), if_neg (by decide +kernel)]
  simp only [Parser.answers, hhidden, hshown, hplain, Step.start_pure]
  rfl

/-- The field is posted as number 5 and the type as number 6; in the end the one is anchored in
front of its name, which the second pass has moved, and the other in front of the parameter. -/
theorem untilClean_anchors_two :
    ∃ run : Run Unit,
      (untilClean stepParser {}).start (Run.onQueue hiddenParse.text { next := 5 } ()) =
        (.ok plainParse, run) ∧
      (∃ mission ∈ run.queue.missions, mission.sequence = 5 ∧
        plainParse.text.slice mission.offset (mission.offset + 1) = "c") ∧
      ∀ mission ∈ run.queue.missions, mission.sequence = 6 →
        plainParse.text.slice mission.offset (mission.offset + 1) = "a" := by
  generalize hrun : (untilClean stepParser {}).start
    (Run.onQueue hiddenParse.text { next := 5 } ()) = ending
  have hends : (ending.1.map (fun _ => ()), ending.2.parsed) =
      (.ok (), [hiddenParse.text, shownParse.text, plainParse.text]) := by
    rw [← hrun]
    decide +kernel
  obtain ⟨hdone, hasked⟩ := Prod.mk.inj hends
  obtain ⟨failure | clean, run⟩ := ending
  · cases hdone
  · dsimp only at hasked
    have hlocates : stepParser.Locates () run.parsed := by
      intro text answer hmem
      rw [hasked, answers_stepParser] at hmem
      rcases List.mem_cons.mp hmem with heq | hmem
      · cases heq
        exact ⟨rfl, by decide +kernel, by decide +kernel⟩
      · rcases List.mem_cons.mp hmem with heq | hmem
        · cases heq
          exact ⟨rfl, by decide +kernel, by decide +kernel⟩
        · cases List.mem_singleton.mp hmem
          exact ⟨rfl, by decide +kernel, by decide +kernel⟩
    obtain ⟨reports, hanswers, hanchors⟩ :=
      untilClean_anchors (Queue.ordered_of_missions_eq_nil rfl) hlocates hrun
    rw [hasked, answers_stepParser] at hanswers
    obtain ⟨hreports, hclean⟩ := List.append_inj' hanswers.symm rfl
    have hplain : clean = plainParse := Except.ok.inj (List.cons.inj hclean).1
    have hpasses : reports = [hiddenParse, shownParse] :=
      List.map_injective_iff.mpr (fun _ _ => Except.ok.inj) hreports
    subst hplain hpasses
    refine ⟨run, rfl, ?_, ?_⟩
    · obtain ⟨rewriting, hrewriting, hposted⟩ := hanchors [] hiddenParse [shownParse] rfl
      have htold : hiddenParse.rewriting? [] true = some ⟨[.field ⟨21, 23⟩], []⟩ := by rfl
      cases hrewriting.symm.trans htold
      obtain ⟨hwaits, hfollows⟩ := hposted (.field ⟨21, 23⟩) 5 (by
        rw [← findings_of_rewriting? htold]
        exact List.mem_singleton_self _)
      obtain ⟨mission, hmission, hsequence⟩ := hwaits rfl
      obtain ⟨-, hstands⟩ := hfollows _ _ (.field (List.forall_mem_nil _))
        ⟨by decide +kernel, trivial⟩ mission hmission hsequence
      have hname : (hiddenParse.text.slice 21 23).tail = "c" := by decide +kernel
      rw [hname] at hstands
      exact ⟨mission, hmission, hsequence, hstands⟩
    · obtain ⟨rewriting, hrewriting, hposted⟩ := hanchors [hiddenParse] shownParse [] rfl
      obtain ⟨site, htold⟩ : ∃ site, shownParse.rewriting? [] false =
          some ⟨[.typed site ⟨6, 9⟩], []⟩ := ⟨_, rfl⟩
      cases hrewriting.symm.trans htold
      have hnumber : numberBehind 5 [hiddenParse] = 6 := by decide +kernel
      obtain ⟨-, hfollows⟩ := hposted (.typed site ⟨6, 9⟩) 6 (by
        rw [← findings_of_rewriting? htold, hnumber]
        exact List.mem_singleton_self _)
      have hparameter : Text.pick? shownParse.text 9 = some (.char 'a') := by decide +kernel
      have hkept : ∀ write ∈ [Write.delete 6 3], ¬ write.Removes 9 := by decide
      intro mission hmission hsequence
      have hanchored := hfollows _ _ (.typed (List.forall_mem_nil _) hparameter hkept) trivial
        mission hmission hsequence
      exact hanchored.2

end SyntaxRepair
