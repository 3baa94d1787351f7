import SyntaxRepair.Proofs.Edit.Uprooting
import SyntaxRepair.Proofs.Repair.Following

/-!
# Anchors that wait

At the end of a pass the anchors of all waiting missions move along with its edits.  They stay
inside the text and in their order as long as no pass uproots an anchor that an earlier one has
left; such an anchor gets in front of the one at which the removed range began (`pass_anchors`).

## Strategy

`editPass` is a pass up to the move, so that the anchors can be compared with what they are moved
to, and `Workspace.Edited` tells what it leaves.  The missions that a pass posts itself wait where
its own writes begin, so no write uproots them, and only those that waited before are in question
(`Parse.Spares`).  One pass keeps the anchors inside the text (`Edited.relocate_inside`), and by
induction over the rounds all passes do (`Run.Passed.inside`).
-/

namespace SyntaxRepair

/-! ## What the edits leave -/

/-- The missions of some findings wait where these are written. -/
theorem Posting.offsets_missions (text : Text) (number : Nat) (findings : List Finding) :
    (missions number (findings.map (Finding.posting text))).map (fun mission => mission.offset) =
      findings.map fun finding => (finding.write text).offset := by
  induction findings generalizing number with
  | nil => rfl
  | cons finding rest ih =>
      rw [List.map_cons, missions_cons, List.map_cons, List.map_cons, ih]
      cases finding <;> rfl

/-- A workspace behind the edits of a pass and in front of the move of its missions: the writes of
a rewriting were made, and its missions were `waiting` before or were posted by the findings.  Only
the first pass drops some of them. -/
structure Workspace.Edited (options : Options) (number : Nat) (result : Parse)
    (rewriting : Rewriting) (waiting : Queue) (edited : Workspace) : Prop where
  rewriting_eq : result.rewriting? options.names (number = 1) = some rewriting
  performed : Buffer.performAll { text := result.text } (rewriting.writes result.text) =
    .ok edited.buffer
  inside : ∀ write ∈ rewriting.writes result.text, write.Inside result.text.length
  shrinks : ∀ finding ∈ result.findings, (finding.write result.text).Shrinks
  origins : ∀ mission ∈ edited.queue.missions, mission ∈ waiting.missions ++
    Posting.missions waiting.next (result.findings.map (Finding.posting result.text))
  kept : number ≠ 1 → ∀ mission ∈ waiting.missions ++
    Posting.missions waiting.next (result.findings.map (Finding.posting result.text)),
      mission ∈ edited.queue.missions

section

variable {options : Options} {number resolved : Nat} {result : Parse} {rewriting : Rewriting}
  {waiting : Queue} {before edited : Workspace}

open Workspace (Edited)

/-- The edits of a pass that succeed leave such a workspace. -/
theorem exists_edited
    (hlocations : ∀ location ∈ result.locations, location.Within result.text.length)
    (hfresh : before.buffer = { text := result.text })
    (h : (editPass options number result).start before = (.ok resolved, edited)) :
    ∃ rewriting, Edited options number result rewriting before.queue edited := by
  obtain ⟨rewriting, hrewriting, hperform, hinside, hshrinks, -⟩ :=
    editPass_eq_ok hlocations hfresh h
  obtain ⟨hpostings, -, horigins, hperm⟩ := editPass_missions hlocations hfresh h
  rw [hpostings] at horigins hperm
  exact ⟨rewriting, hrewriting, hperform, hinside, hshrinks, horigins,
    fun hlater mission => (hperm hlater).mem_iff.mpr⟩

/-- No write of a pass uproots one of some missions. -/
def Parse.Spares (result : Parse) (table : NameTable) (first : Bool) (missions : List Mission) :
    Prop :=
  ∀ rewriting ∈ result.rewriting? table first, ∀ write ∈ rewriting.writes result.text,
    ∀ mission ∈ missions, ¬ write.Uproots mission.offset

instance (result : Parse) (table : NameTable) (first : Bool) (missions : List Mission) :
    Decidable (result.Spares table first missions) :=
  inferInstanceAs (Decidable (∀ _ ∈ _, ∀ _ ∈ _, ∀ _ ∈ _, _))

/-- All missions of a queue are anchored in a text of `size` characters. -/
def Queue.Inside (size : Nat) (queue : Queue) : Prop :=
  ∀ mission ∈ queue.missions, 0 ≤ mission.offset ∧ mission.offset ≤ size

instance (size : Nat) (queue : Queue) : Decidable (queue.Inside size) :=
  inferInstanceAs (Decidable (∀ _ ∈ _, _))

theorem Queue.inside_of_missions_eq_nil {queue : Queue} {size : Nat} (h : queue.missions = []) :
    queue.Inside size := by
  rw [Inside, h]
  exact List.forall_mem_nil _

namespace Workspace.Edited

/-- A mission that was posted by the pass waits where one of its writes begins. -/
theorem exists_write_of_posted (hedited : Edited options number result rewriting waiting edited)
    {mission : Mission} (hmem : mission ∈ Posting.missions waiting.next
      (result.findings.map (Finding.posting result.text))) :
    ∃ write ∈ rewriting.writes result.text, mission.offset = write.offset := by
  have hoffset := List.mem_map_of_mem (f := fun mission : Mission => mission.offset) hmem
  rw [Posting.offsets_missions] at hoffset
  obtain ⟨finding, hfinding, hsame⟩ := List.mem_map.mp hoffset
  refine ⟨finding.write result.text, ?_, hsame.symm⟩
  rw [Rewriting.mem_writes, findings_of_rewriting? hedited.rewriting_eq]
  exact Or.inl (List.mem_map_of_mem hfinding)

/-- If those are spared that waited before, then no mission is uprooted. -/
theorem rooted (hedited : Edited options number result rewriting waiting edited)
    (hspares : result.Spares options.names (number = 1) waiting.missions) :
    ∀ mission ∈ edited.queue.missions, ∀ write ∈ rewriting.writes result.text,
      ¬ write.Uproots mission.offset := by
  have records := Buffer.records_of_performAll hedited.performed
  intro mission hmem write hwrite
  rcases List.mem_append.mp (hedited.origins mission hmem) with hold | hposted
  · exact hspares rewriting hedited.rewriting_eq write hwrite mission hold
  · obtain ⟨other, hother, hsame⟩ := hedited.exists_write_of_posted hposted
    rw [hsame]
    exact records.not_uproots_offset hother hwrite

theorem inside_queue (hedited : Edited options number result rewriting waiting edited)
    (hinside : waiting.Inside result.text.length) :
    edited.queue.Inside result.text.length := by
  have records := Buffer.records_of_performAll hedited.performed
  intro mission hmem
  rcases List.mem_append.mp (hedited.origins mission hmem) with hold | hposted
  · exact hinside mission hold
  · obtain ⟨write, hwrite, hsame⟩ := hedited.exists_write_of_posted hposted
    obtain ⟨hoffset, hlength⟩ := records.nonneg write hwrite
    have hstop := hedited.inside write hwrite
    rw [Write.Inside] at hstop
    omega

/-- **One pass** moves the missions inside of the text if it spares those that waited before. -/
theorem relocate_inside (hedited : Edited options number result rewriting waiting edited)
    (hinside : waiting.Inside result.text.length)
    (hspares : result.Spares options.names (number = 1) waiting.missions) :
    (edited.queue.relocate edited.buffer.carry).Inside edited.buffer.text.length := by
  intro mission hmem
  rw [Queue.relocate, (Anchor.sort_perm ..).mem_iff, List.mem_map] at hmem
  obtain ⟨origin, horigin, rfl⟩ := hmem
  obtain ⟨hnonneg, hle⟩ := hedited.inside_queue hinside origin horigin
  exact Buffer.carry_inside hedited.inside hedited.performed hnonneg hle
    (hedited.rooted hspares origin horigin)

/-- It keeps their order. -/
theorem carry_mono (hedited : Edited options number result rewriting waiting edited)
    (hspares : result.Spares options.names (number = 1) waiting.missions)
    {first second : Mission} (hsecond : second ∈ edited.queue.missions)
    (hle : first.offset ≤ second.offset) :
    edited.buffer.carry first.offset ≤ edited.buffer.carry second.offset := by
  have records := Buffer.records_of_performAll hedited.performed
  exact records.carry_mono hle (hedited.rooted hspares second hsecond)

/-- **Uprooted missions.**  If a later pass does not spare the missions that waited before, then one
of them gets in front of one that the pass has posted. -/
theorem exists_swapped (hedited : Edited options number result rewriting waiting edited)
    (hnumber : number ≠ 1)
    (hspares : ¬ result.Spares options.names (number = 1) waiting.missions) :
    ∃ first ∈ edited.queue.missions, ∃ second ∈ edited.queue.missions,
      first.offset < second.offset ∧
        edited.buffer.carry second.offset < edited.buffer.carry first.offset := by
  have records := Buffer.records_of_performAll hedited.performed
  have hwrites : rewriting.writes result.text = result.findings.map (Finding.write result.text) :=
    writes_of_rewriting? (decide_eq_false hnumber ▸ hedited.rewriting_eq)
  have hgrowth : ∀ write ∈ rewriting.writes result.text, write.growth ≤ 0 := by
    intro write hmem
    rw [hwrites] at hmem
    obtain ⟨finding, hfinding, rfl⟩ := List.mem_map.mp hmem
    exact (hedited.shrinks finding hfinding).growth_le
  unfold Parse.Spares at hspares
  push Not at hspares
  obtain ⟨told, htold, write, hwrite, second, hsecond, huproots⟩ := hspares
  cases hedited.rewriting_eq.symm.trans htold
  -- the mission of the write waits where the removed range began
  obtain ⟨finding, hfinding, hsame⟩ := List.mem_map.mp (hwrites ▸ hwrite)
  have hoffset : write.offset ∈ (Posting.missions waiting.next
      (result.findings.map (Finding.posting result.text))).map fun mission => mission.offset := by
    rw [Posting.offsets_missions, ← hsame]
    exact List.mem_map_of_mem hfinding
  obtain ⟨first, hfirst, hplace⟩ := List.mem_map.mp hoffset
  refine ⟨first, hedited.kept hnumber first (List.mem_append_right _ hfirst), second,
    hedited.kept hnumber second (List.mem_append_left _ hsecond), ?_, ?_⟩
  · rw [hplace]
    exact huproots.1
  · rw [hplace]
    exact records.carry_lt_of_uproots hgrowth hwrite huproots

end Workspace.Edited

end

/-! ## The passes of a repair -/

/-- A parser that reports about the text it was given, with locations that stand in it. -/
def Parser.Bounded {σ : Type} (parser : Parser σ) : Prop :=
  ∀ text state result, ((parser text).start state).1 = .ok result →
    result.text = text ∧ ∀ location ∈ result.locations, location.Within text.length

namespace Run

variable {σ : Type} {parser : Parser σ} {options : Options} {results : List Parse} {result : Parse}
  {begun before opened after : Run σ}

theorem Passed.eq_begun (hpassed : Passed parser options begun [] before) : before = begun := by
  generalize hresults : ([] : List Parse) = results at hpassed
  cases hpassed with
  | start => rfl
  | next => exact absurd hresults (by simp)

/-- None of the passes over some reports uproots a mission that waited in front of it. -/
def Spared (parser : Parser σ) (options : Options) (begun : Run σ) (results : List Parse) : Prop :=
  ∀ earlier result later before, results = earlier ++ result :: later →
    Passed parser options begun earlier before →
      result.Spares options.names earlier.isEmpty before.queue.missions

theorem Spared.init (hspared : Spared parser options begun (results ++ [result])) :
    Spared parser options begun results := by
  intro earlier other later before hsplit hpassed
  refine hspared earlier other (later ++ [result]) before ?_ hpassed
  rw [hsplit, List.append_assoc, List.cons_append]

/-- There is nothing to spare in the first pass if no mission has waited before. -/
theorem spared_first (hempty : begun.queue.missions = []) :
    Spared parser options begun [result] := by
  intro earlier other later before hsplit hpassed
  obtain rfl : earlier = [] := by
    rcases earlier with _ | ⟨first, rest⟩
    · rfl
    · exact absurd (List.cons.inj hsplit).2 (by simp)
  rw [hpassed.eq_begun, hempty]
  exact fun _ _ _ _ => List.forall_mem_nil _

/-- A pass that succeeds has made the edits of a rewriting and moved the missions that waited. -/
theorem exists_moved {number : Nat} {done : Unit} (hbounded : parser.Bounded)
    (hparse : (openPass parser number).start before = (.ok result, opened))
    (hpass : (pass options number result).start opened = (.ok done, after)) :
    ∃ resolved edited rewriting,
      (editPass options number result).start opened.toWorkspace = (.ok resolved, edited) ∧
      Workspace.Edited options number result rewriting before.queue edited ∧
      after.buffer = edited.buffer ∧
      after.queue = edited.queue.relocate edited.buffer.carry ∧
      result.text = before.buffer.text := by
  obtain ⟨resolved, edited, hedit, hbuffer, hqueue, -⟩ := exists_editPass (pass_eq_ok hpass)
  obtain ⟨htext, hlocations⟩ := hbounded before.buffer.text before.parser result (by
    rw [← fst_openPass parser number before, hparse])
  have hfresh : opened.toWorkspace.buffer = { text := result.text } := by
    rw [htext]
    exact openPass_eq_ok hparse
  obtain ⟨rewriting, hedited⟩ := exists_edited (htext ▸ hlocations) hfresh hedit
  obtain ⟨state, -, rfl⟩ := openPass_eq_ok_iff.mp hparse
  exact ⟨resolved, edited, rewriting, hedit, hedited, hbuffer, hqueue, htext⟩

/-- **All passes** keep the missions inside of the text, if they uproot none of them. -/
theorem Passed.inside (hpassed : Passed parser options begun results before)
    (hbounded : parser.Bounded) (hbegun : begun.queue.Inside begun.buffer.text.length)
    (hspared : Spared parser options begun results) :
    before.queue.Inside before.buffer.text.length := by
  induction hpassed with
  | start => exact hbegun
  | @next results result before opened after earlier hparse hbroken hprogress hpass ih =>
      obtain ⟨resolved, edited, rewriting, -, hedited, hbuffer, hqueue, htext⟩ :=
        exists_moved hbounded hparse hpass
      have hspares := hspared results result [] before rfl earlier
      rw [← decide_first] at hspares
      rw [hbuffer, hqueue]
      exact hedited.relocate_inside (htext ▸ ih hspared.init) hspares

/-- **Waiting anchors.**  Let the reports of a parser have their locations inside of the text, and
let no pass so far have uprooted an anchor that waited in front of it.  If the next pass uproots
none either, then behind it all missions are anchored inside of the new text, and no anchor has got
in front of one that was not behind it.  From the second pass on nothing else keeps this order: if
one is uprooted, it gets in front of an anchor that it was behind. -/
theorem pass_anchors {text : Text} {queue : Queue} {state : σ} (hbounded : parser.Bounded)
    (hordered : queue.Ordered) (hinside : queue.Inside text.length)
    (hpassed : Passed parser options (onQueue text queue state) results before)
    (hspared : Spared parser options (onQueue text queue state) results)
    (hparse : (openPass parser (results.length + 1)).start before = (.ok result, opened))
    (hpass : (pass options (results.length + 1) result).start opened = (.ok ⟨⟩, after)) :
    ∃ resolved edited,
      (editPass options (results.length + 1) result).start opened.toWorkspace =
        (.ok resolved, edited) ∧
      after.buffer = edited.buffer ∧
      after.queue = edited.queue.relocate after.buffer.carry ∧ after.queue.Ordered ∧
      (result.Spares options.names results.isEmpty before.queue.missions →
        after.queue.Inside after.buffer.text.length ∧
        ∀ first ∈ edited.queue.missions, ∀ second ∈ edited.queue.missions,
          first.offset ≤ second.offset →
            after.buffer.carry first.offset ≤ after.buffer.carry second.offset) ∧
      (results ≠ [] → ¬ result.Spares options.names results.isEmpty before.queue.missions →
        ∃ first ∈ edited.queue.missions, ∃ second ∈ edited.queue.missions,
          first.offset < second.offset ∧
            after.buffer.carry second.offset < after.buffer.carry first.offset) := by
  obtain ⟨resolved, edited, rewriting, hedit, hedited, hbuffer, hqueue, htext⟩ :=
    exists_moved hbounded hparse hpass
  have hwaiting : before.queue.Inside result.text.length := by
    rw [htext]
    exact hpassed.inside hbounded hinside hspared
  have haccounts := (openPass_accounts hparse).trans
    (makePass_accounts (openPass_eq_ok hparse) (pass_eq_ok hpass))
  refine ⟨resolved, edited, hedit, hbuffer, ?_, ?_, fun hspares => ?_, fun hlater hspares => ?_⟩
  · rw [hbuffer]
    exact hqueue
  · exact haccounts.ordered ((hpassed.accounts rfl).2.ordered hordered)
  · rw [← decide_first] at hspares
    rw [hbuffer, hqueue]
    exact ⟨hedited.relocate_inside hwaiting hspares,
      fun first _ second hsecond hle => hedited.carry_mono hspares hsecond hle⟩
  · rw [← decide_first] at hspares
    rw [hbuffer]
    refine hedited.exists_swapped ?_ hspares
    rw [Ne, Nat.add_eq_right, List.length_eq_zero_iff]
    exact hlater

end Run

/-! ### Two passes over one text -/

/-- A parser that knows the reports of some texts and finds nothing in others. -/
def Parser.knowing (reports : List Parse) : Parser Unit := fun text =>
  pure ((reports.find? fun report => report.text = text).getD
    { text, tree := .mk { kind := "program_node", location := ⟨0, 0, 1, 0⟩ } [] })

theorem Parser.bounded_knowing {reports : List Parse} (hreports : ∀ report ∈ reports,
    ∀ location ∈ report.locations, location.Within report.text.length) :
    (knowing reports).Bounded := by
  intro text state result hresult
  rw [knowing, Step.start_pure] at hresult
  cases hfind : reports.find? fun report => report.text = text with
  | none =>
      rw [hfind] at hresult
      cases hresult
      refine ⟨rfl, fun location hmem => ?_⟩
      cases List.mem_singleton.mp hmem
      exact ⟨Int.le_refl 0, Int.natCast_nonneg _⟩
  | some report =>
      rw [hfind] at hresult
      cases hresult
      have htext : report.text = text := by simpa using List.find?_some hfind
      exact ⟨htext, htext ▸ hreports report (List.mem_of_find?_eq_some hfind)⟩

namespace Run

/-- The second pass cuts a type in front of the field that the first one has found.  The mission of
the field moves along with it, to the place behind the mission of the type. -/
theorem pass_anchors_hidden :
    ∃ before opened after : Run Unit,
      Passed (.knowing [hiddenParse, shownParse]) {} (onQueue hiddenParse.text {} ())
        [hiddenParse] before ∧
      (openPass (.knowing [hiddenParse, shownParse]) 2).start before = (.ok shownParse, opened) ∧
      (pass {} 2 shownParse).start opened = (.ok ⟨⟩, after) ∧
      before.queue.missions.map Mission.toAnchor = [⟨21, 0⟩] ∧
      after.queue.missions.map Mission.toAnchor = [⟨6, 1⟩, ⟨18, 0⟩] ∧
      after.queue.Inside after.buffer.text.length := by
  generalize hparser : Parser.knowing [hiddenParse, shownParse] = parser
  have hbounded : parser.Bounded := by
    rw [← hparser]
    exact Parser.bounded_knowing (by decide +kernel)
  have hparse := @Step.eq_ok_of_fst _ Parse
    ((openPass parser 1).start (onQueue hiddenParse.text {} ())) hiddenParse (by
      rw [← hparser]
      rfl)
  generalize hbegun : ((openPass parser 1).start (onQueue hiddenParse.text {} ())).2 = begun
    at hparse
  have hpass := @Step.eq_ok_of_fst _ Unit ((pass {} 1 hiddenParse).start begun) () (by
    rw [← hbegun, ← hparser]
    decide +kernel)
  generalize hbefore : ((pass {} 1 hiddenParse).start begun).2 = before at hpass
  have htext : before.buffer.text = shownParse.text := by
    rw [← hbefore, ← hbegun, ← hparser]
    decide +kernel
  have hparse' := @Step.eq_ok_of_fst _ Parse ((openPass parser 2).start before) shownParse (by
    rw [fst_openPass, htext, ← hparser]
    rfl)
  generalize hopened : ((openPass parser 2).start before).2 = opened at hparse'
  have hpass' := @Step.eq_ok_of_fst _ Unit ((pass {} 2 shownParse).start opened) () (by
    rw [← hopened, ← hbefore, ← hbegun, ← hparser]
    decide +kernel)
  generalize hafter : ((pass {} 2 shownParse).start opened).2 = after at hpass'
  have hpassed : Passed parser {} (onQueue hiddenParse.text {} ()) [hiddenParse] before :=
    Passed.start.next hparse (List.cons_ne_nil _ _) (by simp) hpass
  have hspares : shownParse.Spares [] false before.queue.missions := by
    rw [← hbefore, ← hbegun, ← hparser]
    decide +kernel
  obtain ⟨_, _, -, -, -, -, hanchors, -⟩ := pass_anchors hbounded
    (Queue.ordered_of_missions_eq_nil rfl) (Queue.inside_of_missions_eq_nil rfl) hpassed
    (spared_first rfl) hparse' hpass'
  refine ⟨before, opened, after, hpassed, hparse', hpass', ?_, ?_, (hanchors hspares).1⟩
  · rw [← hbefore, ← hbegun, ← hparser]
    decide +kernel
  · rw [← hafter, ← hopened, ← hbefore, ← hbegun, ← hparser]
    decide +kernel

/-- A field inside of a type; the bar behind it hides the type from the first pass. -/
def unionParse : Parse where
  text := "def f(A|@b|String=>a)end"
  tree := .mk { kind := "program_node", location := sampleLocation 0 1 0 24 } []
  diagnostics :=
    [⟨"argument_formal_ivar", sampleLocation 0 1 8 2, []⟩,
     ⟨"unexpected_token", sampleLocation 0 1 10 1, []⟩]

/-- The report of the text behind that pass. -/
def bareUnionParse : Parse where
  text := "def f(A|b|String=>a)end"
  tree := .mk { kind := "program_node", location := sampleLocation 0 1 0 23 }
    [some (.mk { kind := definitionKind, location := sampleLocation 0 1 0 23, name := some "f",
                 nameLocation := some (sampleLocation 0 1 4 1) }
      [some (.mk { kind := parametersKind, location := sampleLocation 0 1 6 10 }
        [some (.mk { kind := "parameter_node", location := sampleLocation 0 1 6 10 } [])]),
       some (.mk { kind := "statements_node", location := sampleLocation 0 1 18 1 }
        [some (.mk { kind := "call_node", location := sampleLocation 0 1 18 1 } [])])])]
  diagnostics := [⟨"unexpected_token_ignore", sampleLocation 0 1 16 2, []⟩]

/-- The mission of a field inside of a type is uprooted when the type is cut: it ends in front of
the text, and in front of the mission of the type that it was behind. -/
theorem pass_anchors_union :
    let parser := Parser.knowing [unionParse, bareUnionParse]
    let ending := (untilClean parser {}).start (onQueue unionParse.text {} ())
    parser.Bounded ∧
      ending.2.parsed = [unionParse.text, bareUnionParse.text, "def f(a)end"] ∧
      ending.1.map (fun clean => clean.diagnostics) = .ok [] ∧
      ending.2.queue.missions =
        [⟨⟨-4, 0⟩, .assignment, "@b = b"⟩, ⟨⟨6, 1⟩, .typeComment, "A|b|String"⟩] := by
  refine ⟨Parser.bounded_knowing ?_, ?_, ?_, ?_⟩ <;> decide +kernel

end Run

end SyntaxRepair
