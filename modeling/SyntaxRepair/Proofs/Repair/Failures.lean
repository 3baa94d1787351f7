import SyntaxRepair.Proofs.Mission.Queue
import SyntaxRepair.Proofs.Overload.Siblings
import SyntaxRepair.Proofs.Repair.Countable
import SyntaxRepair.Proofs.Repair.Rounds

/-!
# The failures of a repair

Over reports that were read from documents with whole numbers a repair fails with a violation or
because it makes no progress, or else one of the reports tells why: it has a definition in a line
that its text does not have, or it can not be counted to (`repair_fails`).  That it could also fail
at a definition without a node, or at a mission that does not wait, is only seen when its stages are
put together: the groups of a sweep hold definitions of the tree, and the missions that they hold
wait in the queue, each as often (`Queue.Holds`).
-/

namespace SyntaxRepair

-- Contracts are gone through by their rules; a step that is unfolded would be evaluated.
attribute [local irreducible] Step.Ensures

/-! ## What a sweep leaves to its merges -/

/-- The missions of the entries are those of the definitions. -/
theorem Groups.map_mission_entries (groups : Groups) :
    groups.entries.map GroupEntry.mission =
      groups.flatMap fun group => group.overloads.flatMap Overload.missions := by
  rw [entries, List.map_flatMap]
  refine List.flatMap_congr fun group _ => ?_
  rw [OverloadGroup.entries, List.map_flatMap]
  refine List.flatMap_congr fun overload _ => ?_
  rw [Overload.entries, List.map_map]
  exact List.map_id _

/-- A sweep whose queue holds the missions of its groups. -/
def Sweep.Waits (sweep : Sweep) : Prop :=
  ∀ groups ∈ sweep.groups, sweep.queue.Holds (groups.entries.map GroupEntry.mission)

section

variable {result : Parse}

/-- The mission of a type that is collected waits. -/
theorem resolveDiagnostic_waits (diagnostic : Diagnostic) {before : Sweep}
    (hwaits : before.Waits) :
    (resolveDiagnostic result.tree.index result diagnostic).Ensures before
      (fun _ after => after.Waits) fun _ _ => True := by
  refine Step.ensures_of_cases (fun resolved after hok => ?_) fun _ _ _ => trivial
  rcases resolveDiagnostic_eq_ok hok with ⟨-, -, rfl⟩ | ⟨finding, buffer, -, -, -, -, rfl⟩
  · exact hwaits
  · intro groups hgroups
    obtain ⟨earlier, hearlier, rfl⟩ := Option.map_eq_some_iff.mp hgroups
    have hadded := (hwaits earlier hearlier).add finding.range.start finding.purpose
      (finding.payload (finding.found result.text before.buffer))
    cases finding with
    | field range => exact hadded.sublist (List.sublist_cons_self ..)
    | typed site range =>
        refine hadded.perm (((Groups.entries_add ..).map _).trans ?_)
        rw [List.map_append]
        exact List.perm_append_comm

theorem resolveDiagnostics_waits (diagnostics : List Diagnostic) {before : Sweep}
    (hwaits : before.Waits) :
    (resolveDiagnostics result.tree.index result diagnostics).Ensures before
      (fun _ after => after.Waits) fun _ _ => True :=
  resolveDiagnostics_ensures
    (fun diagnostic _ _ hbetween => resolveDiagnostic_waits diagnostic hbetween) hwaits

/-- Groups that can be merged: their definitions stand in the tree, and their missions wait. -/
structure Groups.Ready (groups : Groups) (tree : Node) (queue : Queue) : Prop where
  definitions : ∀ group ∈ groups, ∀ overload ∈ group.overloads,
    ∃ node ∈ tree.index.nodes.toList, node.kind = definitionKind ∧ node.id = overload.definition
  holds : queue.Holds (groups.flatMap fun group => group.overloads.flatMap Overload.missions)

/-- **What a sweep leaves.**  The groups that it has collected can be merged. -/
theorem sweep_ready (hspanning : result.Spanning) (collecting : Bool) (before : Workspace) :
    (sweep collecting result).Ensures before
      (fun ending after => ∀ groups ∈ ending.2, groups.Ready result.tree after.queue)
      fun failure _ => ∃ cause, failure = .violation cause := by
  let begun : Sweep := { before with groups := if collecting then some [] else none }
  have hnone : ∀ groups ∈ begun.groups, groups = [] := by
    intro groups hgroups
    cases collecting <;> cases hgroups
    rfl
  have hkeeps : begun.Keeps result.tree := by
    intro groups hgroups
    rw [hnone groups hgroups]
    exact ⟨Groups.sound_nil, List.forall_mem_nil _⟩
  have hwaits : begun.Waits := by
    intro groups hgroups
    rw [hnone groups hgroups]
    exact Queue.holds_nil
  have hall := ((resolveDiagnostics_covers result.diagnostics hkeeps).and
    (resolveDiagnostics_waits result.diagnostics hwaits)).and
      (resolveDiagnostics_fails hspanning begun)
  refine ensures_sweep.mpr (hall.imp ?_ fun _ _ hbroken => hbroken.2)
  rintro resolved swept ⟨⟨hcovers, hwaits⟩, -⟩ groups hgroups
  obtain ⟨hsound, hcovered⟩ := hcovers groups hgroups
  refine ⟨fun group hgroup overload hoverload => ?_, ?_⟩
  · obtain ⟨parent, definition, hcovers, hid⟩ := hcovered.of_overload hsound hgroup hoverload
    exact ⟨definition, result.tree.child_mem_nodes hcovers.parent_mem hcovers.child_mem,
      hcovers.kind_eq, hid⟩
  · rw [← Groups.map_mission_entries]
    exact hwaits groups hgroups

end

/-! ## Merging -/

section

open Step Workspace

variable {result : Parse} {table : NameTable} {name : Text} {before : Workspace}
  {rest : List Mission}

/-- Missions that wait are removed. -/
theorem removeMissions_ensures {missions : List Mission}
    (hholds : before.queue.Holds (missions ++ rest)) :
    (removeMissions missions).Ensures before (fun _ after => after.queue.Holds rest)
      fun _ _ => False := by
  induction missions generalizing before with
  | nil => exact ensures_pure.mpr hholds
  | cons mission missions ih =>
      obtain ⟨queue, hremove, hqueue⟩ := Queue.Holds.remove? hholds
      rw [removeMissions, ensures_bind, removeMission, ensures_bind, ensures_get, hremove,
        ensures_modify]
      exact ih hqueue

/-- A definition of the tree is renamed, unless it does not tell where its name stands or the
buffer refuses the new name. -/
theorem renameOverload_ensures (hnatural : result.Natural) {ordinal : Nat} {overload : Overload}
    {definition : Outline} (hmem : definition ∈ result.tree.index.nodes.toList)
    (hid : definition.id = overload.definition)
    (hholds : before.queue.Holds (overload.missions ++ rest)) :
    (renameOverload result.tree.index table name ordinal overload).Ensures before
      (fun _ after => after.queue.Holds rest) fun failure _ => result.Fails failure := by
  rw [renameOverload, ← hid]
  refine (result.node_settles hmem).ensures_bind fun found hfound => ?_
  subst hfound
  rw [ensures_bind]
  refine ensures_orFail (fun location hlocation => ?_) fun _ => .violation _
  obtain ⟨start, stop, line, column, rfl⟩ := hnatural location
    (Parse.location_mem_of_node hmem (by simp [Label.locations, hlocation]))
  rw [ensures_bind, Location.length_int, ensures_ofMisfit_ok, ensures_bind]
  refine replaceAt_ensures (fun buffer _ => ?_) fun cause _ => .violation cause
  have hremoved := @removeMissions_ensures { before with buffer } rest overload.missions hholds
  exact hremoved.imp (fun _ _ hafter => hafter) fun _ _ hbroken => hbroken.elim

theorem renameEach_ensures (hnatural : result.Natural) {ordinal : Nat} {overloads : List Overload}
    (hdefinitions : ∀ overload ∈ overloads, ∃ node ∈ result.tree.index.nodes.toList,
      node.kind = definitionKind ∧ node.id = overload.definition)
    (hholds : before.queue.Holds (overloads.flatMap Overload.missions ++ rest)) :
    (renameEach result.tree.index table name ordinal overloads).Ensures before
      (fun _ after => after.queue.Holds rest) fun failure _ => result.Fails failure := by
  induction overloads generalizing before ordinal with
  | nil => exact ensures_pure.mpr hholds
  | cons overload overloads ih =>
      rw [List.forall_mem_cons] at hdefinitions
      obtain ⟨definition, hmem, -, hid⟩ := hdefinitions.1
      rw [List.flatMap_cons, List.append_assoc] at hholds
      rw [renameEach]
      exact (renameOverload_ensures hnatural hmem hid hholds).bind
        fun _ _ hafter => ih hdefinitions.2 hafter

/-- A dispatcher is added above a definition of the tree, unless its line is none of the text or
the buffer refuses the dispatcher. -/
theorem addDispatcher_ensures (hnatural : result.Natural) {first : Nat} {overloads : List Overload}
    {definition : Outline} (hmem : definition ∈ result.tree.index.nodes.toList)
    (hkind : definition.kind = definitionKind) (hid : definition.id = first) :
    (addDispatcher result.tree.index result table name first overloads).Ensures before
      (fun _ after => after.queue = before.queue) fun failure _ => result.Fails failure := by
  rw [addDispatcher, ← hid]
  refine (result.node_settles hmem).ensures_bind fun found hfound => ?_
  subst hfound
  dsimp only
  refine (result.abovePlace_settles hnatural hmem hkind fun _ => exists_indentBy).ensures_bind
    fun insertion hinsertion => ?_
  obtain ⟨offset, hoffset⟩ := hinsertion
  rw [ensures_bind, hoffset]
  refine replaceAt_ensures (fun buffer _ => ?_) fun cause _ => .violation cause
  exact ensures_modify.mpr rfl

/-- A group is merged, and the missions of the other groups go on waiting. -/
theorem mergeGroup_ensures (hnatural : result.Natural) {group : OverloadGroup}
    (hdefinitions : ∀ overload ∈ group.overloads, ∃ node ∈ result.tree.index.nodes.toList,
      node.kind = definitionKind ∧ node.id = overload.definition)
    (hholds : before.queue.Holds (group.overloads.flatMap Overload.missions ++ rest)) :
    (mergeGroup result.tree.index result table group).Ensures before
      (fun _ after => after.queue.Holds rest) fun failure _ => result.Fails failure := by
  unfold mergeGroup
  split
  · rename_i first second others hoverloads
    obtain ⟨definition, hmem, hkind, hid⟩ := hdefinitions first (by rw [hoverloads]; simp)
    refine (renameEach_ensures hnatural hdefinitions hholds).bind fun _ between hbetween => ?_
    refine (addDispatcher_ensures hnatural hmem hkind hid).bind fun _ after hqueue => ?_
    rw [ensures_pure, hqueue]
    exact hbetween
  · exact ensures_pure.mpr (hholds.sublist (List.sublist_append_right ..))

/-- **Merging.**  Groups that are ready are merged, or their report tells why not. -/
theorem mergeOverloads_ensures (hnatural : result.Natural) {groups : Groups}
    (hready : groups.Ready result.tree before.queue) :
    (mergeOverloads result.tree.index result table groups).Ensures before (fun _ _ => True)
      fun failure _ => result.Fails failure := by
  induction groups generalizing before with
  | nil => exact ensures_pure.mpr trivial
  | cons group groups ih =>
      obtain ⟨hdefinitions, hholds⟩ := hready
      rw [List.forall_mem_cons] at hdefinitions
      rw [mergeOverloads]
      refine (mergeGroup_ensures hnatural hdefinitions.1 hholds).bind fun _ between hbetween => ?_
      exact (ih ⟨hdefinitions.2, hbetween⟩).bind fun _ _ _ => ensures_pure.mpr trivial

/-! ## Passes -/

/-- **A pass.**  It succeeds, or its report tells why not. -/
theorem makePass_ensures (hnatural : result.Natural) (options : Options) (number : Nat)
    (before : Workspace) :
    (makePass options number result).Ensures before (fun _ _ => True)
      fun failure _ => result.Fails failure := by
  -- whether or not groups were merged, a pass closes in the same way, and that cannot fail
  have hcloses : ∀ (event : Event) (between : Workspace),
      (relocate >>= fun _ => note event).Ensures between (fun _ _ => True)
        fun failure _ => result.Fails failure := fun _ _ =>
    ensures_bind.mpr (ensures_modify.mpr (ensures_modify.mpr trivial))
  rw [makePass, ensures_bind]
  refine (sweep_ready hnatural.spanning _ before).imp (fun ending swept hready => ?_) ?_
  · obtain ⟨resolved, groups⟩ := ending
    cases groups with
    | none => exact hcloses _ swept
    | some groups =>
        exact (mergeOverloads_ensures hnatural (hready groups rfl)).bind
          fun _ merged _ => hcloses _ merged
  · rintro _ _ ⟨cause, rfl⟩
    exact .violation cause

/-! ## Carrying out missions -/

/-- What a mission adds goes to a whole number, or the report tells why not. -/
theorem Mission.insertion_settles (hnatural : result.Natural) (mission : Mission) :
    result.Settles (mission.insertion result.tree.index result) fun insertion =>
      ∃ offset : Int, insertion.offset = .int offset := by
  unfold insertion
  split
  · exact Parse.settles_error (.violation _)
  · rename_i definition hdefinition
    have hmem := result.tree.mem_nodes_of_innermost hdefinition
    have hkind := Index.kind_of_innermost hdefinition
    split
    · refine Parse.assignmentPlace_settles (fun location hlocation => ?_) _
      have hlocations := Parse.location_mem_of_node hmem hlocation
      exact ⟨hlocations, hnatural location hlocations⟩
    · split
      · exact Parse.settles_error (.violation _)
      · split
        · exact Parse.settles_error (.violation _)
        · exact result.abovePlace_settles hnatural hmem hkind fun _ => exists_indentedLine

theorem executeEach_ensures (hnatural : result.Natural) (missions : List Mission)
    (before : Workspace) :
    (executeEach result.tree.index result missions).Ensures before (fun _ _ => True)
      fun failure _ => result.Fails failure := by
  induction missions generalizing before with
  | nil => exact ensures_pure.mpr trivial
  | cons mission rest ih =>
      rw [executeEach, ensures_bind, note, ensures_modify, ensures_bind, Mission.execute]
      refine (mission.insertion_settles hnatural).ensures_bind fun insertion hinsertion => ?_
      obtain ⟨offset, hoffset⟩ := hinsertion
      rw [hoffset]
      exact replaceAt_ensures (fun buffer _ => ih _) fun cause _ => .violation cause

/-- **Carrying out the missions.**  All of them are carried out, or the report tells why not. -/
theorem executeAll_ensures (hnatural : result.Natural) (before : Workspace) :
    (executeAll result).Ensures before (fun _ _ => True)
      fun failure _ => result.Fails failure := by
  rw [executeAll, ensures_bind, reset, ensures_modify, ensures_bind, ensures_get, ensures_bind,
    ensures_modify]
  exact executeEach_ensures hnatural _ _

end

/-! ## Repairs -/

/-- A parser that always answers with the report of a document, whose locations are told in whole
numbers. -/
def Parser.Documents {σ : Type} (parser : Parser σ) : Prop :=
  ∀ (text : Text) (state : σ), ∃ (value : Json.Value) (result : Parse) (after : σ),
    (parser text).start state = (.ok result, after) ∧
      Parse.ofDocument text value = .ok result ∧ ∀ location ∈ result.locations, location.Whole

section

open Step

variable {σ : Type} {parser : Parser σ} {options : Options} {result : Parse}

/-- What a parser of documents reports has natural locations. -/
theorem Parser.Documents.natural (hdocuments : parser.Documents) {text : Text} {state after : σ}
    (h : (parser text).start state = (.ok result, after)) : result.Natural := by
  obtain ⟨value, other, _, hanswer, hread, hwhole⟩ := hdocuments text state
  rw [h] at hanswer
  cases hanswer
  exact fun location hmem =>
    ((Parse.formed_of_ofDocument hread).2 location hmem).natural (hwhole location hmem)

namespace Run

theorem pass_ensures (hnatural : result.Natural) (options : Options) (number : Nat)
    (before : Run σ) :
    (pass options number result).Ensures before (fun _ _ => True)
      fun failure _ => result.Fails failure := by
  unfold pass
  split
  · rw [ensures_bind, onWorkspace, ensures_within, Workspace.note, ensures_modify, ensures_throw]
    exact Parse.givenUp_fails hnatural
  · rw [onWorkspace, ensures_within]
    exact makePass_ensures hnatural options number before.toWorkspace

/-- The last round of a repair ends with a clean report, or with one that tells why it fails. -/
theorem Ends.exists_report (hdocuments : parser.Documents) {results : List Parse}
    {before : Run σ} {ending : Except Failure Parse × Run σ}
    (hends : Ends parser options results before ending) :
    ∃ result opened, (openPass parser (results.length + 1)).start before = (.ok result, opened) ∧
      result.Natural ∧ (∀ clean, ending.1 = .ok clean → clean = result) ∧
        ∀ failure, ending.1 = .error failure → result.Fails failure := by
  obtain ⟨value, result, after, hanswer, -⟩ := hdocuments before.buffer.text before.parser
  have hopened := (@openPass_eq_ok_iff σ parser (results.length + 1) result before _).mpr
    ⟨after, hanswer, rfl⟩
  have hnatural := hdocuments.natural hanswer
  refine ⟨result, _, hopened, hnatural, ?_⟩
  cases hends with
  | unparsed hparse =>
      -- the parser has answered
      rw [hopened] at hparse
      cases hparse
  | clean hparse hclean =>
      rw [hopened] at hparse
      cases hparse
      refine ⟨fun clean hclean => (Except.ok.inj hclean).symm, fun failure hfailure => ?_⟩
      cases hfailure
  | refused hparse hbroken hpass =>
      rw [hopened] at hparse
      cases hparse
      refine ⟨fun clean hclean => ?_, fun failure hfailure => ?_⟩
      · cases hclean
      · cases hfailure
        exact (pass_ensures hnatural options _ _).of_eq_error hpass
  | stalled hparse hbroken hpass hlast hstalled =>
      rw [hopened] at hparse
      cases hparse
      refine ⟨fun clean hclean => ?_, fun failure hfailure => ?_⟩
      · cases hclean
      · cases hfailure
        exact Parse.givenUp_fails hnatural

end Run

/-- A repair comes to a clean report, or to one that tells why it fails. -/
theorem untilClean_ensures (hdocuments : parser.Documents) (options : Options) (text : Text)
    (state : σ) :
    (untilClean parser options).Ensures (Run.of text state)
      (fun clean run => .ok clean ∈ parser.answers state run.parsed ∧ clean.Natural)
      fun failure run => ∃ result, .ok result ∈ parser.answers state run.parsed ∧
        result.Fails failure := by
  obtain ⟨results, before, hpassed, hends⟩ :=
    Run.untilClean_ends parser options (Run.of text state)
  obtain ⟨-, -, -, hanswers⟩ := hends.answers_eq rfl hpassed
  obtain ⟨result, opened, hopened, hnatural, hclean, hfails⟩ := hends.exists_report hdocuments
  have hmem : .ok result ∈ parser.answers (Run.of text state).parser
      ((untilClean parser options).start (Run.of text state)).2.parsed := by
    rw [hanswers, hopened]
    exact List.mem_append_right _ (List.mem_singleton_self _)
  refine ensures_of_cases (fun clean run hrun => ?_) fun failure run hrun => ?_
  · rw [hrun] at hclean hmem
    rw [hclean clean rfl]
    exact ⟨hmem, hnatural⟩
  · rw [hrun] at hfails hmem
    exact ⟨result, hmem, hfails failure rfl⟩

/-- A repair that fails comes to a report that tells why. -/
theorem repair_ensures (hdocuments : parser.Documents) (options : Options) (text : Text)
    (state : σ) :
    (repair parser options).Ensures (Run.of text state) (fun _ _ => True)
      fun failure run => ∃ result, .ok result ∈ parser.answers state run.parsed ∧
        result.Fails failure := by
  rw [repair]
  refine (untilClean_ensures hdocuments options text state).bind ?_
  rintro clean run ⟨hmem, hnatural⟩
  rw [ensures_bind, Run.onWorkspace, ensures_within]
  refine (executeAll_ensures hnatural run.toWorkspace).imp (fun _ _ _ => ?_) fun _ _ hfails =>
    ⟨clean, hmem, hfails⟩
  rw [ensures_bind, ensures_get, ensures_pure]
  trivial

/-- **The failures of a repair.**  If the parser answers with documents in whole numbers, a repair
that fails does so with a violation, or because it makes no progress.  Two failures are left, and
each of them is told by a report of the parser: a definition in a line that the text does not have,
or something that can not be counted to. -/
theorem repair_fails {text : Text} {state : σ} {failure : Failure} {run : Run σ}
    (hdocuments : parser.Documents)
    (h : (repair parser options).start (Run.of text state) = (.error failure, run)) :
    (∃ cause, failure = .violation cause) ∨ (∃ reports, failure = .unrecovered reports) ∨
      ∃ result, .ok result ∈ parser.answers state run.parsed ∧
        (failure = .outOfRange ∧ (∃ definition ∈ result.tree.index.nodes.toList,
            definition.kind = definitionKind ∧
              (result.text.lineStarts.length : Int) < definition.location.line.whole) ∨
          (∃ cause, failure = .misfit cause) ∧ ¬ result.Countable) := by
  obtain ⟨result, hmem, hfails⟩ :=
    (repair_ensures hdocuments options text state).of_eq_error h
  cases hfails with
  | violation cause => exact Or.inl ⟨cause, rfl⟩
  | unrecovered reports => exact Or.inr (Or.inl ⟨reports, rfl⟩)
  | noLine hdefinition hkind hline =>
      exact Or.inr (Or.inr ⟨result, hmem, Or.inl ⟨rfl, _, hdefinition, hkind, hline⟩⟩)
  | uncountable hlarge => exact Or.inr (Or.inr ⟨result, hmem, Or.inr ⟨⟨_, rfl⟩, hlarge⟩⟩)

/-! ### Documents that are written out -/

namespace Document

open Json (Value)

/-- The document of a location. -/
def ofLocation (start stop line column : Int) : Value :=
  .object [("start", .int start), ("end", .int stop), ("line", .int line), ("column", .int column)]

/-- The document of a node. -/
def ofNode (kind : Text) (location name : Value) (children : List Value) : Value :=
  .object [("kind", .string kind), ("location", location), ("name", name),
    ("children", .array children)]

/-- The document of a report. -/
def ofReport (tree : Value) (diagnostics : List Value) : Value :=
  .object [("tree", tree), ("diagnostics", .array diagnostics)]

end Document

/-- A typed parameter. -/
def typedDocument : Json.Value :=
  Document.ofReport
    (Document.ofNode "program_node" (Document.ofLocation 0 14 1 0) .null
      [Document.ofNode "def_node" (Document.ofLocation 0 14 1 0) (.string "f")
        [Document.ofNode "parameters_node" (Document.ofLocation 6 7 1 6) .null
          [Document.ofNode "parameter_node" (Document.ofLocation 6 7 1 6) (.string "A") []],
         Document.ofNode "statements_node" (Document.ofLocation 9 10 1 9) .null
          [Document.ofNode "call_node" (Document.ofLocation 9 10 1 9) (.string "a") []]]])
    [.object [("kind", .string "unexpected_token_ignore"),
      ("location", Document.ofLocation 7 9 1 7)]]

/-- The clean report behind it, with the definition in a line that there is not. -/
def strayDocument : Json.Value :=
  Document.ofReport
    (Document.ofNode "program_node" (Document.ofLocation 0 11 1 0) .null
      [Document.ofNode "def_node" (Document.ofLocation 0 11 2 0) (.string "f")
        [Document.ofNode "parameters_node" (Document.ofLocation 6 7 1 6) .null
          [Document.ofNode "parameter_node" (Document.ofLocation 6 7 1 6) (.string "a") []]]])
    []

/-- A parser that writes these two documents. -/
def strayParser : Parser Unit := fun text =>
  pure (Document.report text
    (if text = "def f(A=>a)end" then typedDocument else strayDocument))

theorem strayParser_documents : strayParser.Documents := by
  intro text state
  unfold strayParser
  split
  · exact ⟨typedDocument, _, state, rfl, Parse.ofDocument_eq_report (by decide +kernel),
      show ∀ location ∈ (Document.report [] typedDocument).locations, location.Whole by
        decide +kernel⟩
  · exact ⟨strayDocument, _, state, rfl, Parse.ofDocument_eq_report (by decide +kernel),
      show ∀ location ∈ (Document.report [] strayDocument).locations, location.Whole by
        decide +kernel⟩

/-- The type comment of the definition has no line to go to. -/
theorem repair_stray_line :
    strayParser.Documents ∧
      ((repair strayParser {}).start (Run.of "def f(A=>a)end" ())).1 = .error .outOfRange :=
  ⟨strayParser_documents, by decide +kernel⟩

/-- One of the two reports has the definition that this is due to. -/
theorem repair_fails_stray :
    ∃ run : Run Unit, strayParser.Documents ∧
      (repair strayParser {}).start (Run.of "def f(A=>a)end" ()) = (.error .outOfRange, run) ∧
      ∃ result, .ok result ∈ strayParser.answers () run.parsed ∧
        ∃ definition ∈ result.tree.index.nodes.toList, definition.kind = definitionKind ∧
          (result.text.lineStarts.length : Int) < definition.location.line.whole := by
  generalize hrun : (repair strayParser {}).start (Run.of "def f(A=>a)end" ()) = ending
  have hfailure : ending.1 = .error .outOfRange := by
    rw [← hrun]
    decide +kernel
  obtain ⟨outcome, run⟩ := ending
  cases hfailure
  rcases repair_fails strayParser_documents hrun with ⟨cause, hcause⟩ | ⟨reports, hreports⟩ |
    ⟨result, hmem, ⟨-, hdefinition⟩ | ⟨⟨cause, hcause⟩, -⟩⟩
  · cases hcause
  · cases hreports
  · exact ⟨run, strayParser_documents, rfl, result, hmem, hdefinition⟩
  · cases hcause

end

end SyntaxRepair
