import SyntaxRepair.Mission.Execution
import SyntaxRepair.Proofs.Json.Numbers
import SyntaxRepair.Proofs.Parse.Documents
import SyntaxRepair.Proofs.Repair.Progress
import SyntaxRepair.Proofs.Repair.Refusals
import SyntaxRepair.Proofs.Text.LineStarts
import SyntaxRepair.Proofs.Tree.Numbering

/-!
# What can be counted in a report

Some of what a repair does with a report needs more than whole numbers: a line must be a line of
the text, and an indent or an underline must fit into memory.  `Parse.Fails` lists the failures
that a repair can come to over a report of whole numbers, with what each of them tells about the
report.

A computation settles on a report if it ends with a value or with such a failure
(`Parse.Settles`).  The look-ups and the places of lines settle, and a report that is given up is
one of these failures, too.
-/

namespace SyntaxRepair

open Json (Number)
open Json.Number (memoryLimit memoryLimit_eq fitsWord_of_lt count_eq_ok index_eq_ok)

/-! ## Whole numbers -/

/-- A location whose four numbers are written as whole numbers. -/
structure Location.Whole (location : Location) : Prop extends location.Spanning where
  line_eq : location.line = .int location.line.whole
  column_eq : location.column = .int location.column.whole

instance (location : Location) : Decidable location.Whole :=
  decidable_of_iff (location.Spanning ∧ location.line = .int location.line.whole ∧
    location.column = .int location.column.whole) ⟨fun h => ⟨h.1, h.2.1, h.2.2⟩,
      fun h => ⟨h.1, h.2, h.3⟩⟩

/-- A location whose numbers are natural, the line counted from one. -/
def Location.Natural (location : Location) : Prop :=
  ∃ start stop line column : Nat,
    location = ⟨.int start, .int stop, .int (line + 1), .int column⟩

/-- Whole numbers that keep the bounds of the form are natural. -/
theorem Location.Formed.natural {location : Location} (hformed : location.Formed)
    (hwhole : location.Whole) : location.Natural := by
  obtain ⟨start, hstart⟩ := Number.exists_natural hwhole.start_eq hformed.start_ge
  obtain ⟨stop, hstop⟩ := Number.exists_natural hwhole.stop_eq hformed.stop_ge
  obtain ⟨line, hline⟩ := Number.exists_natural hwhole.line_eq hformed.line_ge
  obtain ⟨column, hcolumn⟩ := Number.exists_natural hwhole.column_eq hformed.column_ge
  rw [Int.zero_add] at hstart hstop hcolumn
  rw [Int.add_comm] at hline
  refine ⟨start, stop, line, column, ?_⟩
  rw [← hstart, ← hstop, ← hline, ← hcolumn]

theorem Location.Natural.spanning {location : Location} (h : location.Natural) :
    location.Spanning := by
  obtain ⟨start, stop, line, column, rfl⟩ := h
  exact ⟨rfl, rfl⟩

/-- A report all of whose locations are natural. -/
def Parse.Natural (result : Parse) : Prop := ∀ location ∈ result.locations, location.Natural

theorem Parse.Natural.spanning {result : Parse} (h : result.Natural) : result.Spanning :=
  fun location hmem => (h location hmem).spanning

/-! ## Counting -/

/-- The numbers of a location. -/
def Location.numbers (location : Location) : List Number :=
  [location.start, location.stop, location.line, location.column]

namespace Parse

/-- A report whose text, tree and numbers can be counted to, with two columns to spare. -/
structure Countable (result : Parse) : Prop where
  text_lt : (result.text.length : Int) < memoryLimit
  nodes_lt : (result.tree.index.size : Int) < memoryLimit
  numbers_lt : ∀ location ∈ result.locations, ∀ number ∈ location.numbers,
    number.whole + 2 < memoryLimit

theorem Countable.bounds {result : Parse} {start stop line column : Int}
    (hcountable : result.Countable)
    (hmem : ⟨.int start, .int stop, .int line, .int column⟩ ∈ result.locations) :
    start + 2 < memoryLimit ∧ stop + 2 < memoryLimit ∧ line + 2 < memoryLimit ∧
      column + 2 < memoryLimit := by
  have hnumbers := hcountable.numbers_lt _ hmem
  simpa only [Location.numbers, List.forall_mem_cons, Number.whole_int, List.not_mem_nil,
    false_implies, implies_true, and_true] using hnumbers

/-! ## Failures over a report -/

/-- How a repair can fail over a report of natural numbers. -/
inductive Fails (result : Parse) : Failure → Prop
  /-- An assumption about the report does not hold. -/
  | violation (cause : Violation) : Fails result (.violation cause)
  /-- The report is given up. -/
  | unrecovered (reports : List Report) : Fails result (.unrecovered reports)
  /-- A definition is reported in a line that the text does not have. -/
  | noLine {definition : Outline} (hmem : definition ∈ result.tree.index.nodes.toList)
      (hkind : definition.kind = definitionKind)
      (hline : result.text.lineStarts.length < definition.location.line.whole) :
      Fails result .outOfRange
  /-- The report can not be counted to. -/
  | uncountable {cause : Misfit} (h : ¬ result.Countable) : Fails result (.misfit cause)

/-- A computation that ends with a value that `good` admits, or with a failure over the report. -/
structure Settles {α : Type} (result : Parse) (outcome : Except Failure α) (good : α → Prop) :
    Prop where
  of_ok : ∀ value, outcome = .ok value → good value
  of_error : ∀ failure, outcome = .error failure → result.Fails failure

variable {result : Parse} {α β : Type} {good : α → Prop} {outcome : Except Failure α}

theorem settles_ok {value : α} (h : good value) : result.Settles (.ok value) good := by
  refine ⟨fun other hother => ?_, fun failure hfailure => ?_⟩
  · cases hother
    exact h
  · cases hfailure

theorem settles_error {failure : Failure} (h : result.Fails failure) :
    result.Settles (.error failure) good := by
  refine ⟨fun other hother => ?_, fun cause hcause => ?_⟩
  · cases hother
  · cases hcause
    exact h

theorem Settles.bind {next : α → Except Failure β} {good' : β → Prop}
    (h : result.Settles outcome good)
    (hnext : ∀ value, good value → result.Settles (next value) good') :
    result.Settles (outcome >>= next) good' := by
  cases outcome with
  | error failure => exact settles_error (h.of_error failure rfl)
  | ok value => exact hnext value (h.of_ok value rfl)

theorem Settles.imp {good' : α → Prop} (h : result.Settles outcome good)
    (himp : ∀ value, good value → good' value) : result.Settles outcome good' :=
  ⟨fun value hvalue => himp value (h.of_ok value hvalue), h.of_error⟩

/-- A computation that nothing stands in the way of if the report can be counted to. -/
theorem settles_ofMisfit {outcome : Except Misfit α}
    (hcounts : result.Countable → ∃ value, outcome = .ok value)
    (hgood : ∀ value, outcome = .ok value → good value) :
    result.Settles (Failure.ofMisfit outcome) good := by
  cases outcome with
  | ok value => exact settles_ok (hgood value rfl)
  | error cause =>
      refine settles_error (.uncountable fun hcountable => ?_)
      obtain ⟨value, hvalue⟩ := hcounts hcountable
      cases hvalue

/-- A step goes on with a value that settles. -/
theorem Settles.ensures_bind {σ : Type} {next : α → Step σ β} {before : σ} {post : β → σ → Prop}
    (h : result.Settles outcome good) (hnext : ∀ value, good value →
      (next value).Ensures before post fun failure _ => result.Fails failure) :
    (Step.ofExcept outcome >>= next).Ensures before post fun failure _ => result.Fails failure :=
  Step.ensures_bind.mpr (Step.ensures_ofExcept
    (fun value hvalue => hnext value (h.of_ok value hvalue)) h.of_error)

end Parse

/-! ## Looking up nodes and lines -/

section

variable {result : Parse}

/-- A natural index is looked up if the report can be counted to. -/
theorem Parse.lookup_settles {α : Type} {lookup : Int → Option α} {place : Nat} {good : α → Prop}
    (hcounts : result.Countable → (place : Int) < memoryLimit)
    (hnone : lookup place = none → result.Fails .outOfRange)
    (hgood : ∀ item, lookup place = some item → good item) :
    result.Settles (Failure.ofLookup ((Number.int place).index >>= fun index =>
      pure (lookup index))) good := by
  cases hindex : (Number.int place).index with
  | error cause =>
      refine settles_error (.uncountable fun hcountable => ?_)
      have hlt := hcounts hcountable
      rw [index_eq_ok (by rw [memoryLimit_eq]; omega) hlt] at hindex
      cases hindex
  | ok found =>
      have hfound := Number.eq_of_index_int hindex
      subst hfound
      cases hitem : lookup place with
      | none =>
          have hlookup : Failure.ofLookup ((Except.ok (place : Int) : Except Misfit Int) >>=
              fun index => pure (lookup index)) = .error .outOfRange := by
            simp only [bind, Except.bind, hitem, pure, Except.pure, Failure.ofLookup]
          rw [hlookup]
          exact settles_error (hnone hitem)
      | some item =>
          have hlookup : Failure.ofLookup ((Except.ok (place : Int) : Except Misfit Int) >>=
              fun index => pure (lookup index)) = .ok item := by
            simp only [bind, Except.bind, hitem, pure, Except.pure, Failure.ofLookup]
          rw [hlookup]
          exact settles_ok (hgood item hitem)

/-- A node of the tree is found by its number. -/
theorem Parse.node_settles {node : Outline} (hmem : node ∈ result.tree.index.nodes.toList) :
    result.Settles (Failure.ofLookup (result.tree.index.node? node.id)) (· = node) := by
  have hstands := result.tree.getElem?_id hmem
  have hfound : Text.pick? result.tree.index.nodes.toList (node.id : Int) = some node := by
    rw [Text.pick?_natCast, hstands]
  rw [Index.node?]
  refine lookup_settles (fun hcountable => ?_) (fun hnone => ?_) fun item hitem => ?_
  · have hlt := (List.getElem?_eq_some_iff.mp hstands).1
    have hnodes := hcountable.nodes_lt
    rw [Index.size, ← Array.length_toList] at hnodes
    omega
  · rw [hfound] at hnone
    cases hnone
  · rw [hfound] at hitem
    exact (Option.some.inj hitem).symm

/-- A line is looked up at the index below its number. -/
theorem Parse.lineStart?_int (result : Parse) (line : Int) :
    result.lineStart? (.int line) = ((Number.int (line - 1)).index >>= fun index =>
      pure ((Text.pick? result.text.lineStarts index).map Int.ofNat)) := by
  have hsub : (Number.int line).sub 1 = .ok (.int (line - 1)) := rfl
  rw [lineStart?, hsub]
  cases hindex : (Number.int (line - 1)).index with
  | error cause => simp only [bind, Except.bind, hindex]
  | ok index =>
      simp only [bind, Except.bind, hindex]
      cases Text.pick? result.text.lineStarts index <;> rfl

/-- The line of a definition begins at a line of the text. -/
theorem Parse.lineStart_settles (hnatural : result.Natural) {definition : Outline}
    (hmem : definition ∈ result.tree.index.nodes.toList)
    (hkind : definition.kind = definitionKind) :
    result.Settles (Failure.ofLookup (result.lineStart? definition.location.line)) fun start =>
      ∃ place ∈ result.text.lineStarts, start = place := by
  have hlocation := location_mem_of_node hmem (List.mem_cons_self ..)
  obtain ⟨start, stop, line, column, heq⟩ := hnatural definition.location hlocation
  have hline : definition.location.line = .int (line + 1) := by rw [heq]
  rw [hline, lineStart?_int, Int.add_sub_cancel]
  refine lookup_settles (fun hcountable => ?_) (fun hnone => ?_) fun item hitem => ?_
  · rw [show definition.label.location = definition.location from rfl, heq] at hlocation
    have hbounds := hcountable.bounds hlocation
    omega
  · refine .noLine hmem hkind ?_
    rw [Option.map_eq_none_iff, Text.pick?_natCast, List.getElem?_eq_none_iff] at hnone
    rw [hline, Number.whole_int]
    omega
  · obtain ⟨place, hplace, rfl⟩ := Option.map_eq_some_iff.mp hitem
    rw [Text.pick?_natCast] at hplace
    exact ⟨place, List.mem_of_getElem? hplace, rfl⟩

/-! ## Where lines go -/

section

variable {start stop line column indent offset : Int} {contents : Text}

theorem exists_indentedLine (hlow : -memoryLimit ≤ indent) (hhigh : indent < memoryLimit) :
    ∃ added, indentedLine (.int indent) contents = .ok added := by
  rw [indentedLine, count_eq_ok hlow hhigh]
  exact ⟨_, rfl⟩

theorem exists_indentBy (hlow : -memoryLimit ≤ indent) (hhigh : indent < memoryLimit) :
    ∃ added, contents.indentBy (.int indent) = .ok added := by
  rw [Text.indentBy, count_eq_ok hlow hhigh]
  split
  · exact ⟨_, rfl⟩
  · exact ⟨_, rfl⟩

theorem levelPlace_int : levelPlace ⟨.int start, .int stop, .int line, .int column⟩ contents =
    (indentedLine (.int column) contents).map fun added => ⟨.int (start - column), added⟩ := by
  rw [levelPlace, Number.sub_int]
  cases indentedLine (.int column) contents with
  | error cause => simp only [bind, Except.bind, Except.map]
  | ok added => simp only [bind, Except.bind, Except.map, pure, Except.pure]

theorem deeperPlace_int : deeperPlace ⟨.int start, .int stop, .int line, .int column⟩ contents =
    (indentedLine (.int (column + 2)) contents).map fun added =>
      ⟨.int (start - (column + 2) + 2), added⟩ := by
  have hcolumn : (Number.int column).add 2 = .ok (.int (column + 2)) := rfl
  have hback : (Number.int (start - (column + 2))).add 2 =
      .ok (.int (start - (column + 2) + 2)) := rfl
  rw [deeperPlace, hcolumn]
  cases hadded : indentedLine (.int (column + 2)) contents with
  | error cause => simp only [bind, Except.bind, Number.sub_int, hback, hadded, Except.map]
  | ok added =>
      simp only [bind, Except.bind, Number.sub_int, hback, hadded, Except.map, pure, Except.pure]

/-- An indented line is added at a whole number. -/
theorem Parse.insertion_settles
    (hcounts : result.Countable → -memoryLimit ≤ indent ∧ indent < memoryLimit) :
    result.Settles (Failure.ofMisfit ((indentedLine (.int indent) contents).map
      (Insertion.mk (.int offset)))) fun insertion => insertion.offset = .int offset := by
  refine settles_ofMisfit (fun hcountable => ?_) fun insertion hinsertion => ?_
  · obtain ⟨added, hadded⟩ := exists_indentedLine (hcounts hcountable).1 (hcounts hcountable).2
    rw [hadded]
    exact ⟨_, rfl⟩
  · cases hadded : indentedLine (.int indent) contents with
    | error cause =>
        rw [hadded] at hinsertion
        cases hinsertion
    | ok added =>
        rw [hadded] at hinsertion
        cases hinsertion
        rfl

/-- A statement is added at a whole number. -/
theorem Parse.assignmentPlace_settles {label : Label}
    (hnatural : ∀ location ∈ label.locations, location ∈ result.locations ∧ location.Natural)
    (payload : Text) :
    result.Settles (assignmentPlace label payload) fun insertion =>
      ∃ offset : Int, insertion.offset = .int offset := by
  unfold assignmentPlace
  split
  · rename_i body hbody
    obtain ⟨hlocation, start, stop, line, column, rfl⟩ := hnatural body (by
      simp [Label.locations, hbody])
    rw [levelPlace_int]
    refine (insertion_settles fun hcountable => ?_).imp fun insertion hoffset => ⟨_, hoffset⟩
    have hbounds := hcountable.bounds hlocation
    rw [memoryLimit_eq] at hbounds ⊢
    omega
  · rename_i keyword hnone hkeyword
    obtain ⟨hlocation, start, stop, line, column, rfl⟩ := hnatural keyword (by
      simp [Label.locations, hkeyword])
    rw [deeperPlace_int]
    refine (insertion_settles fun hcountable => ?_).imp fun insertion hoffset => ⟨_, hoffset⟩
    have hbounds := hcountable.bounds hlocation
    rw [memoryLimit_eq] at hbounds ⊢
    omega
  · exact settles_error (.violation _)

/-- Lines above a definition are added at the beginning of a line. -/
theorem Parse.abovePlace_settles (hnatural : result.Natural) {definition : Outline}
    (hmem : definition ∈ result.tree.index.nodes.toList)
    (hkind : definition.kind = definitionKind) {contents : Number → Except Misfit Text}
    (hcontents : ∀ indent : Int, -memoryLimit ≤ indent → indent < memoryLimit →
      ∃ added, contents (.int indent) = .ok added) :
    result.Settles (abovePlace result definition.location contents) fun insertion =>
      ∃ offset : Int, insertion.offset = .int offset := by
  have hlocation := location_mem_of_node hmem (List.mem_cons_self ..)
  obtain ⟨start, stop, line, column, heq⟩ := hnatural definition.location hlocation
  have hstart : definition.location.start = .int start := by rw [heq]
  rw [show definition.label.location = definition.location from rfl, heq] at hlocation
  unfold abovePlace
  refine (lineStart_settles hnatural hmem hkind).bind fun origin horigin => ?_
  obtain ⟨place, hplace, rfl⟩ := horigin
  rw [hstart, Number.sub_int]
  have hdepth : result.Settles (.ok (Number.int (start - place)))
      (· = .int (start - place)) := settles_ok rfl
  refine hdepth.bind fun depth hdepth => ?_
  subst hdepth
  have hadded : result.Settles (Failure.ofMisfit (contents (.int (start - place))))
      fun _ => True := by
    refine settles_ofMisfit (fun hcountable => ?_) fun _ _ => trivial
    have hbounds := hcountable.bounds hlocation
    have htext := hcountable.text_lt
    have hinside := Text.le_length_of_mem_lineStarts hplace
    exact hcontents _ (by omega) (by omega)
  exact hadded.bind fun added _ => settles_ok ⟨place, rfl⟩

end

/-! ## Reports of diagnostics -/

/-- The locations of diagnostics can be shown if the report can be counted to. -/
theorem Parse.Natural.showable (hnatural : result.Natural) (hcountable : result.Countable)
    {diagnostic : Diagnostic} (hmem : diagnostic ∈ result.diagnostics) :
    diagnostic.location.Showable := by
  have hlocation := location_mem_of_diagnostic hmem
  obtain ⟨start, stop, line, column, heq⟩ := hnatural diagnostic.location hlocation
  rw [heq] at hlocation ⊢
  have hbounds := hcountable.bounds hlocation
  have hlimit := memoryLimit_eq
  refine ⟨rfl, fitsWord_of_lt ?_ ?_, fitsWord_of_lt ?_ ?_, ?_, ?_⟩ <;>
    simp only [Number.whole_int] <;> omega

/-- A report that is given up fails. -/
theorem Parse.givenUp_fails (hnatural : result.Natural) : result.Fails result.givenUp := by
  by_cases hcountable : result.Countable
  · obtain ⟨reports, hgivenUp, -⟩ := Parse.exists_givenUp fun diagnostic hmem =>
      hnatural.showable hcountable hmem
    rw [hgivenUp]
    exact .unrecovered reports
  · unfold givenUp
    split
    · exact .unrecovered _
    · exact .uncountable hcountable

end

end SyntaxRepair
