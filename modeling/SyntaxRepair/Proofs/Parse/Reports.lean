import SyntaxRepair.Proofs.Edit.Splice
import SyntaxRepair.Proofs.Repair.Countable
import SyntaxRepair.Proofs.Sequences
import SyntaxRepair.Proofs.Text.Lines

/-!
# What reports point at

A diagnostic is shown by its line with an underline below, both of which are found by numbers that
the parser gives: the line by its number, and the underline by column and length.  If they are
those of a range of the text that stays in one line (`Text.locate`), then the underline stands
below that very range (`Parse.reports_point`).
-/

namespace SyntaxRepair

open Json (Number)
open Json.Number (memoryLimit memoryLimit_eq wordLimit_eq)

/-! ## Reports of whole numbers -/

/-- So many marks of an underline: a caret, and tildes behind it. -/
def Report.marks (count : Nat) : Text := (List.replicate count (.char '~')).set 0 '^'

theorem Report.marks_max_one (count : Nat) :
    marks (max count 1) = .char '^' :: List.replicate (count - 1) (.char '~') := by
  cases count with
  | zero => rfl
  | succ count =>
      rw [Nat.max_eq_left (Nat.succ_pos count)]
      rfl

section

variable {text : Text} {kind message : Text} {start stop line column : Int}

theorem toNat_of_furtherColumns {number place : Number} {further : Int}
    (h : furtherColumns ⟨.int start, .int stop, number, place⟩ = .ok further) :
    further.toNat = (stop - start).toNat - 1 := by
  obtain ⟨length, hlength, hfurther⟩ := except_bind_eq_ok.mp h
  cases hlength
  obtain ⟨less, hless, hcount⟩ := except_bind_eq_ok.mp hfurther
  have hone : Number.int (stop - start - 1) = less := Except.ok.inj hless
  subst hone
  split at hcount
  · rename_i hnegative
    cases hcount
    rw [Number.ltInt, decide_eq_true_iff] at hnegative
    omega
  · rw [Number.eq_of_count_int hcount]
    omega

theorem eq_of_lineNumbered {shown : Text} (h : text.lineNumbered (.int line) = .ok shown) :
    shown = text.lineAt line := by
  rw [lineNumbered_eq] at h
  split at h
  · exact (Except.ok.inj h).symm
  · obtain ⟨found, hfound, hline⟩ := except_bind_eq_ok.mp h
    rw [Number.eq_of_index_int hfound] at hline
    exact (Except.ok.inj hline).symm

/-- What the report of a diagnostic of whole numbers is. -/
theorem Diagnostic.eq_of_report {report : Report}
    (h : Diagnostic.report text ⟨kind, ⟨.int start, .int stop, .int line, .int column⟩, message⟩ =
      .ok report) :
    report = {
      line := .int line
      shown := text.lineAt line
      underline := Text.spaces column ++ Report.marks (max (stop - start).toNat 1)
      message
      kind } := by
  obtain ⟨marked, hmarked, hrest⟩ := except_bind_eq_ok.mp h
  obtain ⟨shown, hshown, hreport⟩ := except_bind_eq_ok.mp hrest
  obtain ⟨before, hbefore, hmarks⟩ := except_bind_eq_ok.mp hmarked
  obtain ⟨further, hfurther, hmarked⟩ := except_bind_eq_ok.mp hmarks
  cases hreport
  cases hmarked
  rw [eq_of_lineNumbered hshown, Number.eq_of_count_int hbefore, toNat_of_furtherColumns hfurther,
    Report.marks_max_one, List.append_assoc]
  rfl

end

/-- A report takes over what the diagnostic says. -/
theorem Diagnostic.says_of_report {text : Text} {diagnostic : Diagnostic} {report : Report}
    (h : diagnostic.report text = .ok report) :
    report.line = diagnostic.location.line ∧ report.kind = diagnostic.kind ∧
      report.message = diagnostic.message := by
  obtain ⟨marked, -, hrest⟩ := except_bind_eq_ok.mp h
  obtain ⟨shown, -, hreport⟩ := except_bind_eq_ok.mp hrest
  cases hreport
  exact ⟨rfl, rfl, rfl⟩

/-! ## Ranges in a line -/

namespace Text

variable {text : Text} {start stop : Nat}

/-- The location of a range of a text, with the line and the column of its start. -/
def locate (text : Text) (start stop : Nat) : Location :=
  ⟨.int start, .int stop, .int (text.lineOf start), .int (text.columnOf start)⟩

/-- A range of a text that stays in one line. -/
structure InLine (text : Text) (start stop : Nat) : Prop where
  start_le : start ≤ stop
  stop_le : stop ≤ text.length
  newline_not_mem : .char '\n' ∉ text.slice start stop

instance (text : Text) (start stop : Nat) : Decidable (text.InLine start stop) :=
  decidable_of_iff (start ≤ stop ∧ stop ≤ text.length ∧ .char '\n' ∉ text.slice start stop)
    ⟨fun h => ⟨h.1, h.2.1, h.2.2⟩, fun h => ⟨h.1, h.2, h.3⟩⟩

theorem columnOf_le (text : Text) (offset : Nat) : text.columnOf offset ≤ offset :=
  Nat.le_trans (List.rtakeWhile_suffix _ _).length_le (List.length_take_le ..)

theorem lineOf_le (text : Text) (offset : Nat) : text.lineOf offset ≤ offset + 1 :=
  Nat.succ_le_succ (Nat.le_trans List.count_le_length (List.length_take_le ..))

/-- A range in one line stands in its line where its column says. -/
theorem InLine.exists_line (h : text.InLine start stop) :
    ∃ line, text.lines[text.lineOf start - 1]? = some line ∧
      text.lineAt (text.lineOf start) = line ∧
      line.slice (text.columnOf start) (text.columnOf start + (stop - start) : Nat) =
        text.slice start stop := by
  have hsplit : text = text.take start ++ text.slice start stop ++ text.drop stop := by
    rw [slice_of_nat]
    exact text.eq_append_take_drop_append h.start_le
  obtain ⟨rest, hline⟩ :=
    exists_getElem?_lines (text.take start) h.newline_not_mem (text.drop stop)
  rw [← hsplit] at hline
  refine ⟨_, hline, lineAt_succ hline, ?_⟩
  rw [← length_slice_of_le h.stop_le]
  exact slice_middle ..

/-- The location of a range can be shown if the text is no longer than what there is memory for. -/
theorem locate_showable (hlength : (text.length : Int) < memoryLimit) (hle : start ≤ stop)
    (hstop : stop ≤ text.length) : (text.locate start stop).Showable := by
  have hcolumn := text.columnOf_le start
  have hline := text.lineOf_le start
  rw [memoryLimit_eq] at hlength
  refine ⟨rfl, ?_, ?_, ?_, ?_⟩ <;>
    simp only [locate, Number.whole_int, Number.fitsWord, wordLimit_eq, memoryLimit_eq,
      Bool.and_eq_true, decide_eq_true_iff] <;> omega

end Text

/-! ## Pointing -/

namespace Report

/-- A report points at a range of a text: it shows the line that the range begins in, which holds
the range at the column, and marks the columns of the range, or one column if the range is empty. -/
structure PointsAt (text : Text) (start stop : Nat) (report : Report) : Prop where
  shown_eq : text.lines[text.lineOf start - 1]? = some report.shown
  slice_eq : report.shown.slice (text.columnOf start) (text.columnOf start + (stop - start) : Nat) =
    text.slice start stop
  underline_eq : report.underline =
    Text.spaces (text.columnOf start) ++ marks (max (stop - start) 1)

end Report

/-- The report of a diagnostic at a range in one line points at the range. -/
theorem Diagnostic.pointsAt_of_report {text : Text} {diagnostic : Diagnostic} {report : Report}
    {start stop : Nat} (hlocation : diagnostic.location = text.locate start stop)
    (hline : text.InLine start stop) (h : diagnostic.report text = .ok report) :
    report.PointsAt text start stop := by
  obtain ⟨kind, location, message⟩ := diagnostic
  subst hlocation
  obtain ⟨line, hnumber, hshown, hslice⟩ := hline.exists_line
  rw [eq_of_report h, hshown]
  exact ⟨hnumber, hslice, by rw [← Int.natCast_sub hline.start_le, Int.toNat_natCast]⟩

/-- **Reports point at the reported characters.**  The lines of a text with newlines between them
are the text, none of them contains a newline, and each of them is the one of its number, which
stands in the text from where it begins to where it ends.  The reports of all diagnostics are one
for each diagnostic in their order, and that of a diagnostic whose range stays in one line, and
whose line and column are those of its start, points at the range.  There are reports if the text
is no longer than what there is memory for and the diagnostics are at ranges of it, or can be
shown for other reasons. -/
theorem Parse.reports_point (result : Parse) :
    (Text.join "\n" result.text.lines = result.text ∧
      (∀ line ∈ result.text.lines, .char '\n' ∉ line) ∧
      result.text.lineStarts.length = result.text.lines.length ∧
      ∀ (number : Nat) (line : Text), result.text.lines[number]? = some line →
        result.text.lineAt (number + 1 : Nat) = line ∧
        ∃ start, result.text.lineStarts[number]? = some start ∧
          result.text.lineEnds[number]? = some (start + line.length) ∧
          result.text.slice start (start + line.length : Nat) = line) ∧
    (∀ reports, result.reports = .ok reports →
      List.Forall₂ (fun (diagnostic : Diagnostic) (report : Report) =>
        report.line = diagnostic.location.line ∧ report.kind = diagnostic.kind ∧
        report.message = diagnostic.message ∧
        ∀ start stop, diagnostic.location = result.text.locate start stop →
          result.text.InLine start stop → report.PointsAt result.text start stop)
        result.diagnostics reports) ∧
    ((result.text.length : Int) < memoryLimit →
      (∀ diagnostic ∈ result.diagnostics, diagnostic.location.Showable ∨
        ∃ start stop, diagnostic.location = result.text.locate start stop ∧ start ≤ stop ∧
          stop ≤ result.text.length) →
      ∃ reports, result.reports = .ok reports) := by
  refine ⟨⟨Text.join_lines _, fun line => Text.not_mem_of_mem_lines, ?_, ?_⟩, ?_, ?_⟩
  · rw [Text.lines_eq_map, List.length_map]
  · exact fun number line hline => ⟨Text.lineAt_succ hline, Text.exists_of_getElem?_lines hline⟩
  · intro reports hreports
    refine (forall₂_of_mapM_eq_ok hreports).imp fun diagnostic report hreport => ?_
    obtain ⟨hline, hkind, hmessage⟩ := Diagnostic.says_of_report hreport
    exact ⟨hline, hkind, hmessage, fun start stop hlocation hinside =>
      Diagnostic.pointsAt_of_report hlocation hinside hreport⟩
  · intro hlength hlocations
    obtain ⟨reports, hreports, -⟩ := exists_reports fun diagnostic hmem => by
      rcases hlocations diagnostic hmem with hshowable | ⟨start, stop, hlocation, hle, hstop⟩
      · exact hshowable
      · rw [hlocation]
        exact Text.locate_showable hlength hle hstop
    exact ⟨reports, hreports⟩

/-- A report of a text with an empty line and no newline at its end.  Its diagnostics are at two
words, at the empty line and at the end of the text. -/
def Parse.aroundEmptyLine : Parse where
  text := "ab\n\ncd"
  tree := .mk { kind := "program_node", location := ⟨0, 6, 1, 0⟩ } []
  diagnostics := [(0, 2), (3, 3), (5, 6), (6, 6)].map fun range : Nat × Nat =>
    ⟨"unexpected_token", Text.locate "ab\n\ncd" range.1 range.2, []⟩

/-- All four of them have reports that point at them. -/
theorem Parse.reports_point_around_empty_line :
    (aroundEmptyLine.text.length : Int) < memoryLimit ∧
      aroundEmptyLine.diagnostics.map Diagnostic.location =
        [⟨0, 2, 1, 0⟩, ⟨3, 3, 2, 0⟩, ⟨5, 6, 3, 1⟩, ⟨6, 6, 3, 2⟩] ∧
      ∃ reports, aroundEmptyLine.reports = .ok reports ∧
        List.Forall₂ (fun (range : Nat × Nat) (report : Report) =>
          aroundEmptyLine.text.InLine range.1 range.2 ∧
          report.PointsAt aroundEmptyLine.text range.1 range.2)
          [(0, 2), (3, 3), (5, 6), (6, 6)] reports := by
  have hlength : (aroundEmptyLine.text.length : Int) < memoryLimit := by decide
  have hlines : ∀ range ∈ [((0, 2) : Nat × Nat), (3, 3), (5, 6), (6, 6)],
      aroundEmptyLine.text.InLine range.1 range.2 := by
    decide
  obtain ⟨-, hpoint, hexists⟩ := reports_point aroundEmptyLine
  obtain ⟨reports, hreports⟩ := hexists hlength fun diagnostic hmem => by
    obtain ⟨range, hrange, rfl⟩ := List.mem_map.mp hmem
    have hline := hlines range hrange
    exact Or.inr ⟨range.1, range.2, rfl, hline.start_le, hline.stop_le⟩
  refine ⟨hlength, by decide, reports, hreports, ?_⟩
  have hall := hpoint reports hreports
  simp only [aroundEmptyLine, List.forall₂_map_left_iff] at hall
  refine ((List.forall₂_and_left _ _).mpr ⟨hlines, hall⟩).imp ?_
  rintro range report ⟨hline, -, -, -, hpoints⟩
  exact ⟨hline, hpoints range.1 range.2 rfl hline⟩

end SyntaxRepair
