import Mathlib.Data.List.DropRight
import SyntaxRepair.Proofs.Text.Comments

/-!
# The lines of a text

Four views of the same lines: what `Text.lines` gives, what stands between newlines
(`join_lines`, `lines_join`), what stands from where a line begins to where it ends
(`lines_eq_zipWith`), and what stands from where a line begins to the next newline
(`lines_eq_map`, `lineEnds_eq_map`).

An offset stands in one line (`Text.lineOf`), at one column of it (`Text.columnOf`).
-/

namespace SyntaxRepair.Text

variable {text front back line : Text}

/-! ## Between newlines -/

theorem join_cons_of_ne_nil {separator first : Text} {rest : List Text} (hrest : rest ≠ []) :
    join separator (first :: rest) = first ++ separator ++ join separator rest := by
  obtain ⟨next, others, rfl⟩ := List.exists_cons_of_ne_nil hrest
  rfl

/-- The lines of a text with newlines between them are the text. -/
theorem join_lines (text : Text) : join "\n" (lines text) = text := by
  induction text with
  | nil => rfl
  | cons c rest ih =>
      by_cases hc : c = '\n'
      · rw [lines, if_pos hc, join_cons_of_ne_nil (lines_ne_nil rest), ih, hc]
        rfl
      · obtain ⟨line, others, hlines⟩ := List.exists_cons_of_ne_nil (lines_ne_nil rest)
        rw [hlines] at ih
        rw [lines_cons_of_ne hc hlines]
        cases others with
        | nil => exact congrArg (c :: ·) ih
        | cons next others => exact congrArg (c :: ·) ih

/-- There is no newline in a line. -/
theorem not_mem_of_mem_lines (hmem : line ∈ lines text) : .char '\n' ∉ line := by
  induction text generalizing line with
  | nil => simp [List.mem_singleton.mp hmem]
  | cons c rest ih =>
      by_cases hc : c = '\n'
      · rw [lines, if_pos hc, List.mem_cons] at hmem
        rcases hmem with rfl | hmem
        · exact List.not_mem_nil
        · exact ih hmem
      · obtain ⟨first, others, hlines⟩ := List.exists_cons_of_ne_nil (lines_ne_nil rest)
        rw [lines_cons_of_ne hc hlines, List.mem_cons] at hmem
        rw [hlines] at ih
        rcases hmem with rfl | hmem
        · rw [List.mem_cons, not_or]
          exact ⟨Ne.symm hc, ih (List.mem_cons_self ..)⟩
        · exact ih (List.mem_cons_of_mem _ hmem)

/-- Texts of one line each are the lines of what is put together from them. -/
theorem lines_join {parts : List Text} (hne : parts ≠ [])
    (hnone : ∀ part ∈ parts, .char '\n' ∉ part) : lines (join "\n" parts) = parts := by
  induction parts with
  | nil => exact absurd rfl hne
  | cons first rest ih =>
      obtain ⟨hfirst, hrest⟩ := List.forall_mem_cons.mp hnone
      cases rest with
      | nil => exact lines_of_not_mem hfirst
      | cons next others =>
          calc lines (join "\n" (first :: next :: others))
              = lines (first ++ .char '\n' :: join "\n" (next :: others)) := by
                rw [join_cons_of_ne_nil (List.cons_ne_nil _ _), List.append_assoc]
                rfl
            _ = lines first ++ lines (join "\n" (next :: others)) := lines_append_newline _ _
            _ = first :: next :: others := by
                rw [lines_of_not_mem hfirst, ih (List.cons_ne_nil _ _) hrest,
                  List.singleton_append]

/-! ## From beginning to end -/

theorem newlinesFrom_succ (offset : Nat) (text : Text) :
    newlinesFrom (offset + 1) text = (newlinesFrom offset text).map (· + 1) := by
  induction text generalizing offset with
  | nil => rfl
  | cons c rest ih =>
      simp only [newlinesFrom, ih (offset + 1)]
      split <;> rfl

theorem lineEnds_cons (c : CodePoint) (rest : Text) :
    lineEnds (c :: rest) =
      (if c = '\n' then [0] else []) ++ (lineEnds rest).map (· + 1) := by
  simp only [lineEnds, newlinesFrom, newlinesFrom_succ, List.map_append, List.length_cons,
    List.map_singleton]
  split <;> rfl

theorem lineStarts_cons (c : CodePoint) (rest : Text) :
    lineStarts (c :: rest) =
      0 :: (if c = '\n' then lineStarts rest else (lineStarts rest).tail).map (· + 1) := by
  simp only [lineStarts, newlinesFrom, newlinesFrom_succ]
  split <;> rfl

/-- **Lines and their places.**  The lines of a text are what stands from where they begin to where
they end. -/
theorem lines_eq_zipWith (text : Text) :
    lines text = List.zipWith (fun start stop : Nat => text.slice start stop)
      (lineStarts text) (lineEnds text) := by
  simp only [slice_of_nat]
  induction text with
  | nil => rfl
  | cons c rest ih =>
      by_cases hc : c = '\n'
      · rw [lines, if_pos hc, lineStarts_cons, lineEnds_cons, if_pos hc, if_pos hc,
          List.singleton_append, List.zipWith_cons_cons, List.zipWith_map, ih]
        rfl
      · -- the first line goes on, and all others are one place further on
        obtain ⟨stop, stops, hends⟩ := List.exists_cons_of_ne_nil
          (List.append_ne_nil_of_right_ne_nil (newlinesFrom 0 rest)
            (List.cons_ne_nil rest.length []))
        have hstops : lineEnds rest = stop :: stops := hends
        rw [hstops, show lineStarts rest = 0 :: (lineStarts rest).tail from rfl,
          List.zipWith_cons_cons] at ih
        rw [lines_cons_of_ne hc ih, lineStarts_cons, lineEnds_cons, if_neg hc, if_neg hc, hstops,
          List.nil_append, List.map_cons, List.zipWith_cons_cons, List.zipWith_map]
        rfl

/-! ## From one newline to the next -/

/-- The lines are what stands between the places where lines begin and the next newline. -/
theorem lines_eq_map (text : Text) : lines text = (lineStarts text).map (lineFrom text) := by
  induction text with
  | nil => rfl
  | cons c rest ih =>
      by_cases hc : c = '\n'
      · rw [lines, if_pos hc, lineStarts_cons, if_pos hc, List.map_cons, List.map_map, ih,
          lineFrom_cons_zero, if_pos hc]
        rfl
      · -- the first line goes on, and all others are one place further on
        rw [show lineStarts rest = 0 :: (lineStarts rest).tail from rfl, List.map_cons] at ih
        rw [lines_cons_of_ne hc ih, lineStarts_cons, if_neg hc, List.map_cons, List.map_map,
          lineFrom_cons_zero, if_neg hc]
        rfl

/-- A line ends at the next newline from its beginning on, or with the text. -/
theorem lineEnds_eq_map (text : Text) :
    lineEnds text = (lineStarts text).map fun start => start + (lineFrom text start).length := by
  induction text with
  | nil => rfl
  | cons c rest ih =>
      by_cases hc : c = '\n'
      · rw [lineEnds_cons, if_pos hc, lineStarts_cons, if_pos hc, List.map_cons, List.map_map, ih,
          lineFrom_cons_zero, if_pos hc, List.map_map]
        refine congrArg (0 :: ·) (List.map_congr_left fun start _ => ?_)
        exact Nat.add_right_comm ..
      · rw [show lineStarts rest = 0 :: (lineStarts rest).tail from rfl, List.map_cons] at ih
        rw [lineEnds_cons, if_neg hc, lineStarts_cons, if_neg hc, List.map_cons, List.map_map, ih,
          lineFrom_cons_zero, if_neg hc, List.nil_append, List.map_cons, List.map_map]
        refine congrArg (_ :: ·) (List.map_congr_left fun start _ => ?_)
        exact Nat.add_right_comm ..

/-- What stands in a text from where a line begins to where it ends is the line. -/
theorem slice_lineFrom (text : Text) (start : Nat) :
    text.slice start (start + (lineFrom text start).length : Nat) = lineFrom text start := by
  rw [slice_of_nat, List.drop_take, Nat.add_sub_cancel_left]
  exact (List.prefix_iff_eq_take.mp (List.takeWhile_prefix _)).symm

/-- A line by its number, and where it begins and ends. -/
theorem exists_of_getElem?_lines {number : Nat} (hline : (lines text)[number]? = some line) :
    ∃ start, (lineStarts text)[number]? = some start ∧
      (lineEnds text)[number]? = some (start + line.length) ∧
      text.slice start (start + line.length : Nat) = line := by
  rw [lines_eq_map, List.getElem?_map] at hline
  obtain ⟨start, hstart, rfl⟩ := Option.map_eq_some_iff.mp hline
  refine ⟨start, hstart, ?_, slice_lineFrom text start⟩
  rw [lineEnds_eq_map, List.getElem?_map, hstart, Option.map_some]

theorem lineAt_succ {number : Nat} (hline : (lines text)[number]? = some line) :
    lineAt text (number + 1 : Nat) = line := by
  rw [lineAt, if_neg (by omega), show ((number + 1 : Nat) - 1 : Int).toNat = number by omega, hline]
  rfl

/-! ## The line of an offset -/

/-- The number of the line that an offset stands in: one more than the newlines in front of it. -/
def lineOf (text : Text) (offset : Nat) : Nat := (text.take offset).count (.char '\n') + 1

/-- What stands behind the last newline. -/
def lastLine (text : Text) : Text := List.rtakeWhile (fun c => c ≠ .char '\n') text

theorem lastLine_concat (text : Text) (c : CodePoint) :
    lastLine (text ++ [c]) = if c = '\n' then [] else lastLine text ++ [c] := by
  rw [lastLine, List.rtakeWhile_concat, ← lastLine]
  by_cases hc : c = '\n'
  · rw [if_pos hc, if_neg (by simp [hc])]
  · rw [if_neg hc, if_pos (decide_eq_true hc)]

/-- How many characters stand between the last newline in front of an offset and the offset. -/
def columnOf (text : Text) (offset : Nat) : Nat := (lastLine (text.take offset)).length

/-- The last line of a text is what stands behind its last newline, and each newline ends one of
the lines in front of it. -/
theorem exists_lines_eq_concat (text : Text) :
    ∃ init : List Text, init.length = text.count (.char '\n') ∧
      lines text = init ++ [lastLine text] := by
  induction text using List.reverseRecOn with
  | nil => exact ⟨[], rfl, rfl⟩
  | append_singleton text c ih =>
      obtain ⟨init, hlength, hlines⟩ := ih
      by_cases hc : c = '\n'
      · subst hc
        refine ⟨lines text, ?_, ?_⟩
        · rw [hlines, List.length_append, hlength, List.count_append]
          rfl
        · rw [lines_append_newline, lastLine_concat, if_pos rfl]
          rfl
      · have hlast : lines [c] = [[c]] :=
          lines_of_not_mem (mt List.mem_singleton.mp (Ne.symm hc))
        refine ⟨init, ?_, ?_⟩
        · rw [List.count_append, List.count_singleton, if_neg (by simpa using hc)]
          exact hlength
        · rw [lines_append_last hlines hlast, lastLine_concat, if_neg hc]

/-- The line of an offset goes from the last newline in front of it to behind a part without a
newline that begins at the offset. -/
theorem exists_getElem?_lines (front : Text) {middle : Text} (hnone : .char '\n' ∉ middle)
    (back : Text) :
    ∃ rest : Text, (lines (front ++ middle ++ back))[front.count (.char '\n')]? =
      some (lastLine front ++ middle ++ rest) := by
  obtain ⟨rest, others, hback⟩ := List.exists_cons_of_ne_nil (lines_ne_nil back)
  obtain ⟨init, hlength, hfront⟩ := exists_lines_eq_concat front
  have hmiddle : lines (middle ++ back) = (middle ++ rest) :: others :=
    lines_append_of_not_mem hnone hback
  refine ⟨rest, ?_⟩
  rw [List.append_assoc, lines_append_last hfront hmiddle, ← hlength, List.append_assoc]
  rw [List.getElem?_append_right (Nat.le_refl _), Nat.sub_self]
  rfl

end SyntaxRepair.Text
