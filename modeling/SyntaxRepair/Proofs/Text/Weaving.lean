import SyntaxRepair.Proofs.Text.LineStarts

/-!
# Weaving lines into a text

A text is woven with what is added in front of each of its offsets.  The order in which the
additions are made does not show any more: all that is known of them is what stands in front of
each offset.

If only whole lines are added, and only where lines begin, then the lines of the text are lines
of the woven text, in their order (`Text.lines_sublist_weave`).
-/

namespace SyntaxRepair.Text

/-! ## Weaving -/

/-- A text that begins at `offset` and ends where it ends, with `added` in front of each of its
offsets. -/
def weaveFrom (added : Nat → Text) (offset : Nat) : Text → Text
  | [] => added offset
  | c :: rest => added offset ++ c :: weaveFrom added (offset + 1) rest

/-- A text with `added` in front of each of its offsets, its end among them. -/
def weave (added : Nat → Text) (text : Text) : Text := weaveFrom added 0 text

variable {added other : Nat → Text} {text : Text}

/-- Where nothing is added the text goes on as it is. -/
theorem weaveFrom_append {front : Text} {offset : Nat}
    (hnone : ∀ place, offset ≤ place → place < offset + front.length → added place = [])
    (back : Text) :
    weaveFrom added offset (front ++ back) =
      front ++ weaveFrom added (offset + front.length) back := by
  induction front generalizing offset with
  | nil => rfl
  | cons c front ih =>
      rw [List.length_cons] at hnone ⊢
      have hrest := @ih (offset + 1) fun place hle hlt => hnone place (by omega) (by omega)
      rw [List.cons_append, weaveFrom, hnone offset (Nat.le_refl _) (by omega), hrest,
        List.nil_append, List.cons_append, Nat.add_assoc, Nat.add_comm 1]

theorem weaveFrom_of_eq_nil {offset : Nat} (hnone : ∀ place, offset ≤ place → added place = []) :
    weaveFrom added offset text = text := by
  have hfront := @weaveFrom_append added text offset (fun place hle _ => hnone place hle) []
  rw [List.append_nil] at hfront
  rw [hfront, weaveFrom, hnone _ (Nat.le_add_right ..), List.append_nil]

/-- What is added first in front of the first offset stands in front of the rest. -/
theorem weaveFrom_eq_append {first : Text} {offset : Nat}
    (hfirst : added offset = first ++ other offset)
    (hrest : ∀ place, offset < place → added place = other place) :
    weaveFrom added offset text = first ++ weaveFrom other offset text := by
  have hlater : ∀ (rest : Text) (start : Nat), offset < start →
      weaveFrom added start rest = weaveFrom other start rest := by
    intro rest
    induction rest with
    | nil => exact fun start hlt => hrest start hlt
    | cons c rest ih =>
        intro start hlt
        rw [weaveFrom, weaveFrom, hrest start hlt, ih (start + 1) (by omega)]
  cases text with
  | nil => exact hfirst
  | cons c rest =>
      rw [weaveFrom, weaveFrom, hfirst, hlater rest _ (Nat.lt_succ_self _), List.append_assoc]

/-! ## Lines -/

/-- A text that consists of whole lines, each with its newline. -/
def WholeLines (text : Text) : Prop :=
  text = [] ∨ ∃ front : Text, text = front ++ [CodePoint.char '\n']

theorem lines_ne_nil (text : Text) : text.lines ≠ [] := by
  cases text with
  | nil => exact List.cons_ne_nil _ _
  | cons c rest =>
      unfold lines
      split
      · exact List.cons_ne_nil _ _
      · split <;> exact List.cons_ne_nil _ _

theorem lines_cons_of_ne {c : CodePoint} (hc : c ≠ '\n') {line : Text} {others : List Text}
    (h : text.lines = line :: others) : lines (c :: text) = (c :: line) :: others := by
  rw [lines, if_neg hc, h]

/-- A newline ends a line, and the next one begins behind it. -/
theorem lines_append_newline (front back : Text) :
    lines (front ++ .char '\n' :: back) = lines front ++ lines back := by
  induction front with
  | nil => rfl
  | cons c front ih =>
      by_cases hc : c = '\n'
      · rw [List.cons_append, lines, if_pos hc, ih, lines, if_pos hc, List.cons_append]
      · obtain ⟨line, others, hlines⟩ := List.exists_cons_of_ne_nil (lines_ne_nil front)
        rw [hlines, List.cons_append] at ih
        rw [List.cons_append, lines_cons_of_ne hc ih, lines_cons_of_ne hc hlines, List.cons_append]

/-- Whole lines in front of a text are lines in front of its lines. -/
theorem WholeLines.exists_lines_append (hwhole : text.WholeLines) :
    ∃ front : List Text, (text = [] → front = []) ∧
      ∀ rest : Text, lines (text ++ rest) = front ++ lines rest := by
  rcases hwhole with rfl | ⟨front, rfl⟩
  · exact ⟨[], fun _ => rfl, fun rest => rfl⟩
  · refine ⟨lines front, fun hnone => absurd hnone (by simp), fun rest => ?_⟩
    rw [List.append_assoc]
    exact lines_append_newline front rest

theorem WholeLines.append {first second : Text} (hfirst : first.WholeLines)
    (hsecond : second.WholeLines) : (first ++ second).WholeLines := by
  rcases hsecond with rfl | ⟨front, rfl⟩
  · rw [List.append_nil]
    exact hfirst
  · exact Or.inr ⟨first ++ front, (List.append_assoc ..).symm⟩

theorem WholeLines.flatten {texts : List Text} (hwhole : ∀ text ∈ texts, text.WholeLines) :
    WholeLines texts.flatten := by
  induction texts with
  | nil => exact Or.inl rfl
  | cons first rest ih =>
      rw [List.forall_mem_cons] at hwhole
      exact hwhole.1.append (ih hwhole.2)

/-- The lines of a text that is woven with whole lines begin with lines that are added, and go
on with the first line of the text. -/
theorem lines_weaveFrom (hwhole : ∀ place, WholeLines (added place)) {offset : Nat}
    (hstarts : ∀ (place : Nat) (c : CodePoint), text[place]? = some c → c ≠ '\n' →
      added (offset + place + 1) = []) :
    ∃ (line : Text) (others woven front : List Text), text.lines = line :: others ∧
      lines (weaveFrom added offset text) = front ++ line :: woven ∧ others.Sublist woven ∧
      (added offset = [] → front = []) := by
  -- that nothing added means no line in front is what a line needs to go on behind its first
  -- character
  induction text generalizing offset with
  | nil =>
      obtain ⟨front, hnone, hfront⟩ := (hwhole offset).exists_lines_append
      have hadded := hfront []
      rw [List.append_nil] at hadded
      exact ⟨[], [], [], front, rfl, hadded, List.Sublist.refl _, hnone⟩
  | cons c rest ih =>
      obtain ⟨line, others, woven, between, hlines, hwoven, hsublist, hbetween⟩ :=
        @ih (offset + 1) fun place c hc hne => by
          rw [Nat.add_assoc offset, Nat.add_comm 1]
          exact hstarts (place + 1) c hc hne
      obtain ⟨front, hnone, hfront⟩ := (hwhole offset).exists_lines_append
      rw [weaveFrom, hfront]
      by_cases hc : c = '\n'
      · -- the line ends here, and the next one stands behind what is added at its beginning
        refine ⟨[], line :: others, between ++ line :: woven, front, ?_, ?_, ?_, hnone⟩
        · rw [lines, if_pos hc, hlines]
        · rw [lines, if_pos hc, hwoven]
        · exact (hsublist.cons_cons line).trans (List.sublist_append_right ..)
      · -- the line goes on, so nothing is added behind this character
        have hnothing : added (offset + 1) = [] := hstarts 0 c rfl hc
        rw [hbetween hnothing, List.nil_append] at hwoven
        refine ⟨c :: line, others, woven, front, lines_cons_of_ne hc hlines, ?_, hsublist, hnone⟩
        rw [lines_cons_of_ne hc hwoven]

/-- **Whole lines.**  If whole lines are added where lines begin, and nothing elsewhere, every
line of the text is a line of the woven text, in its order. -/
theorem lines_sublist_weave (hwhole : ∀ place, WholeLines (added place))
    (hstarts : ∀ place, added place ≠ [] → place ∈ text.lineStarts) :
    text.lines.Sublist (weave added text).lines := by
  -- a line begins behind newlines only
  have hnothing : ∀ (place : Nat) (c : CodePoint), text[place]? = some c → c ≠ '\n' →
      added (0 + place + 1) = [] := by
    intro place c hc hne
    refine Classical.byContradiction fun hadded => ?_
    rcases mem_lineStarts.mp (hstarts _ hadded) with hzero | ⟨newline, hnewline, hplace⟩
    · omega
    · have hsame : newline = place := by omega
      rw [hsame, hc] at hnewline
      exact hne (Option.some.inj hnewline)
  obtain ⟨line, others, woven, front, hlines, hwoven, hsublist, -⟩ :=
    lines_weaveFrom hwhole hnothing
  rw [weave, hlines, hwoven]
  exact (hsublist.cons_cons line).trans (List.sublist_append_right ..)

end SyntaxRepair.Text
