import SyntaxRepair.Proofs.Text.Weaving

/-!
# Comments and what indenting keeps

A line is a comment if its first character that is no blank is a `#`, and a text is made of
comments if it consists of whole lines that are comments (`Text.Comments`).

* **Indenting.**  Lines end at a newline, but `Text.indent` cuts a text after any line break, so
  blanks may come into the middle of a line.  They are blanks all the same:
  `Text.solid` forgets them, and whether a line is a comment is read off what is left
  (`comments_indent`).
* **Fragments.**  A text inside of a comment may begin further lines itself.  Whether these are
  comments too is what `Text.Continued` says, and it goes through a text piece by piece
  (`continued_append`).
-/

namespace SyntaxRepair.Text

variable {text front back line : Text}

/-! ## The lines of two texts together -/

/-- The last line of a text and the first one of what follows become one line. -/
theorem exists_lines_append (front : Text) :
    ∃ init last, lines front = init ++ [last] ∧
      ∀ {back first : Text} {rest : List Text}, lines back = first :: rest →
        lines (front ++ back) = init ++ (last ++ first) :: rest := by
  induction front with
  | nil => exact ⟨[], [], rfl, id⟩
  | cons c front ih =>
      obtain ⟨init, last, hlines, happend⟩ := ih
      by_cases hc : c = '\n'
      · refine ⟨[] :: init, last, ?_, fun hback => ?_⟩
        · rw [lines, if_pos hc, hlines, List.cons_append]
        · rw [List.cons_append, lines, if_pos hc, happend hback, List.cons_append]
      · cases init with
        | nil =>
            exact ⟨[], c :: last, lines_cons_of_ne hc hlines,
              fun hback => lines_cons_of_ne hc (happend hback)⟩
        | cons line others =>
            exact ⟨(c :: line) :: others, last, lines_cons_of_ne hc hlines,
              fun hback => lines_cons_of_ne hc (happend hback)⟩

theorem lines_append_last {init rest : List Text} {back last first : Text}
    (hfront : lines front = init ++ [last]) (hback : lines back = first :: rest) :
    lines (front ++ back) = init ++ (last ++ first) :: rest := by
  obtain ⟨others, tail, hlines, happend⟩ := exists_lines_append front
  obtain ⟨rfl, hlast⟩ := List.append_inj' (hfront.symm.trans hlines) rfl
  rw [happend hback, List.singleton_inj.mp hlast]

/-- A text without a newline is one line. -/
theorem lines_of_not_mem (hnone : .char '\n' ∉ text) : lines text = [text] := by
  induction text with
  | nil => rfl
  | cons c rest ih =>
      obtain ⟨hc, hrest⟩ := not_or.mp (mt List.mem_cons.mpr hnone)
      exact lines_cons_of_ne (Ne.symm hc) (ih hrest)

/-- A text without a newline goes into the first line of what follows. -/
theorem lines_append_of_not_mem (hnone : .char '\n' ∉ front) {first : Text} {rest : List Text}
    (hback : lines back = first :: rest) : lines (front ++ back) = (front ++ first) :: rest := by
  have hfront : lines front = [] ++ [front] := lines_of_not_mem hnone
  exact lines_append_last hfront hback

/-- Characters that are left out leave the lines as they are if they are no newlines. -/
theorem lines_filter {keep : CodePoint → Bool} (hkeep : keep (.char '\n') = true) (text : Text) :
    lines (text.filter keep) = (lines text).map (List.filter keep) := by
  induction text with
  | nil => rfl
  | cons c rest ih =>
      by_cases hc : c = '\n'
      · rw [hc, List.filter_cons_of_pos hkeep, lines, if_pos rfl, ih, lines, if_pos rfl,
          List.map_cons, List.filter_nil]
      · obtain ⟨line, others, hlines⟩ := List.exists_cons_of_ne_nil (lines_ne_nil rest)
        rw [hlines, List.map_cons] at ih
        rw [lines_cons_of_ne hc hlines, List.map_cons]
        cases hkept : keep c with
        | true =>
            rw [List.filter_cons_of_pos hkept, lines_cons_of_ne hc ih,
              List.filter_cons_of_pos hkept]
        | false =>
            have hdropped : ¬ keep c = true := by rw [hkept]; exact Bool.false_ne_true
            rw [List.filter_cons_of_neg hdropped, ih, List.filter_cons_of_neg hdropped]

/-! ## Comments -/

/-- The first character of a line that is no blank. -/
def firstSolid? (line : Text) : Option CodePoint := line.find? fun c => !isBlank c

/-- A line whose first character that is no blank is a `#`. -/
def IsComment (line : Text) : Prop := line.firstSolid? = some (.char '#')

instance (line : Text) : Decidable line.IsComment := inferInstanceAs (Decidable (_ = _))

/-- A text of which every line with a newline is a comment. -/
def AllComments (text : Text) : Prop := ∀ line ∈ (lines text).dropLast, line.IsComment

instance (text : Text) : Decidable text.AllComments := inferInstanceAs (Decidable (∀ _ ∈ _, _))

/-- A text that consists of whole lines, all of them comments. -/
def Comments (text : Text) : Prop := text.WholeLines ∧ text.AllComments

/-- A text behind whose first line all lines are comments. -/
def Continued (text : Text) : Prop := ∀ line ∈ (lines text).tail, line.IsComment

instance (text : Text) : Decidable text.Continued := inferInstanceAs (Decidable (∀ _ ∈ _, _))

theorem firstSolid?_append (front back : Text) :
    firstSolid? (front ++ back) = front.firstSolid?.or back.firstSolid? :=
  List.find?_append

theorem isComment_append_of_some {c : CodePoint} (hfront : front.firstSolid? = some c) :
    IsComment (front ++ back) ↔ c = .char '#' := by
  rw [IsComment, firstSolid?_append, hfront, Option.some_or, Option.some.injEq]

theorem not_mem_spaces (depth : Int) : .char '\n' ∉ spaces depth :=
  fun hmem => absurd (List.eq_of_mem_replicate hmem) (by decide)

/-- An indent does not decide whether a line is a comment. -/
theorem firstSolid?_spaces (depth : Int) : firstSolid? (spaces depth) = none := by
  rw [firstSolid?, List.find?_eq_none]
  intro c hmem
  rw [List.eq_of_mem_replicate hmem]
  decide

/-- A text of one line is continued by nothing. -/
theorem continued_of_not_mem (hnone : .char '\n' ∉ text) : text.Continued := by
  rw [Continued, lines_of_not_mem hnone]
  exact List.forall_mem_nil _

/-- A text that is put together around a part of one line is continued by comments exactly if its
two sides are, as long as that part does not make a comment itself. -/
theorem continued_append {middle : Text} (hnone : .char '\n' ∉ middle) {c : CodePoint}
    (hmiddle : middle.firstSolid? = some c) (hc : c ≠ .char '#') :
    Continued (front ++ (middle ++ back)) ↔ front.Continued ∧ back.Continued := by
  obtain ⟨init, last, hfront, happend⟩ := exists_lines_append front
  obtain ⟨first, rest, hback⟩ := List.exists_cons_of_ne_nil (lines_ne_nil back)
  have hlines := happend (lines_append_of_not_mem hnone hback)
  -- the line around the middle is a comment exactly if it was one in front of it
  have hline : IsComment (last ++ (middle ++ first)) ↔ last.IsComment := by
    cases hlast : last.firstSolid? with
    | some found =>
        rw [isComment_append_of_some hlast, IsComment, hlast, Option.some.injEq]
    | none =>
        rw [IsComment, firstSolid?_append, firstSolid?_append, hlast, hmiddle, IsComment, hlast]
        exact iff_of_false (fun heq => hc (Option.some.inj heq)) (by simp)
  rw [Continued, Continued, Continued, hlines, hfront, hback]
  cases init with
  | nil => simp
  | cons line others =>
      simp only [List.cons_append, List.tail_cons, List.forall_mem_append, List.forall_mem_cons,
        List.not_mem_nil, false_implies, implies_true, true_and, hline, and_assoc]

/-- A comment with a text inside is made of comments exactly if that text is continued by
comments. -/
theorem comments_of_fragment (hnone : .char '\n' ∉ front)
    (hfront : front.firstSolid? = some (.char '#')) :
    Comments (front ++ text ++ "\n") ↔ text.Continued := by
  obtain ⟨first, rest, hlines⟩ := List.exists_cons_of_ne_nil (lines_ne_nil text)
  have hwhole : WholeLines (front ++ text ++ "\n") := Or.inr ⟨front ++ text, rfl⟩
  have hlast : lines (front ++ text ++ "\n") = (front ++ first) :: rest ++ [[]] := by
    rw [← lines_append_of_not_mem hnone hlines]
    exact lines_append_newline (front ++ text) []
  rw [Comments, and_iff_right hwhole, AllComments, hlast, List.dropLast_concat,
    List.forall_mem_cons, and_iff_right ((isComment_append_of_some hfront).mpr rfl), Continued,
    hlines, List.tail_cons]

/-- Texts of whole lines are made of comments together exactly if each of them is. -/
theorem comments_flatten {texts : List Text} (hwhole : ∀ text ∈ texts, text.WholeLines) :
    Comments texts.flatten ↔ ∀ text ∈ texts, text.Comments := by
  rw [Comments, and_iff_right (WholeLines.flatten hwhole)]
  induction texts with
  | nil => simp [AllComments, lines]
  | cons first rest ih =>
      obtain ⟨hfirst, hrest⟩ := List.forall_mem_cons.mp hwhole
      obtain ⟨front, -, hlines⟩ := hfirst.exists_lines_append
      have halone : lines first = front ++ [[]] := by
        rw [← List.append_nil first, hlines]
        rfl
      rw [List.forall_mem_cons, ← ih hrest, Comments, and_iff_right hfirst, AllComments,
        AllComments, AllComments, List.flatten_cons, hlines, halone, List.dropLast_concat,
        List.dropLast_append_of_ne_nil (lines_ne_nil _), List.forall_mem_append]

/-! ## Indenting -/

theorem flatten_pieces (text : Text) : (pieces text).flatten = text := by
  fun_induction pieces text with
  | case1 => rfl
  | case2 rest ih => rw [List.flatten_cons, ih]; rfl
  | case3 c rest _ hbreak ih => rw [List.flatten_cons, ih]; rfl
  | case4 c rest _ hbreak hnone ih => rw [← ih, hnone]; rfl
  | case5 c rest _ hbreak piece others hsome ih => rw [← ih, hsome]; rfl

theorem pieces_ne_nil (htext : text ≠ []) : pieces text ≠ [] := by
  intro hnone
  rw [← flatten_pieces text, hnone] at htext
  exact htext rfl

theorem ne_nil_of_mem_pieces {piece : Text} (hmem : piece ∈ pieces text) : piece ≠ [] := by
  fun_induction pieces text generalizing piece with
  | case1 => cases hmem
  | case2 rest ih =>
      rcases List.mem_cons.mp hmem with rfl | hrest
      · exact List.cons_ne_nil _ _
      · exact ih hrest
  | case3 c rest _ hbreak ih =>
      rcases List.mem_cons.mp hmem with rfl | hrest
      · exact List.cons_ne_nil _ _
      · exact ih hrest
  | case4 c rest _ hbreak hnone ih =>
      rw [List.mem_singleton.mp hmem]
      exact List.cons_ne_nil _ _
  | case5 c rest _ hbreak piece others hsome ih =>
      rcases List.mem_cons.mp hmem with rfl | hrest
      · exact List.cons_ne_nil _ _
      · exact ih (hsome ▸ List.mem_cons_of_mem _ hrest)

/-- A character begins its piece, unless it is a carriage return with a newline behind it. -/
theorem pieces_cons {c : CodePoint} {rest : Text}
    (halone : c = .char '\r' → rest.head? ≠ some (.char '\n')) :
    pieces (c :: rest) =
      if isLineBreak c then [c] :: pieces rest
      else
        match pieces rest with
        | [] => [[c]]
        | piece :: others => (c :: piece) :: others := by
  refine pieces.eq_3 c rest fun behind hreturn hnewline => halone hreturn ?_
  rw [hnewline]
  rfl

/-- Behind a newline a new piece begins. -/
theorem pieces_append_newline (front back : Text) :
    pieces (front ++ .char '\n' :: back) =
      pieces (front ++ [.char '\n']) ++ pieces back := by
  induction front using pieces.induct with
  | case1 => rfl
  | case2 rest ih =>
      rw [List.cons_append, List.cons_append, pieces, ih]
      rfl
  | case3 c rest hno hbreak ih | case4 c rest hno hbreak hpieces ih
  | case5 c rest hno hbreak piece others hpieces ih =>
      by_cases hreturn : c = '\r' ∧ rest = []
      · -- the newline belongs to the carriage return in front of it
        obtain ⟨rfl, rfl⟩ := hreturn
        rfl
      · have halone : ∀ behind : Text, c = .char '\r' →
            (rest ++ .char '\n' :: behind).head? ≠ some (.char '\n') := by
          intro behind hc
          obtain ⟨d, rest', rfl⟩ := List.exists_cons_of_ne_nil fun hnil => hreturn ⟨hc, hnil⟩
          rw [List.cons_append, List.head?_cons]
          exact fun hd => hno rest' hc (by rw [Option.some.inj hd])
        obtain ⟨first, others, hnewline⟩ := List.exists_cons_of_ne_nil
          (pieces_ne_nil
            (List.append_ne_nil_of_right_ne_nil rest (List.cons_ne_nil (.char '\n') [])))
        rw [List.cons_append, List.cons_append, pieces_cons (halone back), pieces_cons (halone []),
          ih]
        split
        · rfl
        · rw [hnewline]
          rfl

/-- A piece behind its indent. -/
def indentPiece (depth : Int) (piece : Text) : Text :=
  if piece.all (· = '\n') then piece else spaces depth ++ piece

theorem indent_eq_flatMap {depth : Int} (hdepth : 0 < depth) (text : Text) :
    text.indent depth = (pieces text).flatMap (indentPiece depth) := by
  rw [indent, if_neg (Int.not_le.mpr hdepth)]
  rfl

/-- Whole lines are indented by themselves. -/
theorem WholeLines.indent_append (hwhole : front.WholeLines) (back : Text) (depth : Int) :
    (front ++ back).indent depth = front.indent depth ++ back.indent depth := by
  by_cases hdepth : depth ≤ 0
  · rw [indent, indent, indent, if_pos hdepth, if_pos hdepth, if_pos hdepth]
  · have hpositive := Int.not_le.mp hdepth
    rw [indent_eq_flatMap hpositive, indent_eq_flatMap hpositive, indent_eq_flatMap hpositive,
      ← List.flatMap_append]
    rcases hwhole with rfl | ⟨init, rfl⟩
    · rfl
    · rw [List.append_assoc, ← pieces_append_newline]
      rfl

theorem exists_pieces_append (hfront : front ≠ []) (hbreak : ∀ c ∈ front, isLineBreak c = false)
    (back : Text) : ∃ piece others, pieces (front ++ back) = (front ++ piece) :: others := by
  induction front with
  | nil => exact absurd rfl hfront
  | cons c rest ih =>
      obtain ⟨hc, hrest⟩ := List.forall_mem_cons.mp hbreak
      have halone : c = .char '\r' → (rest ++ back).head? ≠ some (.char '\n') := by
        rintro rfl
        cases hc
      rw [List.cons_append, pieces_cons halone, if_neg (by rw [hc]; exact Bool.false_ne_true)]
      by_cases hlast : rest = []
      · rw [hlast, List.nil_append]
        cases pieces back with
        | nil => exact ⟨[], [], rfl⟩
        | cons piece others => exact ⟨piece, others, rfl⟩
      · obtain ⟨piece, others, hpieces⟩ := ih hlast hrest
        rw [hpieces]
        exact ⟨piece, others, rfl⟩

/-- A word at the beginning of a text stands behind the indent. -/
theorem exists_indent_append (c : CodePoint) (word : Text) (hc : c ≠ '\n')
    (hbreak : ∀ d ∈ c :: word, isLineBreak d = false) (back : Text) (depth : Int) :
    ∃ rest, indent (c :: word ++ back) depth = spaces depth ++ (c :: word) ++ rest := by
  by_cases hdepth : depth ≤ 0
  · rw [indent, if_pos hdepth, spaces, Int.toNat_of_nonpos hdepth]
    exact ⟨back, rfl⟩
  · obtain ⟨piece, others, hpieces⟩ := exists_pieces_append (List.cons_ne_nil c word) hbreak back
    have hsolid : ((c :: word ++ piece).all (· = '\n')) = false := by
      rw [List.cons_append, List.all_cons, decide_eq_false hc, Bool.false_and]
    rw [indent_eq_flatMap (Int.not_le.mp hdepth), hpieces, List.flatMap_cons, indentPiece, hsolid,
      if_neg Bool.false_ne_true, ← List.append_assoc, List.append_assoc (_ ++ _)]
    exact ⟨_, rfl⟩

/-- Whole lines stay whole. -/
theorem WholeLines.indent (hwhole : text.WholeLines) (depth : Int) :
    WholeLines (text.indent depth) := by
  by_cases hdepth : depth ≤ 0
  · rw [Text.indent, if_pos hdepth]
    exact hwhole
  · rw [indent_eq_flatMap (Int.not_le.mp hdepth)]
    rcases hwhole with rfl | ⟨init, rfl⟩
    · exact Or.inl rfl
    · -- the last piece ends in the newline, and so does what it is indented to
      obtain ⟨others, last, hpieces⟩ := (List.eq_nil_or_concat (pieces (init ++ [.char '\n'])))
        |>.resolve_left (pieces_ne_nil (List.append_ne_nil_of_right_ne_nil init (by simp)))
      rw [List.concat_eq_append] at hpieces
      obtain ⟨front, c, rfl⟩ := (List.eq_nil_or_concat last).resolve_left
        (ne_nil_of_mem_pieces (hpieces ▸ List.mem_concat_self))
      rw [List.concat_eq_append] at hpieces
      have hflatten := flatten_pieces (init ++ [.char '\n'])
      rw [hpieces, List.flatten_concat, ← List.append_assoc] at hflatten
      obtain ⟨-, hnewline⟩ := List.append_inj' hflatten rfl
      cases hnewline
      rw [hpieces, List.flatMap_append, List.flatMap_singleton, indentPiece]
      split
      · exact Or.inr ⟨_, (List.append_assoc ..).symm⟩
      · rw [← List.append_assoc, ← List.append_assoc]
        exact Or.inr ⟨_, rfl⟩

/-! ## What indenting does not change -/

/-- The characters of a text that are no blanks, and its newlines. -/
def solid (text : Text) : Text := text.filter fun c => c = '\n' || !isBlank c

theorem isComment_solid (line : Text) : line.solid.IsComment ↔ line.IsComment := by
  have hsame : (fun c : CodePoint => decide (((decide (c = '\n') || !isBlank c) = true) ∧
      (!isBlank c) = true)) = fun c => !isBlank c := by
    funext c
    cases isBlank c <;> simp
  rw [IsComment, IsComment, firstSolid?, firstSolid?, solid, List.find?_filter, hsame]

theorem lines_solid (text : Text) : lines text.solid = (lines text).map solid :=
  lines_filter (by decide) text

theorem solid_spaces (depth : Int) : solid (spaces depth) = [] := by
  rw [solid, List.filter_eq_nil_iff]
  intro c hmem
  rw [List.eq_of_mem_replicate hmem]
  decide

/-- Indenting adds nothing but blanks. -/
theorem solid_indent (text : Text) (depth : Int) : (text.indent depth).solid = text.solid := by
  by_cases hdepth : depth ≤ 0
  · rw [indent, if_pos hdepth]
  · have hpiece : ∀ piece : Text, (indentPiece depth piece).solid = piece.solid := by
      intro piece
      rw [indentPiece]
      split
      · rfl
      · rw [solid, List.filter_append]
        exact congrArg (· ++ piece.solid) (solid_spaces depth)
    have hpieces : ∀ pieces : List Text,
        solid (pieces.flatMap (indentPiece depth)) = solid pieces.flatten := by
      intro pieces
      induction pieces with
      | nil => rfl
      | cons piece others ih =>
          rw [List.flatMap_cons, List.flatten_cons, solid, List.filter_append, solid,
            List.filter_append]
          exact (congrArg (· ++ _) (hpiece piece)).trans (congrArg (piece.solid ++ ·) ih)
    rw [indent_eq_flatMap (Int.not_le.mp hdepth), hpieces, flatten_pieces]

/-- **Comments stay comments.**  Whole lines are made of comments exactly if they are behind their
indent. -/
theorem comments_indent (hwhole : text.WholeLines) (depth : Int) :
    Comments (text.indent depth) ↔ text.Comments := by
  rw [Comments, Comments, and_iff_right hwhole, and_iff_right (hwhole.indent depth)]
  -- the lines of both are the same but for blanks
  have hlines : (lines (text.indent depth)).map solid = (lines text).map solid := by
    rw [← lines_solid, ← lines_solid, solid_indent]
  have hall : ∀ other : Text, other.AllComments ↔
      ∀ line ∈ ((lines other).map solid).dropLast, line.IsComment := by
    intro other
    rw [← List.map_dropLast, List.forall_mem_map]
    exact forall₂_congr fun line _ => (isComment_solid line).symm
  rw [hall, hall, hlines]

end SyntaxRepair.Text
