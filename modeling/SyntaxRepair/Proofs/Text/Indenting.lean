import SyntaxRepair.Proofs.Overload.NewNames
import SyntaxRepair.Proofs.Text.Lines

/-!
# Indenting line by line

`Text.indent` cuts a text after any line break, and lines end at a newline.  Told character by
character (`indentFrom`), it puts spaces in front of every character that begins a piece and is
no newline.  So each line is indented by itself (`lines_indent`), and within a line spaces stand
behind each line break that has something behind it (`indent_line_eq_iff`).

A text is therefore indented line by line, with nothing changed inside of a line, exactly if there
is no line break in the interior of its lines (`indent_by_lines_iff`).  For a dispatcher this is a
matter of its name, of the stem and of its types: what is written around them has newlines alone.
-/

namespace SyntaxRepair

namespace Text

variable {text front back line : Text} {depth : Int}

/-! ## Character by character -/

/-- What indenting makes of a text from a place on; `opening` tells whether a piece begins
there. -/
def indentFrom (depth : Int) : Bool → Text → Text
  | _, [] => []
  | opening, c :: rest =>
    (if opening && c ≠ '\n' then spaces depth else []) ++ c :: indentFrom depth (isLineBreak c) rest

theorem ne_newline_of_not_isLineBreak {c : CodePoint} (hbreak : ¬ isLineBreak c = true) :
    c ≠ '\n' := by
  rintro rfl
  exact hbreak (by decide)

/-- The indented pieces character by character, and the same without an indent in front of the
first piece. -/
theorem flatMap_indentPiece (depth : Int) (text : Text) :
    (pieces text).flatMap (indentPiece depth) = indentFrom depth true text ∧
      ∀ piece others, pieces text = piece :: others →
        piece ++ others.flatMap (indentPiece depth) = indentFrom depth false text := by
  induction text using pieces.induct with
  | case1 => exact ⟨rfl, fun piece others hpieces => by cases hpieces⟩
  | case2 rest ih =>
      constructor
      · rw [pieces, List.flatMap_cons, ih.1, indentPiece, if_neg (by decide)]
        simp [indentFrom, isLineBreak]
      · rintro piece others hpieces
        obtain ⟨rfl, rfl⟩ := List.cons.inj (pieces.eq_2 rest ▸ hpieces)
        rw [ih.1]
        simp [indentFrom, isLineBreak]
  | case3 c rest hno hbreak ih =>
      have hpieces : pieces (c :: rest) = [c] :: pieces rest := by
        rw [pieces.eq_3 c rest hno, if_pos hbreak]
      constructor
      · rw [hpieces, List.flatMap_cons, ih.1, indentFrom, hbreak]
        by_cases hc : c = '\n' <;> simp [indentPiece, hc]
      · intro piece others hsplit
        obtain ⟨rfl, rfl⟩ := List.cons.inj (hpieces ▸ hsplit)
        rw [ih.1, indentFrom, hbreak]
        simp
  | case4 c rest hno hbreak hnil ih =>
      have hpieces : pieces (c :: rest) = [[c]] := by
        rw [pieces.eq_3 c rest hno, if_neg hbreak, hnil]
      have hc : c ≠ '\n' := ne_newline_of_not_isLineBreak hbreak
      obtain rfl : rest = [] := by rw [← flatten_pieces rest, hnil, List.flatten_nil]
      constructor
      · rw [hpieces]
        simp [indentFrom, indentPiece, hc]
      · intro piece others hsplit
        obtain ⟨rfl, rfl⟩ := List.cons.inj (hpieces ▸ hsplit)
        rfl
  | case5 c rest hno hbreak first later hfirst ih =>
      have hpieces : pieces (c :: rest) = (c :: first) :: later := by
        rw [pieces.eq_3 c rest hno, if_neg hbreak, hfirst]
      have hc : c ≠ '\n' := ne_newline_of_not_isLineBreak hbreak
      -- the first piece of the rest goes on with this character, so nothing opens behind it
      have hrest := ih.2 first later hfirst
      rw [Bool.not_eq_true] at hbreak
      constructor
      · rw [hpieces, List.flatMap_cons, indentFrom, hbreak, ← hrest]
        simp [indentPiece, hc]
      · intro piece others hsplit
        obtain ⟨rfl, rfl⟩ := List.cons.inj (hpieces ▸ hsplit)
        rw [indentFrom, hbreak, ← hrest]
        simp

theorem indent_eq_indentFrom (hdepth : 0 < depth) (text : Text) :
    text.indent depth = indentFrom depth true text := by
  rw [indent_eq_flatMap hdepth, (flatMap_indentPiece depth text).1]

/-- Indenting leaves the characters of a text in place and adds nothing but spaces. -/
theorem mem_indentFrom {opening : Bool} {c : CodePoint} (hmem : c ∈ indentFrom depth opening text) :
    c ∈ text ∨ c = ' ' := by
  induction text generalizing opening with
  | nil => cases hmem
  | cons d rest ih =>
      rw [indentFrom, List.mem_append, List.mem_cons] at hmem
      rcases hmem with hspace | rfl | hrest
      · split at hspace
        · exact .inr (List.eq_of_mem_replicate hspace)
        · cases hspace
      · exact .inl (List.mem_cons_self ..)
      · exact (ih hrest).imp_left (List.mem_cons_of_mem _)

theorem length_le_indentFrom (depth : Int) (opening : Bool) (text : Text) :
    text.length ≤ (indentFrom depth opening text).length := by
  induction text generalizing opening with
  | nil => exact Nat.le_refl 0
  | cons c rest ih =>
      have hrest := ih (isLineBreak c)
      simp only [indentFrom, List.length_append, List.length_cons]
      omega

/-! ## Line by line -/

theorem indentFrom_append_newline (depth : Int) (opening : Bool) (front back : Text) :
    indentFrom depth opening (front ++ .char '\n' :: back) =
      indentFrom depth opening front ++ .char '\n' :: indentFrom depth true back := by
  induction front generalizing opening with
  | nil => simp [indentFrom, isLineBreak]
  | cons c front ih => simp only [List.cons_append, indentFrom, ih, List.append_assoc]

/-- A newline stays, and what stands on its two sides is indented by itself. -/
theorem indent_append_newline (front back : Text) (depth : Int) :
    (front ++ .char '\n' :: back).indent depth =
      front.indent depth ++ .char '\n' :: back.indent depth := by
  by_cases hdepth : 0 < depth
  · simp only [indent_eq_indentFrom hdepth, indentFrom_append_newline]
  · simp [indent, Int.not_lt.mp hdepth]

theorem not_mem_indent (hnone : .char '\n' ∉ text) (depth : Int) :
    .char '\n' ∉ text.indent depth := by
  by_cases hdepth : 0 < depth
  · rw [indent_eq_indentFrom hdepth]
    intro hmem
    rcases mem_indentFrom hmem with htext | hspace
    · exact hnone htext
    · exact absurd hspace (by decide)
  · rwa [indent, if_pos (Int.not_lt.mp hdepth)]

theorem indent_join (parts : List Text) (depth : Int) :
    (join "\n" parts).indent depth = join "\n" (parts.map (·.indent depth)) := by
  induction parts with
  | nil => simp [join, indent, pieces]
  | cons first rest ih =>
      cases rest with
      | nil => rfl
      | cons next others =>
          calc (join "\n" (first :: next :: others)).indent depth
              = (first ++ .char '\n' :: join "\n" (next :: others)).indent depth := by
                rw [join_cons_of_ne_nil (List.cons_ne_nil _ _), List.append_assoc]
                rfl
            _ = first.indent depth ++ .char '\n' :: (join "\n" (next :: others)).indent depth :=
                indent_append_newline first _ depth
            _ = join "\n" ((first :: next :: others).map (·.indent depth)) := by
                rw [ih, List.append_cons]
                rfl

/-- **Line by line.**  Each line of a text is indented by itself. -/
theorem lines_indent (text : Text) (depth : Int) :
    (text.indent depth).lines = text.lines.map (·.indent depth) := by
  have hnone : ∀ line ∈ text.lines.map (·.indent depth), .char '\n' ∉ line := by
    rw [List.forall_mem_map]
    intro line hmem
    exact not_mem_indent (not_mem_of_mem_lines hmem) depth
  calc (text.indent depth).lines
      = ((join "\n" text.lines).indent depth).lines := by rw [join_lines]
    _ = (join "\n" (text.lines.map (·.indent depth))).lines := by rw [indent_join]
    _ = text.lines.map (·.indent depth) := lines_join (by simpa using lines_ne_nil text) hnone

/-! ## One line -/

/-- A line behind spaces, unless it is empty. -/
def indentLine (depth : Int) (line : Text) : Text :=
  if line = [] then [] else spaces depth ++ line

/-- The pieces of a line, each behind spaces. -/
theorem indent_line_eq_flatMap (hdepth : 0 < depth) (hnone : .char '\n' ∉ line) :
    line.indent depth = (pieces line).flatMap (spaces depth ++ ·) := by
  rw [indent_eq_flatMap hdepth]
  refine List.flatMap_congr fun piece hmem => ?_
  have hpiece : .char '\n' ∉ piece := fun hnewline =>
    hnone (flatten_pieces line ▸ List.mem_flatten.mpr ⟨piece, hmem, hnewline⟩)
  obtain ⟨c, rest, rfl⟩ := List.exists_cons_of_ne_nil (ne_nil_of_mem_pieces hmem)
  have hc : c ≠ '\n' := fun heq => hpiece (heq ▸ List.mem_cons_self ..)
  simp [indentPiece, hc]

/-- Behind its first character a line stays as it is exactly if no line break is in its
interior. -/
theorem indentFrom_false_eq_iff (hdepth : 0 < depth) {c : CodePoint}
    (hnone : .char '\n' ∉ line) :
    indentFrom depth (isLineBreak c) line = line ↔
      ∀ d ∈ (c :: line).dropLast, isLineBreak d = false := by
  induction line generalizing c with
  | nil => simp [indentFrom]
  | cons d rest ih =>
      obtain ⟨hd, hrest⟩ := not_or.mp (mt List.mem_cons.mpr hnone)
      rw [List.dropLast_cons_of_ne_nil (List.cons_ne_nil d rest), List.forall_mem_cons,
        ← ih hrest, indentFrom]
      cases hbreak : isLineBreak c with
      | false => simp
      | true =>
          -- the spaces make the text longer
          have hlonger := length_le_indentFrom depth (isLineBreak d) rest
          refine iff_of_false (fun heq => ?_) (by simp)
          have hlength := congrArg List.length heq
          simp only [Bool.true_and, ne_eq, Ne.symm hd, not_false_eq_true, decide_true, if_true,
            List.length_append, List.length_cons, spaces, List.length_replicate] at hlength
          omega

/-- A line is put behind spaces as it is exactly if no line break is in its interior. -/
theorem indent_line_eq_iff (hdepth : 0 < depth) (hnone : .char '\n' ∉ line) :
    line.indent depth = indentLine depth line ↔
      ∀ c ∈ line.dropLast, isLineBreak c = false := by
  cases line with
  | nil => simp [indent, pieces, indentLine]
  | cons c rest =>
      obtain ⟨hc, hrest⟩ := not_or.mp (mt List.mem_cons.mpr hnone)
      rw [← indentFrom_false_eq_iff hdepth hrest, indent_eq_indentFrom hdepth, indentFrom,
        indentLine, if_neg (List.cons_ne_nil c rest)]
      simp [Ne.symm hc]

/-- A text is indented line by line exactly if no line break is in the interior of a line. -/
theorem indent_eq_join_iff (hdepth : 0 < depth) (text : Text) :
    text.indent depth = join "\n" (text.lines.map (indentLine depth)) ↔
      ∀ line ∈ text.lines, ∀ c ∈ line.dropLast, isLineBreak c = false := by
  have hnone : ∀ line ∈ text.lines.map (indentLine depth), .char '\n' ∉ line := by
    rw [List.forall_mem_map]
    intro line hmem
    rw [indentLine]
    split
    · exact List.not_mem_nil
    · rw [List.mem_append, not_or]
      exact ⟨not_mem_spaces depth, not_mem_of_mem_lines hmem⟩
  calc text.indent depth = join "\n" (text.lines.map (indentLine depth))
      ↔ text.lines.map (·.indent depth) = text.lines.map (indentLine depth) := by
        rw [← lines_indent]
        constructor
        · intro heq
          rw [heq, lines_join (by simpa using lines_ne_nil text) hnone]
        · intro heq
          rw [← heq, join_lines]
    _ ↔ ∀ line ∈ text.lines, line.indent depth = indentLine depth line := List.map_inj_left
    _ ↔ ∀ line ∈ text.lines, ∀ c ∈ line.dropLast, isLineBreak c = false :=
        forall₂_congr fun line hmem => indent_line_eq_iff hdepth (not_mem_of_mem_lines hmem)

/-! ## Texts with newlines alone -/

/-- A text each line break of which is a newline or has one behind it. -/
def Newlined : Text → Prop
  | [] => True
  | c :: rest => (isLineBreak c = true → c = '\n' ∨ rest.head? = some (.char '\n')) ∧ Newlined rest

instance decidableNewlined : (text : Text) → Decidable text.Newlined
  | [] => inferInstanceAs (Decidable True)
  | _ :: rest =>
    have := decidableNewlined rest
    inferInstanceAs (Decidable (_ ∧ _))

/-- No line break is in the interior of a line exactly if the whole lines are newlined. -/
theorem newlined_append_newline_iff (text : Text) :
    Newlined (text ++ "\n") ↔ ∀ line ∈ text.lines, ∀ c ∈ line.dropLast, isLineBreak c = false := by
  induction text with
  | nil => simp [lines]; decide
  | cons c rest ih =>
      obtain ⟨line, others, hlines⟩ := List.exists_cons_of_ne_nil (lines_ne_nil rest)
      rw [List.cons_append, Newlined, ih]
      by_cases hc : c = '\n'
      · rw [lines, if_pos hc]
        simp [hc]
      · rw [lines_cons_of_ne hc hlines, hlines, List.forall_mem_cons, List.forall_mem_cons,
          ← and_assoc, or_iff_right hc]
        refine and_congr_left' ?_
        cases rest with
        | nil =>
            obtain ⟨rfl, rfl⟩ := List.cons.inj hlines
            have hhead : List.head? (ofString "\n") = some (.char '\n') := rfl
            simp [hhead]
        | cons d rest =>
            by_cases hd : d = '\n'
            · rw [lines, if_pos hd] at hlines
              obtain ⟨rfl, rfl⟩ := List.cons.inj hlines
              simp [hd]
            · obtain ⟨first, later, hrest⟩ := List.exists_cons_of_ne_nil (lines_ne_nil rest)
              rw [lines_cons_of_ne hd hrest] at hlines
              obtain ⟨rfl, rfl⟩ := List.cons.inj hlines
              rw [List.dropLast_cons_of_ne_nil (List.cons_ne_nil d first), List.forall_mem_cons]
              simp [hd]

/-- Parts of a text can be looked at one by one where no line break comes to stand in front of a
newline: the first part ends in none but a newline, or the second one does not begin with one. -/
theorem newlined_append
    (h : (∀ c ∈ front.getLast?, isLineBreak c = true → c = '\n') ∨
      back.head? ≠ some (.char '\n')) :
    Newlined (front ++ back) ↔ front.Newlined ∧ back.Newlined := by
  induction front with
  | nil => simp [Newlined]
  | cons c rest ih =>
      cases rest with
      | nil =>
          rw [List.singleton_append, Newlined, Newlined, Newlined, and_iff_left trivial]
          refine and_congr_left' (imp_congr_right fun hbreak => ?_)
          rcases h with hlast | hhead
          · simp [hlast c rfl hbreak]
          · simp [hhead]
      | cons d rest =>
          rw [List.cons_append, Newlined, ih (by simpa using h), ← and_assoc]
          rfl

/-- What stands on the two sides of a text that begins with no newline and ends in no other line
break. -/
theorem newlined_around {middle : Text} {c : CodePoint} (hfirst : middle.head? = some c)
    (hc : c ≠ '\n') (hlast : ∀ d ∈ middle.getLast?, isLineBreak d = true → d = '\n')
    (hmiddle : middle.Newlined) :
    Newlined (front ++ (middle ++ back)) ↔ front.Newlined ∧ back.Newlined := by
  have hhead : (middle ++ back).head? ≠ some (.char '\n') := by
    rw [List.head?_append, hfirst, Option.some_or]
    exact fun heq => hc (Option.some.inj heq)
  rw [newlined_append (.inr hhead), newlined_append (.inl hlast), and_iff_right hmiddle]

theorem newlined_of_forall (h : ∀ c ∈ text, isLineBreak c = false) : text.Newlined := by
  induction text with
  | nil => trivial
  | cons c rest ih =>
      obtain ⟨hc, hrest⟩ := List.forall_mem_cons.mp h
      exact ⟨fun hbreak => by simp [hc] at hbreak, ih hrest⟩

theorem WholeLines.getLast?_eq (hwhole : front.WholeLines) :
    ∀ c ∈ front.getLast?, isLineBreak c = true → c = '\n' := by
  intro c hlast _
  rcases hwhole with rfl | ⟨init, rfl⟩
  · cases hlast
  · rw [List.getLast?_concat] at hlast
    exact (Option.some.inj hlast).symm

theorem newlined_flatten {texts : List Text} (hwhole : ∀ text ∈ texts, text.WholeLines) :
    Newlined texts.flatten ↔ ∀ text ∈ texts, text.Newlined := by
  induction texts with
  | nil => simp [Newlined]
  | cons first rest ih =>
      obtain ⟨hfirst, hrest⟩ := List.forall_mem_cons.mp hwhole
      rw [List.flatten_cons, newlined_append (.inl hfirst.getLast?_eq), ih hrest,
        List.forall_mem_cons]

end Text

/-! ## Dispatchers -/

open Text

theorem newlined_typeList (types : List Text) :
    (typeList types).Newlined ↔ ∀ type ∈ types, type.Newlined := by
  induction types with
  | nil => exact iff_of_true trivial (List.forall_mem_nil _)
  | cons type rest ih =>
      cases rest with
      | nil => rw [List.forall_mem_singleton]; rfl
      | cons next rest =>
          rw [List.forall_mem_cons, ← ih, typeList, join, List.append_assoc]
          exact newlined_around (c := .char ',') (by decide) (by decide) (by decide) (by decide)

theorem newlined_signatureLine (ordinal : Nat) (types : List Text) :
    (signatureLine ordinal types).Newlined ↔ ∀ type ∈ types, type.Newlined := by
  have hstart : Newlined (ofString (if ordinal = 0 then "# @rbs" else "#    |")) := by
    split <;> decide
  have hline : signatureLine ordinal types =
      (if ordinal = 0 then "# @rbs" else "#    |") ++
        (" (" ++ (typeList types ++ (") -> untyped\n" ++ ([] : Text)))) := by
    simp only [signatureLine, List.append_assoc, List.append_nil]
  rw [hline, newlined_around (c := .char ' ') (by decide) (by decide) (by decide) (by decide),
    newlined_around (c := .char ')') (by decide) (by decide) (by decide) (by decide),
    newlined_typeList]
  simp [hstart, Newlined]

theorem newlined_rename (table : NameTable) (name : Text) (ordinal : Nat) :
    (table.rename name ordinal).Newlined ↔ (table.stem name).Newlined := by
  have hdigits : Newlined ((Nat.toDigits 10 ordinal).map CodePoint.char) := by
    refine newlined_of_forall fun c hmem => ?_
    obtain ⟨digit, hdigit, rfl⟩ := List.mem_map.mp hmem
    have hisDigit := Nat.isDigit_of_mem_toDigits (by decide) (by decide) hdigit
    obtain ⟨hlow, hhigh⟩ : 48 ≤ digit.toNat ∧ digit.toNat ≤ 57 := Char.isDigit_iff_toNat.mp hisDigit
    grind [isLineBreak, CodePoint.toNat_char]
  rw [NameTable.rename_eq, List.append_assoc,
    newlined_around (c := .char '_') (by decide) (by decide) (by decide) (by decide),
    and_iff_left hdigits]

theorem newlined_clause (table : NameTable) (name : Text) (ordinal : Nat) (types : List Text) :
    (clause table name ordinal types).Newlined ↔
      (table.stem name).Newlined ∧ ∀ type ∈ types, type.Newlined := by
  have hclause : clause table name ordinal types =
      ([] : Text) ++ ("  in [" ++ (typeList types ++ ("]\n    " ++ (table.rename name ordinal ++
        ("(*args)\n" ++ ([] : Text)))))) := by
    simp only [clause, List.append_assoc, List.append_nil, List.nil_append]
  rw [hclause, newlined_around (c := .char ' ') (by decide) (by decide) (by decide) (by decide),
    newlined_around (c := .char ']') (by decide) (by decide) (by decide) (by decide),
    newlined_around (c := .char '(') (by decide) (by decide) (by decide) (by decide),
    newlined_typeList, newlined_rename]
  simp only [Newlined, true_and, and_true]
  exact and_comm

/-- A line for each of some items, numbered from zero on. -/
theorem newlined_mapIdx {α : Type} {line : Nat → α → Text} {good : α → Prop}
    (hwhole : ∀ ordinal item, (line ordinal item).WholeLines)
    (hline : ∀ ordinal item, (line ordinal item).Newlined ↔ good item) (items : List α) :
    WholeLines (items.mapIdx line).flatten ∧
      (Newlined (items.mapIdx line).flatten ↔ ∀ item ∈ items, good item) := by
  have hlines : ∀ text ∈ items.mapIdx line, text.WholeLines := by
    intro text hmem
    obtain ⟨ordinal, hlt, rfl⟩ := List.mem_mapIdx.mp hmem
    exact hwhole ordinal _
  refine ⟨WholeLines.flatten hlines, ?_⟩
  rw [newlined_flatten hlines]
  constructor
  · intro hall item hmem
    obtain ⟨ordinal, hlt, rfl⟩ := List.mem_iff_getElem.mp hmem
    exact (hline ordinal _).mp (hall _ (List.mem_mapIdx.mpr ⟨ordinal, hlt, rfl⟩))
  · intro hall text hmem
    obtain ⟨ordinal, hlt, rfl⟩ := List.mem_mapIdx.mp hmem
    exact (hline ordinal _).mpr (hall _ (List.getElem_mem hlt))

/-- What is written around the name, the stem and the types of a dispatcher has newlines alone. -/
theorem newlined_dispatcherText (table : NameTable) (name : Text) (overloads : List (List Text)) :
    Newlined (dispatcherText table name overloads ++ "\n") ↔
      name.Newlined ∧
        ∀ types ∈ overloads, (table.stem name).Newlined ∧ ∀ type ∈ types, type.Newlined := by
  have hsignatures : ∀ ordinal types, (signatureLine ordinal types).WholeLines := by
    intro ordinal types
    refine .inr (List.getLast?_eq_some_iff.mp ?_)
    rw [signatureLine, List.getLast?_append]
    rfl
  have hcalls : ∀ ordinal types, (clause table name ordinal types).WholeLines := by
    intro ordinal types
    refine .inr (List.getLast?_eq_some_iff.mp ?_)
    rw [clause, List.getLast?_append]
    rfl
  obtain ⟨-, hlines⟩ := newlined_mapIdx hsignatures newlined_signatureLine overloads
  obtain ⟨hwhole, hclauses⟩ := newlined_mapIdx hcalls (newlined_clause table name) overloads
  have htext : dispatcherText table name overloads ++ "\n" =
      (overloads.mapIdx signatureLine).flatten ++ ("def " ++ (name ++ ("(*args)\n  case args\n" ++
        ((overloads.mapIdx (clause table name)).flatten ++ ("  end\nend\n\n" ++ "\n"))))) := by
    simp only [dispatcherText, List.append_assoc]
  rw [htext, newlined_around (c := .char 'd') (by decide) (by decide) (by decide) (by decide),
    newlined_around (c := .char '(') (by decide) (by decide) (by decide) (by decide),
    newlined_append (.inl hwhole.getLast?_eq), hlines, hclauses,
    and_iff_left (show Newlined ("  end\nend\n\n" ++ "\n") by decide)]
  constructor
  · rintro ⟨-, hname, hparts⟩
    exact ⟨hname, hparts⟩
  · rintro ⟨hname, hparts⟩
    exact ⟨fun types hmem => (hparts types hmem).2, hname, hparts⟩

/-- **Indenting and lines.**  The lines of a text are what stands from where they begin to where
they end, and each of them is indented by itself: its pieces are put behind spaces.  That is the
line behind spaces as it was, unless it is empty, for all lines exactly if no line break is in the
interior of one.  For a dispatcher this is so exactly if each line break in its name, its stem and
its types is a newline or has one behind it. -/
theorem Text.indent_by_lines_iff {depth : Int} (hdepth : 0 < depth) (text : Text) :
    text.lines = List.zipWith (fun start stop : Nat => text.slice start stop)
        text.lineStarts text.lineEnds ∧
      (text.indent depth).lines =
        text.lines.map (fun line => line.pieces.flatMap (spaces depth ++ ·)) ∧
      (text.indent depth = join "\n" (text.lines.map (indentLine depth)) ↔
        ∀ line ∈ text.lines, ∀ c ∈ line.dropLast, isLineBreak c = false) ∧
      ∀ (table : NameTable) (name : Text) (overloads : List (List Text)),
        (dispatcherText table name overloads).indent depth =
            join "\n" ((dispatcherText table name overloads).lines.map (indentLine depth)) ↔
          name.Newlined ∧
            ∀ types ∈ overloads, (table.stem name).Newlined ∧ ∀ type ∈ types, type.Newlined := by
  refine ⟨lines_eq_zipWith text, ?_, indent_eq_join_iff hdepth text, ?_⟩
  · rw [lines_indent]
    refine List.map_congr_left fun line hmem => ?_
    exact indent_line_eq_flatMap hdepth (not_mem_of_mem_lines hmem)
  · intro table name overloads
    rw [indent_eq_join_iff hdepth, ← newlined_append_newline_iff]
    exact newlined_dispatcherText table name overloads

/-- A carriage return in front of a newline and a form feed at the end are in no interior. -/
theorem Text.indent_by_lines_iff_form_feed :
    0 < (2 : Int) ∧
      indent "a\r\n\nb\x0c" 2 = join "\n" ((lines "a\r\n\nb\x0c").map (indentLine 2)) := by
  obtain ⟨-, -, hlines, -⟩ := indent_by_lines_iff (by decide : (0 : Int) < 2) "a\r\n\nb\x0c"
  exact ⟨by decide, hlines.mpr (by decide)⟩

/-- A type that is a string with a line separator in it becomes another string when its dispatcher
is indented. -/
theorem Text.indent_line_separator :
    indent (dispatcherText [] "f" [["'x\u2028y'"], ["A"]]) 2 =
        "  # @rbs ('x\u2028  y') -> untyped\n  #    | (A) -> untyped\n  def f(*args)\n" ++
          "    case args\n    in ['x\u2028  y']\n      f__overload0(*args)\n    in [A]\n" ++
          "      f__overload1(*args)\n    end\n  end\n\n" ∧
      indent (dispatcherText [] "f" [["'x\u2028y'"], ["A"]]) 2 ≠
        join "\n" ((lines (dispatcherText [] "f" [["'x\u2028y'"], ["A"]])).map (indentLine 2)) := by
  decide +kernel

end SyntaxRepair
