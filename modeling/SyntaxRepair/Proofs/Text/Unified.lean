import SyntaxRepair.Repair.Pass
import SyntaxRepair.Proofs.Tables
import SyntaxRepair.Proofs.Overload.NewNames
import SyntaxRepair.Proofs.Text.Comments

/-!
# Texts with one kind of line end

A text is unified if there is no carriage return in it.  What is read from a file is unified, and a
unified text is read as it is (`Text.unifyNewlines_of_unified`).  Parts of unified texts are
unified, and so is what is put together from them and from what a repair writes itself: marks,
numbers and spaces.
-/

namespace SyntaxRepair

namespace Text

/-- No line of the text ends with a carriage return, nor is there one in a line. -/
def Unified (text : Text) : Prop := .char '\r' ∉ text

instance (text : Text) : Decidable text.Unified := inferInstanceAs (Decidable (_ ∉ _))

variable {text front back part : Text}

@[simp] theorem unified_nil : Unified [] := List.not_mem_nil

@[simp] theorem unified_cons {c : CodePoint} {rest : Text} :
    Unified (c :: rest) ↔ c ≠ '\r' ∧ rest.Unified := by
  rw [Unified, List.mem_cons, not_or, ne_comm]
  exact Iff.rfl

/-! ## Reading -/

theorem unified_unifyNewlines (text : Text) : text.unifyNewlines.Unified := by
  fun_induction unifyNewlines text with
  | case1 => exact unified_nil
  | case2 rest ih => exact unified_cons.mpr ⟨by decide, ih⟩
  | case3 c rest _ ih =>
      split
      · exact unified_cons.mpr ⟨by decide, ih⟩
      · next hother => exact unified_cons.mpr ⟨hother, ih⟩

theorem unifyNewlines_of_unified (h : text.Unified) : text.unifyNewlines = text := by
  fun_induction unifyNewlines text with
  | case1 => rfl
  | case2 rest ih => exact absurd rfl (unified_cons.mp h).1
  | case3 c rest _ ih =>
      obtain ⟨hfirst, hrest⟩ := unified_cons.mp h
      rw [if_neg hfirst, ih hrest]

/-! ## Parts and wholes -/

/-- Parts of a unified text are unified. -/
theorem Unified.of_subset (h : text.Unified) (hpart : part ⊆ text) : part.Unified :=
  fun hmem => h (hpart hmem)

@[simp] theorem unified_append : (front ++ back).Unified ↔ front.Unified ∧ back.Unified := by
  rw [Unified, List.mem_append, not_or]
  exact Iff.rfl

theorem Unified.append (hfront : front.Unified) (hback : back.Unified) :
    (front ++ back).Unified :=
  unified_append.mpr ⟨hfront, hback⟩

theorem unified_flatten {texts : List Text} :
    Unified texts.flatten ↔ ∀ text ∈ texts, text.Unified := by
  simp only [Unified, List.mem_flatten, not_exists, not_and]

theorem unified_join {separator : Text} {texts : List Text} (hseparator : separator.Unified)
    (htexts : ∀ text ∈ texts, text.Unified) : (join separator texts).Unified := by
  fun_induction join separator texts with
  | case1 => exact unified_nil
  | case2 text => exact htexts text (List.mem_singleton_self text)
  | case3 text next rest ih =>
      obtain ⟨hfirst, hrest⟩ := List.forall_mem_cons.mp htexts
      exact (hfirst.append hseparator).append (ih hrest)

theorem unified_spaces (depth : Int) : (spaces depth).Unified :=
  fun hmem => by simpa using List.eq_of_mem_replicate hmem

theorem Unified.slice (h : text.Unified) (start stop : Int) : (text.slice start stop).Unified :=
  h.of_subset fun _ hmem => List.mem_of_mem_take (List.mem_of_mem_drop hmem)

theorem Unified.splice (h : text.Unified) (start stop : Int) (hinserted : part.Unified) :
    (text.splice start stop part).Unified := by
  have hfront := h.of_subset (List.take_subset (position text.length start) text)
  have hback := h.of_subset (List.drop_subset (position text.length stop) text)
  exact (hfront.append hinserted).append hback

theorem Unified.indent (h : text.Unified) (depth : Int) : (text.indent depth).Unified := by
  by_cases hdepth : depth ≤ 0
  · rw [Text.indent, if_pos hdepth]
    exact h
  · have hpieces : ∀ piece ∈ pieces text, Unified piece := by
      rw [← unified_flatten, flatten_pieces]
      exact h
    rw [indent_eq_flatMap (Int.not_le.mp hdepth), List.flatMap_def, unified_flatten]
    refine List.forall_mem_map.mpr fun piece hmem => ?_
    rw [indentPiece]
    split
    · exact hpieces piece hmem
    · exact (unified_spaces depth).append (hpieces piece hmem)

theorem Unified.indentBy {indented : Text} {depth : Json.Number} (h : text.Unified)
    (hindent : text.indentBy depth = .ok indented) : indented.Unified := by
  rw [Text.indentBy] at hindent
  split at hindent
  · obtain ⟨count, -, hcount⟩ := except_bind_eq_ok.mp hindent
    obtain rfl := Except.ok.inj hcount
    exact h.indent count
  · obtain rfl := Except.ok.inj hindent
    exact h

end Text

/-! ## What a repair writes -/

theorem dropMarker_subset (text : Text) : dropMarker text ⊆ text := by
  unfold dropMarker
  split
  · next rest hmarked =>
    intro c hmem
    have hrest : c ∈ text.reverse.dropWhile Text.isBlank := by
      rw [hmarked]
      have hbehind := List.dropWhile_subset Text.isBlank (List.mem_reverse.mp hmem)
      exact List.mem_cons_of_mem _ (List.mem_cons_of_mem _ hbehind)
    exact List.mem_reverse.mp (List.dropWhile_subset Text.isBlank hrest)
  · exact List.Subset.refl text

namespace NameTable

/-- All stems of a table are unified. -/
def Unified (table : NameTable) : Prop := ∀ entry ∈ table, Text.Unified entry.2

variable {table : NameTable} {name : Text}

theorem Unified.stem (h : table.Unified) (hname : name.Unified) : (table.stem name).Unified := by
  rw [NameTable.stem]
  cases hlookup : table.lookup name with
  | none => exact hname
  | some stem =>
      exact h (name, stem) (Table.mem_of_lookup hlookup)

theorem Unified.rename (h : table.Unified) (hname : name.Unified) (ordinal : Nat) :
    (table.rename name ordinal).Unified := by
  rw [rename_eq]
  refine ((h.stem hname).append (by decide)).append fun hmem => ?_
  obtain ⟨digit, hdigit, heq⟩ := List.mem_map.mp hmem
  have hisDigit := Nat.isDigit_of_mem_toDigits (by decide) (by decide) hdigit
  rw [CodePoint.char.inj heq] at hisDigit
  exact absurd hisDigit (by decide)

/-- The text of a dispatcher is unified, if its name and its types are. -/
theorem Unified.dispatcherText (h : table.Unified) (hname : name.Unified)
    {overloads : List (List Text)} (htypes : ∀ types ∈ overloads, ∀ type ∈ types, type.Unified) :
    (dispatcherText table name overloads).Unified := by
  have hlist : ∀ types ∈ overloads, (typeList types).Unified := fun types hmem =>
    Text.unified_join (by decide) (htypes types hmem)
  have hlines : Text.Unified (overloads.mapIdx signatureLine).flatten := by
    refine Text.unified_flatten.mpr fun line hline => ?_
    obtain ⟨ordinal, hordinal, rfl⟩ := List.mem_mapIdx.mp hline
    have hstart : Text.Unified (Text.ofString (if ordinal = 0 then "# @rbs" else "#    |")) := by
      split <;> decide
    simp only [signatureLine, Text.unified_append]
    exact ⟨⟨⟨hstart, by decide⟩, hlist _ (List.getElem_mem hordinal)⟩, by decide⟩
  have hclauses : Text.Unified (overloads.mapIdx (clause table name)).flatten := by
    refine Text.unified_flatten.mpr fun line hline => ?_
    obtain ⟨ordinal, hordinal, rfl⟩ := List.mem_mapIdx.mp hline
    simp only [clause, Text.unified_append]
    exact ⟨⟨⟨⟨by decide, hlist _ (List.getElem_mem hordinal)⟩, by decide⟩, h.rename hname ordinal⟩,
      by decide⟩
  simp only [SyntaxRepair.dispatcherText, Text.unified_append]
  exact ⟨⟨⟨⟨⟨hlines, by decide⟩, hname⟩, by decide⟩, hclauses⟩, by decide⟩

end NameTable

end SyntaxRepair
