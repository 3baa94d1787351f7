import SyntaxRepair.Proofs.Overload.NewNames
import SyntaxRepair.Proofs.Settings.Format
import SyntaxRepair.Proofs.Text.Lines

/-!
# New names under settings

A new name is a stem, the word `__overload` and a number.  A stem of the settings is an identifier,
with or without a newline behind it, so the lines of a new name are identifiers; the whole name is
one exactly if there is no newline (`Settings.isIdentifier_rename_iff`).
-/

namespace SyntaxRepair.Settings

open Json (Value)

variable {value : Value} {settings : Settings} {name stem word rest : Text} {c : CodePoint}

/-! ## Identifiers -/

theorem isNameRest_of_isNameStart (h : isNameStart c = true) : isNameRest c = true := by
  obtain ⟨char, rfl, hchar⟩ : ∃ char, c = .char char ∧ (char.isAlpha || char = '_') = true := by
    cases c with
    | char char => exact ⟨char, rfl, h⟩
    | half _ => cases h
  show (char.isAlphanum || char = '_') = true
  rcases Bool.or_eq_true_iff.mp hchar with halpha | hscore
  · simp [Char.isAlphanum, halpha]
  · simp [hscore]

theorem isIdentifier_append (hword : isIdentifier word = true)
    (hrest : rest.all isNameRest = true) : isIdentifier (word ++ rest) = true := by
  cases word with
  | nil => cases hword
  | cons c more =>
      obtain ⟨hstart, hmore⟩ := Bool.and_eq_true_iff.mp hword
      show (isNameStart c && (more ++ rest).all isNameRest) = true
      rw [hstart, List.all_append, hmore, hrest]
      rfl

theorem newline_not_mem (h : isIdentifier word = true) : .char '\n' ∉ word := by
  cases word with
  | nil => exact List.not_mem_nil
  | cons c more =>
      obtain ⟨hstart, hmore⟩ := Bool.and_eq_true_iff.mp h
      intro hmem
      have hnewline : isNameRest (.char '\n') = true := by
        rcases List.mem_cons.mp hmem with rfl | hmem
        · exact isNameRest_of_isNameStart hstart
        · exact List.all_eq_true.mp hmore _ hmem
      exact absurd hnewline (by decide)

theorem all_isNameRest_digits (ordinal : Nat) :
    ((Nat.toDigits 10 ordinal).map CodePoint.char).all isNameRest = true := by
  rw [List.all_map, List.all_eq_true]
  intro digit hdigit
  have hisDigit := Nat.isDigit_of_mem_toDigits (by decide) (by decide) hdigit
  show (digit.isAlphanum || digit = '_') = true
  rw [Char.isAlphanum, hisDigit, Bool.or_true, Bool.true_or]

/-- What stands behind the stem of a new name. -/
def numbered (ordinal : Nat) : Text :=
  "__overload" ++ (Nat.toDigits 10 ordinal).map CodePoint.char

theorem isIdentifier_numbered (ordinal : Nat) : isIdentifier (numbered ordinal) = true :=
  isIdentifier_append (by decide) (all_isNameRest_digits ordinal)

theorem isIdentifier_append_numbered (hword : isIdentifier word = true) (ordinal : Nat) :
    isIdentifier (word ++ numbered ordinal) = true := by
  refine isIdentifier_append hword ?_
  rw [numbered, List.all_append, all_isNameRest_digits]
  rfl

/-! ## Stems with numbers -/

theorem stem_numbered_iff (hstem : IsStem stem) (ordinal : Nat) :
    isIdentifier (stem ++ numbered ordinal) = true ↔ stem.getLast? ≠ some (.char '\n') := by
  obtain ⟨word, hword, rfl | rfl⟩ := hstem
  · refine iff_of_true (isIdentifier_append_numbered hword ordinal) fun hlast => ?_
    exact newline_not_mem hword (List.mem_of_getLast? hlast)
  · refine iff_of_false (fun hname => newline_not_mem hname ?_) fun hlast => ?_
    · exact List.mem_append_left _ (List.mem_append_right _ (List.mem_singleton_self _))
    · exact hlast List.getLast?_concat

/-- A newline parts a new name into two identifiers. -/
theorem lines_stem_numbered (hstem : IsStem stem) (ordinal : Nat) :
    ∀ line ∈ (stem ++ numbered ordinal).lines, isIdentifier line = true := by
  obtain ⟨word, hword, rfl | rfl⟩ := hstem
  · have hname := isIdentifier_append_numbered hword ordinal
    rw [Text.lines_of_not_mem (newline_not_mem hname)]
    exact List.forall_mem_singleton.mpr hname
  · have hnumbered := isIdentifier_numbered ordinal
    have hlines : (word ++ "\n" ++ numbered ordinal).lines = [word, numbered ordinal] :=
      calc (word ++ "\n" ++ numbered ordinal).lines
          = (word ++ .char '\n' :: numbered ordinal).lines := by rw [List.append_assoc]; rfl
        _ = word.lines ++ (numbered ordinal).lines := Text.lines_append_newline _ _
        _ = [word, numbered ordinal] := by
            rw [Text.lines_of_not_mem (newline_not_mem hword),
              Text.lines_of_not_mem (newline_not_mem hnumbered)]
            rfl
    rw [hlines]
    exact List.forall_mem_cons.mpr ⟨hword, List.forall_mem_singleton.mpr hnumbered⟩

/-! ## New names -/

/-- The stem of a name in the settings is that of the document, or the one that is there by
default. -/
theorem stem_of_mem_names (h : IsSettings value)
    (hname : name ∈ (read value).names.map Prod.fst) :
    IsStem ((read value).names.stem name) ∧
      ((read value).names.stem name ∈ stemOf? value name ∨
        stemOf? value name = none ∧ (read value).names.stem name = "_mul") := by
  obtain ⟨stem, hlookup⟩ := Table.exists_lookup_of_mem hname
  have hstem : (read value).names.stem name = stem := by rw [NameTable.stem, hlookup]; rfl
  rw [hstem]
  rw [lookup_names h, Option.or_eq_some_iff] at hlookup
  rcases hlookup with hgiven | ⟨hnone, hdefault⟩
  · exact ⟨isStem_of_stemOf? h hgiven, .inl hgiven⟩
  · have hmul : stem = "_mul" :=
      congrArg Prod.snd (List.mem_singleton.mp (Table.mem_of_lookup hdefault))
    exact ⟨⟨"_mul", by decide, .inl hmul⟩, .inr ⟨hnone, hmul⟩⟩

/-- A new name is an identifier exactly if the document has no stem for its name that ends with a
newline.  In any case its lines are identifiers. -/
theorem isIdentifier_rename_iff (h : ofValue value = .ok settings)
    (hname : name ∈ settings.names.map Prod.fst) (ordinal : Nat) :
    (isIdentifier (settings.names.rename name ordinal) = true ↔
      ∀ stem ∈ stemOf? value name, stem.getLast? ≠ some (.char '\n')) ∧
    ∀ line ∈ (settings.names.rename name ordinal).lines, isIdentifier line = true := by
  obtain ⟨hformat, -, rfl⟩ := ofValue_eq_ok_iff.mp h
  obtain ⟨hstem, horigin⟩ := stem_of_mem_names hformat hname
  have hrename : (read value).names.rename name ordinal =
      (read value).names.stem name ++ numbered ordinal := by
    rw [NameTable.rename_eq, numbered, List.append_assoc]
  rw [hrename]
  refine ⟨(stem_numbered_iff hstem ordinal).trans ?_, lines_stem_numbered hstem ordinal⟩
  rcases horigin with hgiven | ⟨hnone, hmul⟩
  · rw [hgiven]
    simp
  · rw [hnone, hmul]
    exact iff_of_true (by decide) (by simp)

/-- A newline behind one stem is not in the new names with another. -/
theorem isIdentifier_rename_iff_plus :
    let value : Value := .object [("overload_names",
      .object [("+", .string "_plus"), ("*", .string "_times\n"), ("[]", .string "at")])]
    let settings : Settings := { names := [("*", "_times\n"), ("+", "_plus"), ("[]", "at")] }
    ofValue value = .ok settings ∧ Text.ofString "+" ∈ settings.names.map Prod.fst ∧
      (isIdentifier (settings.names.rename "+" 12) = true ↔
        ∀ stem ∈ stemOf? value "+", stem.getLast? ≠ some (.char '\n')) ∧
      ∀ line ∈ (settings.names.rename "+" 12).lines, isIdentifier line = true :=
  ⟨by decide +kernel, by decide, isIdentifier_rename_iff (by decide +kernel) (by decide) 12⟩

/-- The form of a stem allows a newline at its end, and the new name has it inside. -/
theorem rename_broken :
    ofValue (.object [("overload_names", .object [("*", .string "_mul\n")])]) =
        .ok { names := [("*", "_mul\n")] } ∧
      NameTable.rename [("*", "_mul\n")] "*" 0 = "_mul\n__overload0" ∧
      isIdentifier "_mul\n__overload0" = false :=
  ⟨by decide +kernel, by decide, by decide⟩

end SyntaxRepair.Settings
