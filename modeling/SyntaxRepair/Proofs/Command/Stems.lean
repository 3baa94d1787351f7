import SyntaxRepair.Proofs.Command.Setups
import SyntaxRepair.Proofs.Settings.Format
import SyntaxRepair.Proofs.Text.Unified

/-!
# The stems of the settings

A stem in the settings is an identifier, with or without a newline behind it, and so are those of
the default table.  Hence a repair writes no carriage return with a new name, whatever setup it has
(`Command.unified_names_of_setupOf`).
-/

namespace SyntaxRepair

open Json (Value)

namespace Settings

theorem unified_of_isIdentifier {text : Text} (h : isIdentifier text = true) : text.Unified := by
  cases text with
  | nil => exact Text.unified_nil
  | cons c rest =>
      obtain ⟨hstart, hrest⟩ := Bool.and_eq_true_iff.mp h
      refine Text.unified_cons.mpr ⟨?_, fun hmem => ?_⟩
      · rintro rfl
        exact absurd hstart (by decide)
      · exact absurd (List.all_eq_true.mp hrest _ hmem) (by decide)

/-- Stems have no carriage return in them. -/
theorem unified_of_isStem {text : Text} (h : IsStem text) : text.Unified := by
  obtain ⟨word, hword, rfl | rfl⟩ := h
  · exact unified_of_isIdentifier hword
  · exact (unified_of_isIdentifier hword).append (by decide)

theorem unified_addName {table : NameTable} {name stem : Text} (h : table.Unified)
    (hstem : stem.Unified) : NameTable.Unified (addName table name stem) := by
  unfold addName
  split
  · refine List.forall_mem_map.mpr fun entry hmem => ?_
    split
    · exact hstem
    · exact h entry hmem
  · exact List.forall_mem_append.mpr ⟨h, List.forall_mem_singleton.mpr hstem⟩

theorem unified_default : NameTable.default.Unified := by
  unfold NameTable.Unified
  decide

theorem unified_of_ofValue {value : Value} {settings : Settings}
    (h : ofValue value = .ok settings) : settings.names.Unified := by
  obtain ⟨hformat, -, rfl⟩ := ofValue_eq_ok_iff.mp h
  refine readNames_induct unified_default fun members hmember name stem hmem table htable => ?_
  obtain ⟨_, hsame, hstems⟩ := hformat.names _ hmember
  cases hsame
  obtain ⟨held, hheld, hform⟩ := hstems _ hmem
  cases hheld
  exact unified_addName htable (unified_of_isStem hform)

end Settings

namespace Command

variable {σ : Type}

/-- Whatever the arguments ask for, the stems of the setup are unified. -/
theorem unified_names_of_setupOf {arguments : Arguments} {world : World σ} {setup : Setup}
    (h : ((setupOf arguments).start world).1 = .ok setup) : setup.settings.names.Unified := by
  obtain ⟨settings, hreads, hsetup⟩ := fst_setupOf_eq_ok.mp h
  have hnames : settings.names.Unified := by
    unfold Arguments.Reads at hreads
    split at hreads
    · obtain ⟨text, value, -, -, hvalue⟩ := hreads
      exact Settings.unified_of_ofValue hvalue
    · rw [hreads]
      exact Settings.unified_default
  have hsame : setup.settings = arguments.override settings := by
    rw [Setup.ofSettings] at hsetup
    generalize CommandParser.ofChoice _ _ _ = outcome at hsetup
    cases outcome with
    | error refusal => cases hsetup
    | ok parser => exact (congrArg Setup.settings (Except.ok.inj hsetup)).symm
  rw [hsame]
  exact hnames

end Command

end SyntaxRepair
