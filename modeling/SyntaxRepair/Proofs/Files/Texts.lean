import SyntaxRepair.Error
import SyntaxRepair.Proofs.Files.Store

/-!
# Texts in files

The text in a file is what its octets stand for, with newlines alone at the ends of its lines.  It
is decided by the place that the path leads to, and a file that is written somewhere else leaves it
as it is.
-/

namespace SyntaxRepair

open Utf8 (Octets)

namespace FileStore

/-- The text in a file of a store, or why there is none. -/
def readText (store : FileStore) (path : Path) : Except Error Text := do
  let octets ← (store.read path).mapError Error.file
  let text ← (Utf8.decode octets).mapError Error.notText
  return Text.unifyNewlines text

theorem readText_eq_ok {store : FileStore} {path : Path} {text : Text} :
    store.readText path = .ok text ↔
      ∃ octets found, store.read path = .ok octets ∧ Utf8.decode octets = .ok found ∧
        found.unifyNewlines = text := by
  rw [readText]
  cases store.read path with
  | error fault => simp [bind, Except.bind, Except.mapError]
  | ok octets =>
      cases hdecode : Utf8.decode octets <;>
        simp [hdecode, bind, Except.bind, Except.mapError, pure, Except.pure]

/-- Where files hold the same, they hold the same text. -/
theorem readText_congr {store other : FileStore} {path twin : Path} {text : Text}
    (h : ∀ octets, store.read path = .ok octets ↔ other.read twin = .ok octets) :
    store.readText path = .ok text ↔ other.readText twin = .ok text := by
  simp only [readText_eq_ok, h]

theorem readText_eq_error_iff {store : FileStore} {path : Path} {error : Error} :
    store.readText path = .error error ↔
      (∃ fault, store.read path = .error fault ∧ .file fault = error) ∨
        ∃ octets fault, store.read path = .ok octets ∧ Utf8.decode octets = .error fault ∧
          .notText fault = error := by
  rw [readText]
  cases store.read path with
  | error fault => simp [bind, Except.bind, Except.mapError]
  | ok octets =>
      cases hdecode : Utf8.decode octets <;>
        simp [hdecode, bind, Except.bind, Except.mapError, pure, Except.pure]

/-- A file is not read because the system refuses it, because it holds no text, or because of a null
character in its path. -/
theorem readText_eq_error {store : FileStore} {path : Path} {error : Error}
    (h : store.readText path = .error error) :
    error.isSystem = true ∨ (∃ fault, error = .notText fault) ∨
      (error = .file ⟨.nullInPath, path⟩ ∧ path.text.contains (.char '\x00') = true) := by
  rcases readText_eq_error_iff.mp h with ⟨fault, hread, rfl⟩ | ⟨octets, fault, -, -, rfl⟩
  · obtain ⟨hpath, hnull⟩ := read_eq_error hread
    by_cases hproblem : fault.problem = .nullInPath
    · obtain ⟨problem, place⟩ := fault
      subst hpath hproblem
      exact .inr (.inr ⟨rfl, hnull rfl⟩)
    · exact .inl (by simp [Error.isSystem, hproblem])
  · exact .inr (.inl ⟨fault, rfl⟩)

/-- Elsewhere than where a file was written the texts are those that were there before. -/
theorem Wrote.readText_iff {before after : FileStore} {place : List Text} {octets : Octets}
    {path : Path} {text : Text} (hwrote : before.Wrote place octets after)
    (hne : before.locate path ≠ .ok place) :
    after.readText path = .ok text ↔ before.readText path = .ok text :=
  readText_congr fun _ => hwrote.read_iff hne

/-- Two paths to one place are paths to one text. -/
theorem readText_eq_of_place {store : FileStore} {path other : Path} {text words : Text}
    (htext : store.readText path = .ok text) (hwords : store.readText other = .ok words)
    (hplace : ∀ place spot, store.locate path = .ok place → store.locate other = .ok spot →
      place = spot) : text = words := by
  obtain ⟨octets, -, hoctets, -⟩ := readText_eq_ok.mp htext
  obtain ⟨contents, -, hcontents, -⟩ := readText_eq_ok.mp hwords
  obtain ⟨place, hpath, -⟩ := read_eq_ok.mp hoctets
  obtain ⟨spot, hother, -⟩ := read_eq_ok.mp hcontents
  obtain rfl := hplace place spot hpath hother
  have hsame : store.readText path = .ok words :=
    (readText_congr fun octets => by
      rw [read_eq_ok, read_eq_ok, hpath, hother]).mpr hwords
  exact Except.ok.inj (htext.symm.trans hsame)

end FileStore

end SyntaxRepair
