import SyntaxRepair.Json.Parser
import Mathlib.Logic.Basic

/-!
# What is beyond the reader of JSON

A text that is not read is no JSON, or a part of it is beyond the reader: a whole number with too
many digits, or too many brackets inside one another (`parse_misfit`).
-/

namespace SyntaxRepair.Json

/-- What a reader of JSON does not go through. -/
inductive Beyond : Misfit → Prop
  | longNumber (digits : Nat) : Beyond (.longNumber digits)
  | deepArray : Beyond .deepArray
  | deepObject : Beyond .deepObject

namespace Reader

variable {room : Nat} {input : Text} {cause : Misfit}

theorem numberedEscape_ne_misfit : numberedEscape input ≠ .error (.misfit cause) := by
  unfold numberedEscape
  grind

theorem string_ne_misfit {opening : Text} : string opening input ≠ .error (.misfit cause) := by
  fun_induction string opening input with
  | case4 digits stop hstop =>
      intro h
      cases h
      exact numberedEscape_ne_misfit hstop
  | _ => simp_all

theorem unsigned?_beyond {negative : Bool} {length : Nat}
    (h : unsigned? negative input = some ⟨.error cause, length⟩) : Beyond cause := by
  unfold unsigned? at h
  split at h
  · cases h
  · simp only [Option.some.injEq, Numeral.mk.injEq] at h
    rcases ite_eq_iff.mp h.1 with ⟨-, hwhole⟩ | ⟨-, hfloat⟩
    · rw [wholeNumber] at hwhole
      rcases ite_eq_iff.mp hwhole with ⟨-, hlong⟩ | ⟨-, hshort⟩
      · cases hlong
        exact .longNumber _
      · cases hshort
    · cases hfloat

theorem number?_beyond {length : Nat} (h : number? input = some ⟨.error cause, length⟩) :
    Beyond cause := by
  unfold number? at h
  split at h
  · obtain ⟨⟨value, count⟩, hfound, hsame⟩ := Option.map_eq_some_iff.mp h
    cases hsame
    exact unsigned?_beyond hfound
  · exact unsigned?_beyond h

theorem value_beyond
    (hinner : ∀ shorter : Text, shorter.length < input.length → ∀ room cause,
      (elements room shorter = .error (.misfit cause) → Beyond cause) ∧
        (members room shorter = .error (.misfit cause) → Beyond cause))
    (h : value room input = .error (.misfit cause)) : Beyond cause := by
  cases input with
  | nil =>
      rw [value.eq_def] at h
      cases h
  | cons c rest =>
      have hskip : (skip rest).length < (c :: rest).length :=
        Nat.lt_succ_of_le (length_skip_le rest)
      rw [value.eq_def] at h
      dsimp only at h
      by_cases hquote : c = '"'
      · rw [if_pos hquote] at h
        split at h
        · next stop hstop =>
            cases h
            exact absurd hstop string_ne_misfit
        · cases h
      · rw [if_neg hquote] at h
        by_cases harray : c = '['
        · rw [if_pos harray] at h
          split at h
          · cases h
            exact .deepArray
          · split at h
            · cases h
            · split at h
              · next stop hstop =>
                  cases h
                  exact (hinner _ hskip _ _).1 hstop
              · cases h
        · rw [if_neg harray] at h
          by_cases hobject : c = '\x7b'
          · rw [if_pos hobject] at h
            split at h
            · cases h
              exact .deepObject
            · split at h
              · cases h
              · split at h
                · next stop hstop =>
                    cases h
                    exact (hinner _ hskip _ _).2 hstop
                · cases h
          · rw [if_neg hobject] at h
            split at h
            · cases h
            · split at h
              · cases h
              · next hnumber =>
                  cases h
                  exact number?_beyond hnumber
              · cases h

theorem elements_beyond
    (hfirst : ∀ cause, value room input = .error (.misfit cause) → Beyond cause)
    (hinner : ∀ shorter : Text, shorter.length < input.length → ∀ cause,
      elements room shorter = .error (.misfit cause) → Beyond cause)
    (h : elements room input = .error (.misfit cause)) : Beyond cause := by
  rw [elements] at h
  split at h
  · next stop hstop =>
      cases h
      exact hfirst _ hstop
  · next first behind hbehind _ =>
      dsimp only at h
      split at h
      · cases h
      · next next hnext =>
          split at h
          · next stop hstop =>
              cases h
              refine hinner _ ?_ _ hstop
              have hskip := length_skip_le behind
              have hskipped := length_skip_le next
              rw [hnext, List.length_cons] at hskip
              omega
          · cases h
      · cases h

theorem members_beyond
    (hvalue : ∀ shorter : Text, shorter.length < input.length → ∀ cause,
      value room shorter = .error (.misfit cause) → Beyond cause)
    (hinner : ∀ shorter : Text, shorter.length < input.length → ∀ cause,
      members room shorter = .error (.misfit cause) → Beyond cause)
    (h : members room input = .error (.misfit cause)) : Beyond cause := by
  rw [members.eq_def] at h
  split at h
  · next rest =>
      split at h
      · next stop hstop =>
          cases h
          exact absurd hstop string_ne_misfit
      · next name behindName hname _ =>
          dsimp only at h
          split at h
          · next afterColon hcolon =>
              have hmark := length_skip_le behindName
              have hafter := length_skip_le afterColon
              rw [hcolon, List.length_cons] at hmark
              have hshorter : (skip afterColon).length < (CodePoint.char '"' :: rest).length := by
                rw [List.length_cons]
                omega
              split at h
              · next stop hstop =>
                  cases h
                  exact hvalue _ hshorter _ hstop
              · next first behind hbehind _ =>
                  split at h
                  · cases h
                  · next next hnext =>
                      split at h
                      · next stop hstop =>
                          cases h
                          refine hinner _ ?_ _ hstop
                          have hskip := length_skip_le behind
                          have hskipped := length_skip_le next
                          rw [hnext, List.length_cons] at hskip
                          omega
                      · cases h
                  · cases h
          · cases h
  · cases h

/-- What stops the readers, if it is no problem of the text: by induction on the length of what is
left to read. -/
theorem beyond_of_misfit (room : Nat) (input : Text) (cause : Misfit) :
    (value room input = .error (.misfit cause) → Beyond cause) ∧
      (elements room input = .error (.misfit cause) → Beyond cause) ∧
      (members room input = .error (.misfit cause) → Beyond cause) := by
  induction hlength : input.length using Nat.strongRecOn generalizing room input cause with
  | _ length ih =>
      subst hlength
      have hvalue : ∀ cause, value room input = .error (.misfit cause) → Beyond cause :=
        fun cause => value_beyond fun shorter hshorter room cause =>
          (ih _ hshorter room shorter cause rfl).2
      exact ⟨hvalue cause,
        elements_beyond hvalue fun shorter hshorter cause =>
          (ih _ hshorter room shorter cause rfl).2.1,
        members_beyond (fun shorter hshorter cause => (ih _ hshorter room shorter cause rfl).1)
          fun shorter hshorter cause => (ih _ hshorter room shorter cause rfl).2.2⟩

end Reader

/-- A document that is beyond the reader has too many digits in a number, or too many brackets
inside one another. -/
theorem parse_misfit {text : Text} {cause : Misfit} (h : parse text = .error (.misfit cause)) :
    Beyond cause := by
  rw [parse, parseWithin] at h
  split at h
  · cases h
  · split at h
    · next hcause =>
        cases h
        exact (Reader.beyond_of_misfit _ _ _).1 hcause
    · cases h
    · dsimp only at h
      split at h <;> cases h

end SyntaxRepair.Json
