import SyntaxRepair.Parse.Result
import SyntaxRepair.Proofs.Sequences
import SyntaxRepair.Proofs.Text.Parts

/-!
# Where lines begin

A line begins at the beginning of the text and behind each newline, and nowhere else.
-/

namespace SyntaxRepair

namespace Text

/-- The newlines of a text by their places in it. -/
theorem mem_newlinesFrom {text : Text} {offset newline : Nat} :
    newline ∈ newlinesFrom offset text ↔
      ∃ place, text[place]? = some (.char '\n') ∧ newline = offset + place := by
  induction text generalizing offset with
  | nil => simp [newlinesFrom]
  | cons c rest ih =>
      have hlater : newline ∈ newlinesFrom (offset + 1) rest ↔
          ∃ place, (c :: rest)[place + 1]? = some (.char '\n') ∧
            newline = offset + (place + 1) := by
        rw [ih]
        simp only [List.getElem?_cons_succ, Nat.add_assoc, Nat.add_comm 1]
      have hsplit : (∃ place, (c :: rest)[place]? = some (.char '\n') ∧ newline = offset + place) ↔
          (c = .char '\n' ∧ newline = offset) ∨ newline ∈ newlinesFrom (offset + 1) rest := by
        rw [hlater]
        constructor
        · rintro ⟨place, hplace, hnewline⟩
          cases place with
          | zero => exact Or.inl ⟨Option.some.inj hplace, hnewline⟩
          | succ place => exact Or.inr ⟨place, hplace, hnewline⟩
        · rintro (⟨hc, hnewline⟩ | ⟨place, hplace, hnewline⟩)
          · exact ⟨0, congrArg some hc, hnewline⟩
          · exact ⟨place + 1, hplace, hnewline⟩
      rw [hsplit, newlinesFrom]
      split
      · rename_i hc
        rw [List.mem_cons]
        exact or_congr_left ⟨fun h => ⟨hc, h⟩, fun h => h.2⟩
      · rename_i hc
        exact ⟨Or.inr, fun h => h.resolve_left fun hfirst => hc hfirst.1⟩

/-- A line begins at the beginning of the text or behind a newline. -/
theorem mem_lineStarts {text : Text} {start : Nat} :
    start ∈ text.lineStarts ↔
      start = 0 ∨ ∃ place, text[place]? = some (.char '\n') ∧ start = place + 1 := by
  rw [lineStarts, List.mem_cons, List.mem_map]
  refine or_congr_right ?_
  constructor
  · rintro ⟨newline, hnewline, rfl⟩
    obtain ⟨place, hplace, rfl⟩ := mem_newlinesFrom.mp hnewline
    exact ⟨place, hplace, by rw [Nat.zero_add]⟩
  · rintro ⟨place, hplace, rfl⟩
    exact ⟨place, mem_newlinesFrom.mpr ⟨place, hplace, (Nat.zero_add place).symm⟩, rfl⟩

/-- No line begins behind the end of the text. -/
theorem le_length_of_mem_lineStarts {text : Text} {start : Nat} (h : start ∈ text.lineStarts) :
    start ≤ text.length := by
  rcases mem_lineStarts.mp h with rfl | ⟨place, hplace, rfl⟩
  · exact Nat.zero_le _
  · obtain ⟨hlength, -⟩ := List.getElem?_eq_some_iff.mp hplace
    exact hlength

/-- `origin` is where the line with `offset` begins: no line begins between them. -/
structure LineOrigin (text : Text) (origin offset : Int) : Prop where
  exists_mem : ∃ start ∈ text.lineStarts, origin = (start : Int)
  le : origin ≤ offset
  greatest : ∀ start ∈ text.lineStarts, (start : Int) ≤ offset → (start : Int) ≤ origin

instance (text : Text) (origin offset : Int) : Decidable (text.LineOrigin origin offset) :=
  decidable_of_iff ((∃ start ∈ text.lineStarts, origin = (start : Int)) ∧ origin ≤ offset ∧
      ∀ start ∈ text.lineStarts, (start : Int) ≤ offset → (start : Int) ≤ origin)
    ⟨fun h => ⟨h.1, h.2.1, h.2.2⟩, fun h => ⟨h.1, h.2, h.3⟩⟩

/-- A place lies in front of a line exactly if some line begins between it and an offset in
that line. -/
theorem LineOrigin.le_iff {text : Text} {origin offset : Int} (h : text.LineOrigin origin offset)
    (place : Int) :
    place ≤ origin ↔ ∃ start ∈ text.lineStarts, place ≤ (start : Int) ∧ (start : Int) ≤ offset := by
  constructor
  · intro hplace
    obtain ⟨start, hstart, rfl⟩ := h.exists_mem
    exact ⟨start, hstart, hplace, h.le⟩
  · rintro ⟨start, hstart, hplace, hoffset⟩
    exact Int.le_trans hplace (h.greatest start hstart hoffset)

/-- The rest of a line from an offset on, without its newline. -/
def lineFrom (text : Text) (offset : Nat) : Text := (text.drop offset).takeWhile (· ≠ '\n')

theorem lineFrom_cons_zero (c : CodePoint) (rest : Text) :
    lineFrom (c :: rest) 0 = if c = '\n' then [] else c :: lineFrom rest 0 := by
  rw [lineFrom, List.drop_zero, List.takeWhile_cons]
  by_cases hc : c = '\n'
  · rw [if_pos hc, if_neg (by simp [hc])]
  · rw [if_neg hc, if_pos (decide_eq_true hc)]
    rfl

end Text

/-- A location whose column is counted from the beginning of its line. -/
def Location.Aligned (text : Text) (location : Location) : Prop :=
  text.LineOrigin (location.start.whole - location.column.whole) location.start.whole

instance (text : Text) (location : Location) : Decidable (location.Aligned text) :=
  inferInstanceAs (Decidable (text.LineOrigin _ _))

/-- The beginning of a line that a report tells is one of its text. -/
theorem Parse.mem_lineStarts_of_lineStart? {result : Parse} {line : Json.Number} {offset : Int}
    (h : result.lineStart? line = .ok (some offset)) :
    ∃ start ∈ result.text.lineStarts, offset = (start : Int) := by
  obtain ⟨before, -, hindex⟩ := except_bind_eq_ok.mp h
  obtain ⟨place, -, hfound⟩ := except_bind_eq_ok.mp hindex
  obtain ⟨_, hstart, rfl⟩ := Option.map_eq_some_iff.mp (Except.ok.inj hfound)
  obtain ⟨start, hpick, hsame⟩ := Option.bind_eq_some_iff.mp hstart
  exact ⟨start, Text.mem_of_pick? hpick, (Option.some.inj hsame).symm⟩

end SyntaxRepair
