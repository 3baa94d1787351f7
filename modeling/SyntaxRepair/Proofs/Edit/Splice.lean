import SyntaxRepair.Proofs.Edit.Arrangement
import SyntaxRepair.Proofs.Text.Parts

/-!
# A text with its changes in place

`Text.spliceAll text writes` is the text that some writes ask for, made in one go from
the text as it was: the writes are taken in the order of their places, the characters
between them are copied, and what a write inserts stands in place of its range.

## Strategy

The buffer makes its writes one by one and in any order.  One more write is compared
with `spliceAll` through `Text.Splits`: around a range that no change touches, the
spliced text falls into three parts (`exists_splits`),

```text
front ++ (the characters of the range) ++ back
```

where `front` is as long as the history says, and with the new write among the changes
the middle part is replaced by what is inserted.  The induction is on the changes; the
standing assumption `Change.Clears` says that each change is over where the next one
begins.  Idle changes, which remove and insert nothing, are exempt from it: they may
begin at the start of a range that was replaced before, and leave everything as it is
(`spliceFrom_insert_idle`).
-/

namespace SyntaxRepair

open History (shift)

/-! ## Carrying an offset past one change -/

/-- An edit in front of an offset, or at it with nothing removed, moves the offset. -/
theorem shift_cons_of_stop_le {next : Change} {offset : Int} (rest : List Edit)
    (hlength : 0 ≤ next.length) (hstop : next.stop ≤ offset) :
    shift offset (next.edit :: rest) =
      next.inserted.length - next.length + shift offset rest := by
  rw [Change.stop] at hstop
  rw [shift, if_neg (by simp only [Change.edit]; omega), if_neg]
  · rfl
  · rintro ⟨hoffset, hdelta⟩
    simp only [Change.edit] at hoffset hdelta
    omega

/-- No edit behind an offset moves it, and none that follows does. -/
theorem shift_cons_of_lt {next : Change} {offset : Int} (rest : List Edit)
    (hbehind : offset < next.offset) : shift offset (next.edit :: rest) = 0 := by
  rw [shift, if_pos (by simpa only [Change.edit] using hbehind)]

namespace Text

/-! ## Putting changes in place -/

/-- The characters of a text from offset `place` on, with changes in their order put in
place of their ranges. -/
def spliceFrom (text : Text) (place : Nat) : List Change → Text
  | [] => text.drop place
  | change :: rest =>
      (text.take change.offset.toNat).drop place ++ change.inserted ++
        spliceFrom text (max place change.stop.toNat) rest

/-- The text with all writes made: what lies between their ranges is kept, and what each
write inserts stands in place of its range. -/
def spliceAll (text : Text) (writes : List Write) : Text := text.spliceFrom 0 (arrange writes)

/-! ## A change that changes nothing -/

/-- An idle change may take its place among any others. -/
theorem spliceFrom_insert_idle (text : Text) {idle : Change} (hidle : idle.Idle) (place : Nat)
    {changes : List Change} (hfits : ∀ change ∈ changes, 0 ≤ change.length)  :
    text.spliceFrom place (Anchor.insert Change.toAnchor idle changes) =
      text.spliceFrom place changes := by
  obtain ⟨hlength, hinserted⟩ := hidle
  have hstop : idle.stop = idle.offset := by rw [Change.stop, hlength, Int.add_zero]
  induction changes generalizing place with
  | nil =>
      simp only [Anchor.insert, spliceFrom, hinserted, hstop, List.append_nil]
      rcases Nat.le_total place idle.offset.toNat with hle | hle
      · rw [Nat.max_eq_right hle, take_drop_append_drop text hle]
      · rw [Nat.max_eq_left hle, List.drop_eq_nil_iff.mpr (by rw [List.length_take]; omega),
          List.nil_append]
  | cons next rest ih =>
      unfold Anchor.insert
      split
      · rename_i hbefore
        have hnext : idle.offset ≤ next.offset := by
          rcases hbefore with hlt | ⟨heq, -⟩
          · exact Int.le_of_lt hlt
          · exact Int.le_of_eq heq
        have hstopNext : next.offset ≤ next.stop := by
          have := hfits next (List.mem_cons_self ..)
          rw [Change.stop]
          omega
        simp only [spliceFrom, hinserted, hstop, List.append_nil]
        rcases Nat.le_total place idle.offset.toNat with hle | hle
        · rw [Nat.max_eq_right hle, ← take_drop_append_take_drop text hle (by omega :
            idle.offset.toNat ≤ next.offset.toNat)]
          simp only [List.append_assoc]
          rw [Nat.max_eq_right (by omega : idle.offset.toNat ≤ next.stop.toNat),
            Nat.max_eq_right (by omega : place ≤ next.stop.toNat)]
        · rw [Nat.max_eq_left hle, List.drop_eq_nil_iff.mpr (by rw [List.length_take]; omega),
            List.nil_append]
      · simp only [spliceFrom]
        rw [ih _ fun change hmem => hfits change (List.mem_cons_of_mem _ hmem)]

/-! ## A range that no change touches -/

/-- A range around which the text with some changes falls into three parts.  The first is as
long as the history says, and a change of the range that is made last replaces the second. -/
structure Splits (text : Text) (place offset length : Nat) (changes : List Change)
    (front back : Text) : Prop where
  text_eq : text.spliceFrom place changes =
    front ++ (text.take (offset + length)).drop offset ++ back
  length_eq : (front.length : Int) = offset - place + shift offset (changes.map Change.edit)
  insert_eq : ∀ change : Change, change.offset = offset → change.length = length →
    (∀ other ∈ changes, other.sequence < change.sequence) →
      text.spliceFrom place (Anchor.insert Change.toAnchor change changes) =
        front ++ change.inserted ++ back

section

variable {text front back : Text} {place offset length : Nat} {next : Change}
  {rest : List Change}

/-- A range of the text as it was. -/
theorem splits_nil (hplace : place ≤ offset) (hinside : offset + length ≤ text.length) :
    text.Splits place offset length [] ((text.take offset).drop place)
      (text.drop (offset + length)) := by
  refine ⟨?_, ?_, ?_⟩
  · rw [take_drop_append_take_drop text hplace (Nat.le_add_right ..),
      take_drop_append_drop text (by omega)]
    rfl
  · rw [List.length_drop, List.length_take, List.map_nil, shift]
    omega
  · intro change hoffset hlength _
    have hstop : max place change.stop.toNat = offset + length := by
      rw [Change.stop]
      omega
    simp only [Anchor.insert, spliceFrom, hstop, hoffset, Int.toNat_natCast]

/-- A change that is over where the range begins: its own part of the text goes to the front. -/
theorem Splits.cons_of_stop_le
    (hsplits : text.Splits (max place next.stop.toNat) offset length rest front back)
    (hnext : next.Fits text.length) (hplaced : next.Idle ∨ (place : Int) ≤ next.offset)
    (hfront : next.stop ≤ offset) :
    text.Splits place offset length (next :: rest)
      ((text.take next.offset.toNat).drop place ++ next.inserted ++ front) back := by
  have hoffset_nonneg := hnext.offset_nonneg
  have hlength_nonneg := hnext.length_nonneg
  have hstop_le := hnext.stop_le
  refine ⟨?_, ?_, ?_⟩
  · rw [spliceFrom, hsplits.text_eq]
    simp only [List.append_assoc]
  · have hlength := hsplits.length_eq
    rw [List.map_cons, shift_cons_of_stop_le _ hlength_nonneg hfront]
    simp only [List.length_append, List.length_drop, List.length_take]
    rw [Change.stop] at hfront hstop_le hlength
    rcases hplaced with ⟨hnothing, hempty⟩ | hle
    · rw [hempty, List.length_nil]
      omega
    · omega
  · intro change hoffset hlength hlast
    have hsequence := hlast next (List.mem_cons_self ..)
    have hbefore : ¬ Anchor.Before change.toAnchor next.toAnchor := by
      rw [Change.stop] at hfront
      simp only [Anchor.Before]
      omega
    rw [Anchor.insert, if_neg hbefore, spliceFrom, hsplits.insert_eq change hoffset hlength
      fun other hmem => hlast other (List.mem_cons_of_mem _ hmem)]
    simp only [List.append_assoc]

/-- A change behind the range, and with it all that follow. -/
theorem splits_cons_of_lt (rest : List Change) (hnext : 0 ≤ next.length) (hplace : place ≤ offset)
    (hinside : offset + length ≤ text.length) (hbehind : (offset : Int) < next.offset)
    (hback : (offset + length : Int) ≤ next.offset) :
    text.Splits place offset length (next :: rest) ((text.take offset).drop place)
      ((text.take next.offset.toNat).drop (offset + length) ++ next.inserted ++
        text.spliceFrom (max place next.stop.toNat) rest) := by
  refine ⟨?_, ?_, ?_⟩
  · rw [spliceFrom, take_drop_append_take_drop text hplace (Nat.le_add_right ..),
      ← List.append_assoc, ← List.append_assoc,
      take_drop_append_take_drop text (by omega) (by omega)]
  · rw [List.map_cons, shift_cons_of_lt _ hbehind, List.length_drop, List.length_take]
    omega
  · intro change hoffset hlength _
    have hbefore : Anchor.Before change.toAnchor next.toAnchor := by
      simp only [Anchor.Before]
      omega
    have hstop : max place change.stop.toNat = offset + length := by
      rw [Change.stop]
      omega
    have hplaces : max (offset + length) next.stop.toNat = max place next.stop.toNat := by
      rw [Change.stop]
      omega
    rw [Anchor.insert, if_pos hbefore, spliceFrom, hstop, spliceFrom, hplaces, hoffset,
      Int.toNat_natCast]

end

/-- Around a range that no change touches the spliced text falls into three parts. -/
theorem exists_splits (text : Text) {place offset length : Nat} {changes : List Change}
    (hplace : place ≤ offset) (hinside : offset + length ≤ text.length)
    (hfits : ∀ change ∈ changes, change.Fits text.length)
    (hplaced : ∀ change ∈ changes, change.Idle ∨ (place : Int) ≤ change.offset)
    (hclears : changes.Pairwise Change.Clears)
    (hspares : ∀ change ∈ changes, change.Spares offset length) :
    ∃ front back, text.Splits place offset length changes front back := by
  induction changes generalizing place with
  | nil => exact ⟨_, _, splits_nil hplace hinside⟩
  | cons next rest ih =>
      rw [List.pairwise_cons] at hclears
      rw [List.forall_mem_cons] at hfits hplaced hspares
      rcases hspares.1 with hfront | ⟨hbehind, hback⟩
      · -- the others begin behind the change, where it clears them
        have hplaced' : ∀ change ∈ rest,
            change.Idle ∨ ((max place next.stop.toNat : Nat) : Int) ≤ change.offset := by
          intro change hmem
          have hchange := (hfits.2 change hmem).offset_nonneg
          rcases hclears.1 change hmem with hidle | hclear
          · exact Or.inl hidle
          · rcases hplaced.2 change hmem with hidle | hle
            · exact Or.inl hidle
            · exact Or.inr (by omega)
        obtain ⟨front, back, hsplits⟩ :=
          @ih (max place next.stop.toNat) (by omega) hfits.2 hplaced' hclears.2 hspares.2
        exact ⟨_, back, hsplits.cons_of_stop_le hfits.1 hplaced.1 hfront⟩
      · exact ⟨_, _, splits_cons_of_lt rest hfits.1.length_nonneg hplace hinside hbehind hback⟩

end Text

end SyntaxRepair
