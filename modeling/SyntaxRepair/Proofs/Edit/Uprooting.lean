import SyntaxRepair.Proofs.Edit.Carrying
import Mathlib.Data.List.Pairwise

/-!
# Offsets inside of removed ranges

`Buffer.carry` counts the whole change of a write that begins in front of an offset.  Where the
write removes characters on both sides of the offset, this may lead in front of the place at which
the range began (`Write.Uproots`), and so out of the text or past other offsets.

Nothing else goes wrong.  As long as no write uproots the greater one of two offsets, both keep
their order, and an offset that is not uprooted stays inside the text
(`Records.carry_mono`, `Buffer.carry_inside`).  No range has to be spared for this, unlike for the
offsets of characters that are kept.
-/

namespace SyntaxRepair

open History (shift)

namespace Arranged

variable {changes rest : List Change} {next : Change} {start offset : Int}

/-- **Carried offsets keep their order**, unless the greater one is uprooted. -/
theorem add_shift_mono (harranged : Arranged changes) (hle : start ≤ offset)
    (hrooted : ∀ change ∈ changes, ¬ change.Uproots offset) :
    start + shift start (changes.map Change.edit) ≤
      offset + shift offset (changes.map Change.edit) := by
  rcases Int.lt_or_eq_of_le hle with hlt | rfl
  · induction changes with
    | nil =>
        rw [List.map_nil, shift, shift]
        omega
    | cons next rest ih =>
        have hrest := ih harranged.tail (List.forall_mem_cons.mp hrooted).2
        have hplace : next.edit.offset = next.offset := rfl
        by_cases hboth : next.offset < start ∨ next.offset = start ∧ ¬ next.edit.delta < 0
        · -- the change counts for both offsets
          rw [List.map_cons, shift, shift, hplace]
          rw [if_neg (by omega), if_neg (by omega), if_neg (by omega), if_neg (by omega)]
          omega
        · -- nothing counts for the first offset, and nothing in front of it is removed
          have hzero : shift start ((next :: rest).map Change.edit) = 0 := by
            rw [List.map_cons, shift, hplace]
            split
            · rfl
            · rw [if_pos (by omega)]
          rw [hzero, Int.add_zero]
          refine harranged.le_add_shift ?_ hle hrooted
          intro change hmem _
          rcases List.mem_cons.mp hmem with rfl | hmem
          · omega
          · have hoffset := harranged.offset_le hmem
            omega
  · exact Int.le_refl _

end Arranged

namespace Buffer

variable {text : Text} {buffer : Buffer} {writes : List Write} {write : Write}
  {start offset : Int}

namespace Records

theorem carry_mono (records : buffer.Records writes) (hle : start ≤ offset)
    (hrooted : ∀ write ∈ writes, ¬ write.Uproots offset) :
    buffer.carry start ≤ buffer.carry offset := by
  rw [carry, carry, History.carry, History.carry, records.edits_eq]
  exact records.arranged.add_shift_mono hle (rooted_of_mem_arrange hrooted)

/-- No write uproots the place at which another one begins. -/
theorem not_uproots_offset (records : buffer.Records writes) {other : Write}
    (hother : other ∈ writes) (hwrite : write ∈ writes) : ¬ write.Uproots other.offset := by
  let Apart : Write → Write → Prop := fun first second =>
    ¬ first.Uproots second.offset ∧ ¬ second.Uproots first.offset
  have hsymm : Std.Symm Apart := ⟨fun _ _ hapart => ⟨hapart.2, hapart.1⟩⟩
  have hown : ∀ own ∈ writes, Apart own own := fun own _ =>
    ⟨fun huproots => Int.lt_irrefl _ huproots.1, fun huproots => Int.lt_irrefl _ huproots.1⟩
  have hpairs : writes.Pairwise Apart := by
    refine records.apart.imp_of_mem fun {first second} hfirst hsecond hapart => ?_
    have hclear := Write.stop_le_or_stop_le (records.nonneg first hfirst).2
      (records.nonneg second hsecond).2 hapart
    have hlength := (records.nonneg first hfirst).2
    have hlength' := (records.nonneg second hsecond).2
    unfold Apart Write.Uproots
    omega
  exact (hpairs.forall_of_forall hown hwrite hother).1

end Records

/-- The whole change of the writes at some offsets is no more than one of them, if none of them
adds to the length. -/
theorem grown_le {near far : Int} (hgrowth : ∀ write ∈ writes, write.growth ≤ 0)
    (hmem : write ∈ writes) (hnear : near ≤ write.offset) (hfar : write.offset < far) :
    grown (· < far) writes ≤ grown (· < near) writes + write.growth := by
  obtain ⟨front, back, rfl⟩ := List.append_of_mem hmem
  -- the other writes count no less for the nearer place
  have hmono : ∀ others : List Write, (∀ other ∈ others, other.growth ≤ 0) →
      grown (· < far) others ≤ grown (· < near) others := by
    intro others hothers
    induction others with
    | nil => exact Int.le_refl _
    | cons other rest ih =>
        rw [List.forall_mem_cons] at hothers
        have hrest := ih hothers.2
        rw [← List.singleton_append, grown_append, grown_append, grown_singleton, grown_singleton]
        simp only [decide_eq_true_eq]
        split <;> split <;> omega
  rw [List.forall_mem_append, List.forall_mem_cons] at hgrowth
  have hfront := hmono front hgrowth.1
  have hback := hmono back hgrowth.2.2
  rw [← List.singleton_append, grown_append, grown_append, grown_append, grown_append,
    grown_singleton, grown_singleton, if_pos (decide_eq_true hfar),
    if_neg (by rw [decide_eq_true_eq]; omega)]
  omega

/-- **Uprooted offsets.**  Where no write adds to the length, an offset that is uprooted is carried
in front of the place at which the write began. -/
theorem Records.carry_lt_of_uproots (records : buffer.Records writes)
    (hgrowth : ∀ write ∈ writes, write.growth ≤ 0) (hmem : write ∈ writes)
    (huproots : write.Uproots offset) : buffer.carry offset < buffer.carry write.offset := by
  rw [records.carry_eq_of_nonpos fun other hother _ => hgrowth other hother,
    records.carry_eq_of_nonpos fun other hother _ => hgrowth other hother]
  obtain ⟨hfront, -, hlost⟩ := huproots
  have hgrown := grown_le hgrowth hmem (Int.le_refl write.offset) hfront
  omega

/-- **Offsets stay inside the text**, unless they are uprooted. -/
theorem carry_inside (hinside : ∀ write ∈ writes, write.Inside text.length)
    (hperform : performAll { text } writes = .ok buffer) (hoffset : 0 ≤ offset)
    (hle : offset ≤ text.length) (hrooted : ∀ write ∈ writes, ¬ write.Uproots offset) :
    0 ≤ buffer.carry offset ∧ buffer.carry offset ≤ buffer.text.length := by
  have records := records_of_performAll hperform
  refine ⟨records.carry_nonneg_of_rooted hoffset hrooted, ?_⟩
  rw [← carry_length_of_performAll hinside hperform]
  refine records.carry_mono hle ?_
  intro write hmem huproots
  have hwrite := hinside write hmem
  rw [Write.Inside] at hwrite
  rw [Write.Uproots] at huproots
  omega

end Buffer

end SyntaxRepair
