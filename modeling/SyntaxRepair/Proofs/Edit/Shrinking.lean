import SyntaxRepair.Proofs.Edit.Performing

/-!
# Reading a text that only shrinks

While the diagnostics of a pass are resolved, every write leaves less than it removes.
What stands between two carried offsets is then the text as it was, as long as no write
meets the range between them (`Buffer.Records.slice_eq`).

The end of the range is the delicate point.  A write that begins exactly there moves the
carried offset unless it removes more than it inserts, and this is where the assumption
is used (`shift_eq_zero`).
-/

namespace SyntaxRepair

open History (shift)

/-- A write that leaves less than it removes, or leaves everything as it is. -/
def Write.Shrinks (write : Write) : Prop :=
  write.inserted.length < write.length ∨ write.length = 0 ∧ write.inserted = []

/-- Behind writes that shrink any other one may be made. -/
theorem Write.Shrinks.admits {earlier later : Write} (hlater : later.Shrinks) :
    earlier.Admits later := by
  intro hempty hinserted _
  rcases hlater with hless | ⟨-, hnothing⟩
  · omega
  · exact absurd hnothing hinserted

/-! ## Where a range ends -/

/-- Edits that begin no earlier than an offset and insert no more than they remove do not
move it. -/
theorem shift_eq_zero {offset : Int} {edits : List Edit}
    (hedits : ∀ edit ∈ edits, offset ≤ edit.offset ∧ edit.delta ≤ 0) : shift offset edits = 0 := by
  induction edits with
  | nil => rfl
  | cons edit rest ih =>
      obtain ⟨hbehind, hdelta⟩ := hedits edit (List.mem_cons_self ..)
      have hrest := ih fun other hmem => hedits other (List.mem_cons_of_mem _ hmem)
      rw [shift]
      split
      · rfl
      · split
        · rfl
        · rename_i hbeyond hremoved
          have hnothing : edit.delta = 0 := by
            rw [not_and] at hremoved
            have := hremoved (by omega)
            omega
          rw [hnothing, hrest, Int.add_zero]

/-- The two ends of a range that no change touches are moved alike. -/
theorem shift_stop_eq {offset length : Nat} {changes : List Change}
    (hlength : ∀ change ∈ changes, 0 ≤ change.length)
    (hspares : ∀ change ∈ changes, change.Spares offset length)
    (hshrinks : ∀ change ∈ changes, change.edit.delta ≤ 0)
    (hsorted : changes.Pairwise fun first second =>
      Anchor.Before first.toAnchor second.toAnchor) :
    shift (offset + length : Nat) (changes.map Change.edit) =
      shift offset (changes.map Change.edit) := by
  induction changes with
  | nil => rfl
  | cons next rest ih =>
      rw [List.pairwise_cons] at hsorted
      have hnext := hlength next (List.mem_cons_self ..)
      rw [List.map_cons]
      rcases hspares next (List.mem_cons_self ..) with hfront | ⟨hbehind, hback⟩
      · rw [shift_cons_of_stop_le _ hnext hfront,
          shift_cons_of_stop_le _ hnext (Int.le_trans hfront (by omega)),
          ih (fun change hmem => hlength change (List.mem_cons_of_mem _ hmem))
            (fun change hmem => hspares change (List.mem_cons_of_mem _ hmem))
            (fun change hmem => hshrinks change (List.mem_cons_of_mem _ hmem)) hsorted.2]
      · -- from here on all changes begin behind the range
        rw [shift_cons_of_lt _ hbehind, ← List.map_cons]
        refine shift_eq_zero fun edit hmem => ?_
        obtain ⟨change, hchange, rfl⟩ := List.mem_map.mp hmem
        refine ⟨?_, hshrinks change hchange⟩
        rcases List.mem_cons.mp hchange with rfl | hrest
        · exact hback
        · have hbefore := hsorted.1 change hrest
          rw [Anchor.Before] at hbefore
          simp only [Change.edit]
          omega

/-! ## Reading -/

namespace Buffer

variable {buffer : Buffer} {writes : List Write} {text : Text}

/-- Between two offsets stands what stood there, if all writes shrink and none meets the
range. -/
theorem Records.slice_eq (records : buffer.Records writes)
    (htext : buffer.text = text.spliceAll writes)
    (hinside : ∀ write ∈ writes, write.Inside text.length)
    (hshrinks : ∀ write ∈ writes, write.Shrinks) {offset length : Nat}
    (hstop : offset + length ≤ text.length)
    (hapart : ∀ write ∈ writes, write.offset + write.length ≤ offset ∨
      (offset + length : Nat) ≤ write.offset) :
    buffer.slice offset (offset + length : Nat) = text.slice offset (offset + length : Nat) := by
  rcases Nat.eq_zero_or_pos length with rfl | hpositive
  · simp [slice, Text.slice]
  · have hspares : ∀ change ∈ arrange writes, change.Spares offset length := by
      intro change hmem
      obtain ⟨-, write, hwrite, hoffset, hlength, -⟩ := exists_write_of_mem_arrange hmem
      rw [Change.Spares, Change.stop, hoffset, hlength]
      rcases hapart write hwrite with hfront | hback
      · exact Or.inl hfront
      · exact Or.inr ⟨by omega, hback⟩
    have hadmits : writes.Pairwise Write.Admits :=
      List.pairwise_of_forall_mem_list fun _ _ later hlater => (hshrinks later hlater).admits
    obtain ⟨front, back, hsplit, hcarry, -⟩ := records.split hinside hadmits hstop hspares
    have hend : buffer.carry (offset + length : Nat) = buffer.carry offset + length := by
      rw [carry, carry, History.carry, History.carry, records.edits_eq, shift_stop_eq
        (fun change hmem => (records.fits hinside change hmem).length_nonneg) hspares ?_
        (arrange_sorted writes)]
      · omega
      · intro change hmem
        obtain ⟨-, write, hwrite, -, hlength, hinserted⟩ := exists_write_of_mem_arrange hmem
        simp only [Change.edit, hlength, hinserted]
        rcases hshrinks write hwrite with hless | ⟨hempty, hnothing⟩
        · omega
        · rw [hempty, hnothing]
          exact Int.le_refl 0
    have hslice := Text.slice_middle front ((text.take (offset + length)).drop offset) back
    rw [Text.length_take_drop hstop, Int.natCast_add, hcarry] at hslice
    rw [slice, hend, htext, hsplit, Text.slice_of_nat]
    exact hslice

end Buffer

end SyntaxRepair
