import SyntaxRepair.Edit.Buffer
import SyntaxRepair.Proofs.Anchors

/-!
# Writes in their order

A buffer is changed by three calls.  `Write` is such a call, and `arrange` puts the
calls of a pass into the order of their places in the text: by offset, and at one
offset in the order in which they were made.  A call together with its number is a
`Change`; what the history keeps of it is `Change.edit`.

## Strategy

Everything about `arrange` goes through one step: a call that is made last has the
greatest number, so it is put in front of the first change at a greater offset
(`arrange_concat`).  Facts about all changes are carried through that step by
`Anchor.mem_insert` and `Anchor.pairwise_insert`.
-/

namespace SyntaxRepair

/-! ## Calls -/

/-- A call that changes a buffer, with offsets of the text as it was. -/
inductive Write
  | replace (offset length : Int) (inserted : Text)
  | insert (offset : Int) (inserted : Text)
  | delete (offset length : Int)
deriving Repr, DecidableEq

namespace Write

/-- Where a write begins. -/
def offset : Write → Int
  | replace offset _ _ => offset
  | insert offset _ => offset
  | delete offset _ => offset

/-- How many characters a write removes. -/
def length : Write → Int
  | replace _ length _ => length
  | insert _ _ => 0
  | delete _ length => length

/-- What a write puts in place of the characters that it removes. -/
def inserted : Write → Text
  | replace _ _ inserted => inserted
  | insert _ inserted => inserted
  | delete _ _ => []

/-- The range that a write removes. -/
def range (write : Write) : Range := ⟨write.offset, write.offset + write.length⟩

/-- Makes a write. -/
def perform (buffer : Buffer) : Write → Except Violation Buffer
  | replace offset length inserted => buffer.replace offset length inserted
  | insert offset inserted => buffer.insert offset inserted
  | delete offset length => buffer.delete offset length

/-- Every write is a replacement. -/
theorem perform_eq_replace (buffer : Buffer) (write : Write) :
    write.perform buffer = buffer.replace write.offset write.length write.inserted := by
  cases write <;> rfl

end Write

/-! ## Changes -/

/-- A write with its number among the writes of a pass. -/
structure Change extends Anchor where
  length : Int
  inserted : Text
deriving Repr, DecidableEq

namespace Change

/-- Where the removed characters end. -/
def stop (change : Change) : Int := change.offset + change.length

/-- What the history keeps of a change. -/
def edit (change : Change) : Edit := ⟨change.toAnchor, change.inserted.length - change.length⟩

/-- A change that removes nothing and inserts nothing. -/
def Idle (change : Change) : Prop := change.length = 0 ∧ change.inserted = []

/-- A change that is over where a later one begins, unless that one is idle. -/
def Clears (change later : Change) : Prop := later.Idle ∨ change.stop ≤ later.offset

/-- A change that lies in front of the range of `length` characters at `offset`, or
behind it. -/
def Spares (change : Change) (offset length : Nat) : Prop :=
  change.stop ≤ offset ∨ (offset : Int) < change.offset ∧ (offset + length : Nat) ≤ change.offset

/-- A change that lies in a text of `size` characters. -/
structure Fits (size : Nat) (change : Change) : Prop where
  offset_nonneg : 0 ≤ change.offset
  length_nonneg : 0 ≤ change.length
  stop_le : change.stop ≤ size

end Change

/-- A write as change number `sequence`. -/
def Write.change (sequence : Nat) (write : Write) : Change :=
  ⟨⟨write.offset, sequence⟩, write.length, write.inserted⟩

/-! ## Arranging -/

/-- The writes of a pass in the order of their places. -/
def arrange (writes : List Write) : List Change :=
  Anchor.sort Change.toAnchor
    (writes.zipIdx.map fun numbered => numbered.1.change numbered.2)

/-- One more write takes its place among the changes. -/
theorem arrange_concat (writes : List Write) (write : Write) :
    arrange (writes ++ [write]) =
      Anchor.insert Change.toAnchor (write.change writes.length) (arrange writes) := by
  rw [arrange, arrange, List.zipIdx_append, List.map_append]
  simp only [List.zipIdx_cons, List.zipIdx_nil, List.map_cons, List.map_nil, Nat.zero_add]
  exact Anchor.sort_concat ..

/-- The changes are the writes with their numbers. -/
theorem mem_arrange {writes : List Write} {change : Change} :
    change ∈ arrange writes ↔
      ∃ (write : Write) (sequence : Nat),
        writes[sequence]? = some write ∧ change = write.change sequence := by
  rw [arrange, (Anchor.sort_perm ..).mem_iff, List.mem_map]
  constructor
  · rintro ⟨⟨write, sequence⟩, hmem, rfl⟩
    exact ⟨write, sequence, List.mem_zipIdx_iff_getElem?.mp hmem, rfl⟩
  · rintro ⟨write, sequence, hget, rfl⟩
    exact ⟨(write, sequence), List.mem_zipIdx_iff_getElem?.mpr hget, rfl⟩

/-- Each change is one of the writes, made before all writes to come. -/
theorem exists_write_of_mem_arrange {writes : List Write} {change : Change}
    (hmem : change ∈ arrange writes) :
    change.sequence < writes.length ∧
      ∃ write ∈ writes, change.offset = write.offset ∧ change.length = write.length ∧
        change.inserted = write.inserted := by
  obtain ⟨write, sequence, hget, rfl⟩ := mem_arrange.mp hmem
  obtain ⟨hlt, heq⟩ := List.getElem?_eq_some_iff.mp hget
  exact ⟨hlt, write, heq ▸ List.getElem_mem hlt, rfl, rfl, rfl⟩

/-- A write that is made last comes in front of the changes at greater offsets and
behind all others. -/
theorem before_iff_of_mem_arrange {writes : List Write} {change : Change} (write : Write)
    (hmem : change ∈ arrange writes) :
    Anchor.Before (write.change writes.length).toAnchor change.toAnchor ↔
      write.offset < change.offset := by
  have hearlier := (exists_write_of_mem_arrange hmem).1
  simp only [Anchor.Before, Write.change]
  omega

/-- The changes stand in the order of their anchors. -/
theorem arrange_sorted (writes : List Write) :
    (arrange writes).Pairwise fun first second =>
      Anchor.Before first.toAnchor second.toAnchor := by
  induction writes using List.reverseRecOn with
  | nil => exact List.Pairwise.nil
  | append_singleton writes write ih =>
      rw [arrange_concat]
      refine Anchor.pairwise_insert ih ih ?_ ?_
      · intro change hmem hbehind
        rw [before_iff_of_mem_arrange write hmem] at hbehind
        have hearlier := (exists_write_of_mem_arrange hmem).1
        simp only [Anchor.Before, Write.change]
        omega
      · exact fun change hmem hbefore => hbefore

end SyntaxRepair
