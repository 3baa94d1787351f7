import SyntaxRepair.Proofs.Edit.Performing
import SyntaxRepair.Proofs.Text.Weaving

/-!
# Insertions

Writes that only insert weave a text: in front of each offset stands what was inserted there, in
the order in which it was inserted.

Taken by their places, the insertions of one offset stand next to one another and in the order of
the calls (`insertedAt_eq_changedAt`), so the spliced text is gone through once, from one
offset to the next (`Text.spliceFrom_eq_weaveFrom`).
-/

namespace SyntaxRepair

/-- What some writes insert at a place, in the order in which they are made. -/
def insertedAt (writes : List Write) (place : Nat) : Text :=
  (writes.filter fun write => write.offset = (place : Int)).flatMap Write.inserted

theorem insertedAt_append (first second : List Write) (place : Nat) :
    insertedAt (first ++ second) place = insertedAt first place ++ insertedAt second place := by
  rw [insertedAt, List.filter_append, List.flatMap_append]
  rfl

theorem insertedAt_cons {write : Write} {place : Nat} (hplace : write.offset = place)
    (rest : List Write) :
    insertedAt (write :: rest) place = write.inserted ++ insertedAt rest place := by
  rw [insertedAt, List.filter_cons_of_pos (by simpa using hplace), List.flatMap_cons]
  rfl

/-- What changes in their order insert at a place. -/
def changedAt (changes : List Change) (place : Nat) : Text :=
  (changes.filter fun change => change.offset = (place : Int)).flatMap Change.inserted

theorem changedAt_eq_nil {changes : List Change} {place : Nat}
    (hnone : ∀ change ∈ changes, change.offset ≠ (place : Int)) : changedAt changes place = [] := by
  rw [changedAt, List.filter_eq_nil_iff.mpr, List.flatMap_nil]
  intro change hmem hsame
  exact hnone change hmem (of_decide_eq_true hsame)

theorem changedAt_cons_of_eq {change : Change} {place : Nat} (hplace : change.offset = place)
    (rest : List Change) :
    changedAt (change :: rest) place = change.inserted ++ changedAt rest place := by
  rw [changedAt, List.filter_cons_of_pos (by simpa using hplace), List.flatMap_cons]
  rfl

theorem changedAt_cons_of_ne {change : Change} {place : Nat} (hplace : change.offset ≠ place)
    (rest : List Change) : changedAt (change :: rest) place = changedAt rest place := by
  rw [changedAt, List.filter_cons_of_neg (by simpa using hplace)]
  rfl

/-- The changes of one place stand in the order in which they are made. -/
theorem insertedAt_eq_changedAt (writes : List Write) (place : Nat) :
    insertedAt writes place = changedAt (arrange writes) place := by
  induction writes using List.reverseRecOn with
  | nil => rfl
  | append_singleton writes write ih =>
      have hlast := Anchor.filter_insert_last (write.change writes.length)
        (fun change => change.offset = (place : Int)) (arrange_sorted writes)
        (fun change hmem => (exists_write_of_mem_arrange hmem).1)
        (fun change hitem hother =>
          (of_decide_eq_true hother).trans (of_decide_eq_true hitem).symm)
      rw [insertedAt_append, arrange_concat, changedAt, hlast, List.flatMap_append, ← changedAt,
        ← ih]
      refine congrArg (insertedAt writes place ++ ·) ?_
      have hsame : (write.change writes.length).offset = write.offset := rfl
      simp only [insertedAt, List.filter_cons, List.filter_nil, hsame]
      split <;> rfl

namespace Text

/-- A text with insertions in their order is woven with them. -/
theorem spliceFrom_eq_weaveFrom {text : Text} {changes : List Change} {place : Nat}
    (hsorted : changes.Pairwise fun first second => Anchor.Before first.toAnchor second.toAnchor)
    (hempty : ∀ change ∈ changes, change.length = 0)
    (hplaced : ∀ change ∈ changes, (place : Int) ≤ change.offset)
    (hinside : ∀ change ∈ changes, change.offset ≤ text.length) :
    text.spliceFrom place changes = weaveFrom (changedAt changes) place (text.drop place) := by
  -- the text up to the first change is copied, and then what it inserts stands in front of the rest
  induction changes generalizing place with
  | nil => exact (weaveFrom_of_eq_nil fun _ _ => rfl).symm
  | cons change rest ih =>
      rw [List.pairwise_cons] at hsorted
      rw [List.forall_mem_cons] at hempty hplaced hinside
      obtain ⟨offset, hoffset⟩ := Int.eq_ofNat_of_zero_le
        (Int.le_trans (Int.natCast_nonneg place) hplaced.1)
      have hstop : max place change.stop.toNat = offset := by
        rw [Change.stop, hempty.1]
        omega
      have hrest : ∀ later ∈ rest, (offset : Int) ≤ later.offset := by
        intro later hlater
        have hbefore := hsorted.1 later hlater
        unfold Anchor.Before at hbefore
        omega
      have hcut : text.drop place = (text.take offset).drop place ++ text.drop offset :=
        (take_drop_append_drop text (by omega)).symm
      have hlength : ((text.take offset).drop place).length = offset - place := by
        rw [List.length_drop, List.length_take]
        omega
      have hnone : ∀ earlier, place ≤ earlier →
          earlier < place + ((text.take offset).drop place).length →
            changedAt (change :: rest) earlier = [] := by
        intro earlier _ hlt
        refine changedAt_eq_nil (List.forall_mem_cons.mpr ⟨by omega, fun later hmem => ?_⟩)
        have hle := hrest later hmem
        omega
      have hlater : ∀ later, offset < later →
          changedAt (change :: rest) later = changedAt rest later :=
        fun later hlt => changedAt_cons_of_ne (by omega) rest
      rw [spliceFrom, hstop, ih hsorted.2 hempty.2 hrest hinside.2, hcut, weaveFrom_append hnone,
        hlength, Nat.add_sub_cancel' (by omega),
        weaveFrom_eq_append (changedAt_cons_of_eq hoffset rest) hlater, List.append_assoc, hoffset]
      rfl

end Text

/-- **Insertions.**  A buffer that has only accepted insertions holds the text woven with them:
in front of each offset stands what was inserted there, in the order of the calls. -/
theorem Buffer.text_of_insertions {text : Text} {writes : List Write} {buffer : Buffer}
    (hempty : ∀ write ∈ writes, write.length = 0)
    (hinside : ∀ write ∈ writes, write.Inside text.length)
    (hperform : performAll { text } writes = .ok buffer) :
    buffer.text = text.weave (insertedAt writes) := by
  have records := records_of_performAll hperform
  have hfits := records.fits hinside
  -- a write that removes nothing admits every other one
  have hadmits : writes.Pairwise Write.Admits := by
    refine List.pairwise_of_forall_mem_list fun earlier hearlier _ _ _ _ hpositive => ?_
    rw [hempty earlier hearlier] at hpositive
    exact absurd hpositive (Int.lt_irrefl 0)
  have hadded : insertedAt writes = changedAt (arrange writes) :=
    funext (insertedAt_eq_changedAt writes)
  rw [text_of_performAll hinside hadmits hperform, hadded]
  refine Text.spliceFrom_eq_weaveFrom (arrange_sorted writes) ?_ ?_ ?_
  · intro change hmem
    obtain ⟨-, write, hwrite, -, hlength, -⟩ := exists_write_of_mem_arrange hmem
    rw [hlength, hempty write hwrite]
  · exact fun change hmem => (hfits change hmem).offset_nonneg
  · intro change hmem
    have hstop := (hfits change hmem).stop_le
    have hlength := (hfits change hmem).length_nonneg
    rw [Change.stop] at hstop
    omega

end SyntaxRepair
