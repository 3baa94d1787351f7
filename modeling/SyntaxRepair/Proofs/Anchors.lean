import SyntaxRepair.Anchor
import Mathlib.Data.List.Induction
import Mathlib.Data.List.Nodup

/-!
# Items in the order of their anchors

Edits, changes and missions are all kept by their anchors.  What follows from the order holds for
items of any kind: an anchor tells its item (`Anchor.nodup_map`), so what is erased by its anchor is
one item (`Anchor.eraseP_eq_filter`).

Facts about neighbours are carried through an insertion by `Anchor.pairwise_insert`, and an item
with the greatest number goes behind all others at its offset (`Anchor.filter_insert_last`).
-/

namespace SyntaxRepair

namespace Anchor

variable {α β : Type} {anchor : α → Anchor} {item : α} {items : List α}

/-! ## The order -/

theorem before_of_not_before {first second : Anchor} (hne : first.sequence ≠ second.sequence)
    (hnot : ¬ Before first second) : Before second first := by
  unfold Before at *
  omega

/-- No two items in their order have one anchor. -/
theorem nodup_map (hordered : items.Pairwise fun first second =>
    Before (anchor first) (anchor second)) : (items.map anchor).Nodup := by
  rw [List.Nodup, List.pairwise_map]
  refine hordered.imp fun {first second} hbefore hsame => ?_
  rw [hsame] at hbefore
  exact Before.irrefl _ hbefore

/-- Of items in their order only one is erased with an anchor. -/
theorem eraseP_eq_filter {place : Anchor} (hordered : items.Pairwise fun first second =>
    Before (anchor first) (anchor second)) :
    (items.eraseP fun item => anchor item = place) =
      items.filter fun item => anchor item ≠ place := by
  induction items with
  | nil => rfl
  | cons item rest ih =>
      rw [List.pairwise_cons] at hordered
      by_cases hsame : anchor item = place
      · have hothers : ∀ other ∈ rest, decide (anchor other ≠ place) = true := by
          intro other hmem
          refine decide_eq_true fun hother => ?_
          have hbefore := hordered.1 other hmem
          rw [hsame, hother] at hbefore
          exact Before.irrefl place hbefore
        rw [List.eraseP_cons_of_pos (by simpa using hsame),
          List.filter_cons_of_neg (by simpa using hsame), List.filter_eq_self.mpr hothers]
      · rw [List.eraseP_cons_of_neg (by simpa using hsame),
          List.filter_cons_of_pos (by simpa using hsame), ih hordered.2]

/-- Of two items in the order of their anchors the earlier one stands in front. -/
theorem exists_eq_append_of_before
    (hordered : items.Pairwise fun first second => Before (anchor first) (anchor second))
    {first second : α} (hfirst : first ∈ items) (hsecond : second ∈ items)
    (hbefore : Before (anchor first) (anchor second)) :
    ∃ front middle back, items = front ++ first :: (middle ++ second :: back) := by
  obtain ⟨front, rest, rfl⟩ := List.append_of_mem hfirst
  rw [List.pairwise_append, List.pairwise_cons] at hordered
  obtain ⟨-, -, hacross⟩ := hordered
  -- the later item stands neither in front of the earlier one nor in its place
  rcases List.mem_append.mp hsecond with hfront | hrest
  · exact absurd ((hacross second hfront first (List.mem_cons_self ..)).trans hbefore)
      (Before.irrefl _)
  · rcases List.mem_cons.mp hrest with rfl | hbehind
    · exact absurd hbefore (Before.irrefl _)
    · obtain ⟨middle, back, rfl⟩ := List.append_of_mem hbehind
      exact ⟨front, middle, back, rfl⟩

/-! ## Insertion -/

theorem mem_insert {other : α} :
    other ∈ insert anchor item items ↔ other = item ∨ other ∈ items := by
  rw [(insert_perm anchor item items).mem_iff, List.mem_cons]

/-- A function that keeps the anchors may be applied before the insertion. -/
theorem map_insert (anchor : α → Anchor) (image : β → Anchor) (f : α → β)
    (hf : ∀ item, image (f item) = anchor item) (item : α) (items : List α) :
    (insert anchor item items).map f = insert image (f item) (items.map f) := by
  induction items with
  | nil => rfl
  | cons next rest ih =>
      simp only [insert, List.map_cons, hf]
      split
      · rfl
      · rw [List.map_cons, ih]

/-- What holds between neighbours on both sides of the new item, and between it and
them, holds throughout the list with the item. -/
theorem pairwise_insert {R : α → α → Prop}
    (hsorted : items.Pairwise fun first second => Before (anchor first) (anchor second))
    (hitems : items.Pairwise R)
    (hfront : ∀ other ∈ items, ¬ Before (anchor item) (anchor other) → R other item)
    (hback : ∀ other ∈ items, Before (anchor item) (anchor other) → R item other) :
    (insert anchor item items).Pairwise R := by
  induction items with
  | nil => exact List.pairwise_singleton R item
  | cons next rest ih =>
      rw [List.pairwise_cons] at hsorted hitems
      unfold insert
      split
      · rename_i hbefore
        refine List.pairwise_cons.mpr ⟨?_, List.pairwise_cons.mpr hitems⟩
        intro other hother
        rcases List.mem_cons.mp hother with rfl | hrest
        · exact hback other hother hbefore
        · exact hback other hother (hbefore.trans (hsorted.1 other hrest))
      · rename_i hbehind
        refine List.pairwise_cons.mpr ⟨?_, ?_⟩
        · intro other hother
          rcases mem_insert.mp hother with rfl | hrest
          · exact hfront next (List.mem_cons_self ..) hbehind
          · exact hitems.1 other hrest
        · exact ih hsorted.2 hitems.2
            (fun other hother => hfront other (List.mem_cons_of_mem _ hother))
            (fun other hother => hback other (List.mem_cons_of_mem _ hother))

/-- An item is inserted into its place if no other one has its number. -/
theorem pairwise_before_insert
    (hordered : items.Pairwise fun first second => Before (anchor first) (anchor second))
    (hnew : ∀ other ∈ items, (anchor item).sequence ≠ (anchor other).sequence) :
    (insert anchor item items).Pairwise fun first second =>
      Before (anchor first) (anchor second) :=
  pairwise_insert hordered hordered
    (fun other hother hnot => before_of_not_before (hnew other hother) hnot)
    (fun _ _ hbefore => hbefore)

/-- An item that has the greatest number stands behind all others at its offset. -/
theorem filter_insert_last (item : α) (chosen : α → Bool)
    (hsorted : items.Pairwise fun first second => Before (anchor first) (anchor second))
    (hlast : ∀ other ∈ items, (anchor other).sequence < (anchor item).sequence)
    (hchosen : ∀ other, chosen item = true → chosen other = true →
      (anchor other).offset = (anchor item).offset) :
    (insert anchor item items).filter chosen = items.filter chosen ++ [item].filter chosen := by
  induction items with
  | nil => rfl
  | cons next rest ih =>
      rw [List.pairwise_cons] at hsorted
      unfold insert
      split
      · rename_i hbefore
        by_cases hitem : chosen item = true
        · -- what follows has a greater offset, as no number is greater
          have hnone : (next :: rest).filter chosen = [] := by
            refine List.filter_eq_nil_iff.mpr fun other hother hsame => ?_
            have hsequence := hlast other hother
            have hoffset := hchosen other hitem hsame
            have hahead : Before (anchor item) (anchor other) := by
              rcases List.mem_cons.mp hother with rfl | hrest
              · exact hbefore
              · exact hbefore.trans (hsorted.1 other hrest)
            unfold Before at hahead
            omega
          rw [List.filter_cons_of_pos hitem, List.filter_cons_of_pos hitem, hnone]
          rfl
        · rw [List.filter_cons_of_neg hitem, List.filter_cons_of_neg hitem, List.filter_nil,
            List.append_nil]
      · have hrest := ih hsorted.2 fun other hother => hlast other (List.mem_cons_of_mem _ hother)
        rw [List.filter_cons, List.filter_cons, hrest]
        split <;> rfl

/-! ## Sorting -/

/-- Sorting one more item inserts it among the others. -/
theorem sort_concat (anchor : α → Anchor) (items : List α) (item : α) :
    sort anchor (items ++ [item]) = insert anchor item (sort anchor items) := by
  rw [sort, List.foldl_append]
  rfl

/-- Items with different numbers are sorted into their order. -/
theorem pairwise_before_sort
    (hdistinct : items.Pairwise fun first second =>
      (anchor first).sequence ≠ (anchor second).sequence) :
    (sort anchor items).Pairwise fun first second => Before (anchor first) (anchor second) := by
  induction items using List.reverseRecOn with
  | nil => exact List.Pairwise.nil
  | append_singleton items item ih =>
      rw [List.pairwise_append] at hdistinct
      obtain ⟨hitems, -, hbetween⟩ := hdistinct
      rw [sort_concat]
      refine pairwise_before_insert (ih hitems) fun other hother => ?_
      rw [(sort_perm anchor items).mem_iff] at hother
      exact (hbetween other hother item (List.mem_singleton_self item)).symm

end Anchor

end SyntaxRepair
