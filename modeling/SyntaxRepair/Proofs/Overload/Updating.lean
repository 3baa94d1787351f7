import SyntaxRepair.Overload.Groups
import Mathlib.Data.List.Nodup
import Mathlib.Data.List.Perm.Basic

/-!
# Updating the first item

`updateFirst` changes the first item that is sought, or adds a new one behind all others.  Groups
are kept by it on both of their levels, as items that are sought by a name.

What else is looked for is found as before (`find?_updateFirst_of_ne`), and names that differ go on
to differ (`nodup_map_updateFirst`).  What all items hold together grows by what is added to one of
them (`flatMap_updateFirst_perm`).
-/

namespace SyntaxRepair

variable {α β κ : Type} {isSought other : α → Bool} {fresh : α} {change : α → α} {items : List α}

/-! ## What is found -/

theorem updateFirst_of_none (hnone : ∀ item ∈ items, isSought item = false) :
    updateFirst isSought fresh change items = items ++ [change fresh] := by
  induction items with
  | nil => rfl
  | cons item rest ih =>
      rw [List.forall_mem_cons] at hnone
      rw [updateFirst, if_neg (by simp [hnone.1]), ih hnone.2, List.cons_append]

theorem find?_updateFirst (hfresh : isSought (change fresh) = true)
    (hchange : ∀ item, isSought item = true → isSought (change item) = true) :
    (updateFirst isSought fresh change items).find? isSought =
      some (change ((items.find? isSought).getD fresh)) := by
  induction items with
  | nil =>
      rw [updateFirst, List.find?_cons_of_pos hfresh]
      rfl
  | cons item rest ih =>
      unfold updateFirst
      by_cases hitem : isSought item = true
      · rw [if_pos hitem, List.find?_cons_of_pos (hchange item hitem), List.find?_cons_of_pos hitem]
        rfl
      · rw [if_neg hitem, List.find?_cons_of_neg hitem, List.find?_cons_of_neg hitem, ih]

theorem find?_updateFirst_of_ne (hfresh : other (change fresh) = false)
    (hchange : ∀ item, isSought item = true →
      other item = false ∧ other (change item) = false) :
    (updateFirst isSought fresh change items).find? other = items.find? other := by
  induction items with
  | nil =>
      rw [updateFirst, List.find?_cons_of_neg (by simp [hfresh])]
  | cons item rest ih =>
      unfold updateFirst
      by_cases hitem : isSought item = true
      · obtain ⟨hbefore, hafter⟩ := hchange item hitem
        rw [if_pos hitem, List.find?_cons_of_neg (by simp [hafter]),
          List.find?_cons_of_neg (by simp [hbefore])]
      · rw [if_neg hitem, List.find?_cons, List.find?_cons, ih]

/-! ## What is held -/

theorem mem_of_mem_updateFirst {item : α} (hmem : item ∈ updateFirst isSought fresh change items) :
    item ∈ items ∨ ∃ old, (old ∈ items ∨ old = fresh) ∧ item = change old := by
  induction items with
  | nil =>
      rw [updateFirst, List.mem_singleton] at hmem
      exact Or.inr ⟨fresh, Or.inr rfl, hmem⟩
  | cons first rest ih =>
      unfold updateFirst at hmem
      split at hmem
      · rcases List.mem_cons.mp hmem with hitem | hrest
        · exact Or.inr ⟨first, Or.inl (List.mem_cons_self ..), hitem⟩
        · exact Or.inl (List.mem_cons_of_mem _ hrest)
      · rcases List.mem_cons.mp hmem with rfl | hrest
        · exact Or.inl (List.mem_cons_self ..)
        · rcases ih hrest with hold | ⟨old, hold, hitem⟩
          · exact Or.inl (List.mem_cons_of_mem _ hold)
          · exact Or.inr ⟨old, hold.imp_left (List.mem_cons_of_mem _), hitem⟩

/-- Names that differ go on to differ, if an item is sought by its name and keeps it. -/
theorem nodup_map_updateFirst {name : α → κ} (sought : κ)
    (hsought : ∀ item, isSought item = true ↔ name item = sought) (hfresh : name fresh = sought)
    (hchange : ∀ item, name (change item) = name item) (hnodup : (items.map name).Nodup) :
    ((updateFirst isSought fresh change items).map name).Nodup := by
  induction items with
  | nil => exact List.nodup_singleton _
  | cons first rest ih =>
      rw [List.map_cons, List.nodup_cons] at hnodup
      unfold updateFirst
      split
      · rw [List.map_cons, hchange]
        exact List.nodup_cons.mpr hnodup
      · rename_i hnot
        rw [List.map_cons, List.nodup_cons]
        refine ⟨fun hmem => ?_, ih hnodup.2⟩
        obtain ⟨item, hitem, hname⟩ := List.mem_map.mp hmem
        rcases mem_of_mem_updateFirst hitem with hrest | ⟨old, hold | rfl, rfl⟩
        · exact hnodup.1 (hname ▸ List.mem_map_of_mem hrest)
        · rw [hchange] at hname
          exact hnodup.1 (hname ▸ List.mem_map_of_mem hold)
        · rw [hchange, hfresh] at hname
          exact hnot ((hsought first).mpr hname.symm)

/-- What is added to one item is added to all of them together. -/
theorem flatMap_updateFirst_perm {f : α → List β} {added : List β}
    (hsought : isSought fresh = true) (hfresh : f fresh = [])
    (hchange : ∀ item, item ∈ items ∨ item = fresh → isSought item = true →
      (f (change item)).Perm (f item ++ added)) :
    ((updateFirst isSought fresh change items).flatMap f).Perm (items.flatMap f ++ added) := by
  induction items with
  | nil =>
      rw [updateFirst, List.flatMap_singleton, List.flatMap_nil, ← hfresh]
      exact hchange fresh (Or.inr rfl) hsought
  | cons first rest ih =>
      unfold updateFirst
      split
      · rename_i hfirst
        rw [List.flatMap_cons, List.flatMap_cons, List.append_assoc]
        refine ((hchange first (Or.inl (List.mem_cons_self ..)) hfirst).append_right _).trans ?_
        rw [List.append_assoc]
        exact List.perm_append_comm.append_left _
      · rw [List.flatMap_cons, List.flatMap_cons, List.append_assoc]
        refine (ih fun item hitem => ?_).append_left _
        exact hchange item (hitem.imp_left (List.mem_cons_of_mem _))

/-- A function that keeps what is sought may be applied before an update. -/
theorem map_updateFirst {α β : Type} (f : α → β) {isSought : α → Bool} {isSought' : β → Bool}
    {fresh : α} {fresh' : β} {change : α → α} {change' : β → β}
    (hsought : ∀ item, isSought' (f item) = isSought item) (hfresh : f fresh = fresh')
    (hchange : ∀ item, f (change item) = change' (f item)) (items : List α) :
    (updateFirst isSought fresh change items).map f =
      updateFirst isSought' fresh' change' (items.map f) := by
  induction items with
  | nil => rw [updateFirst, List.map_singleton, hchange, hfresh, List.map_nil, updateFirst]
  | cons item rest ih =>
      rw [updateFirst, List.map_cons, updateFirst, hsought]
      split
      · rw [List.map_cons, hchange]
      · rw [List.map_cons, ih]

end SyntaxRepair
