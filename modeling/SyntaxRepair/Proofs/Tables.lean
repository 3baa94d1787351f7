import Mathlib.Data.List.Basic
import Mathlib.Logic.Basic

/-!
# Tables

A table is a list of keys, each with what it stands for.  A new entry takes the place of the one
that its key has, or stands behind all others: then its key stands for it, and nothing else changes
(`lookup_put`), and no key comes to stand in the table twice (`nodup_keys_put`).
-/

namespace SyntaxRepair.Table

variable {α β : Type} [BEq α] [LawfulBEq α] {entries : List (α × β)}
  {key other : α} {value : β}

theorem mem_of_lookup (h : entries.lookup key = some value) : (key, value) ∈ entries := by
  obtain ⟨before, behind, hentries, -⟩ := List.lookup_eq_some_iff.mp h
  simp [hentries]

variable [DecidableEq α]

/-- What an entry that is put in the place of others leaves to be found. -/
theorem lookup_replace :
    (entries.map fun item => if item.1 = key then (key, value) else item).lookup other =
      if other = key then (entries.lookup key).map fun _ => value else entries.lookup other := by
  induction entries with
  | nil => simp
  | cons item rest ih =>
      obtain ⟨first, held⟩ := item
      rw [List.map_cons]
      by_cases hfirst : first = key
      · subst hfirst
        by_cases hother : other = first
        · simp [hother]
        · simp [List.lookup_cons, beq_false_of_ne hother, ih, hother]
      · by_cases hother : other = key
        · subst hother
          simp [List.lookup_cons, hfirst, beq_false_of_ne (Ne.symm hfirst), ih]
        · by_cases hsame : other = first
          · simp [hsame, hfirst]
          · simp [List.lookup_cons, hfirst, beq_false_of_ne hsame, ih, hother]

theorem lookup_eq_none_iff : entries.lookup key = none ↔ entries.any (·.1 = key) = false := by
  rw [List.lookup_eq_none_iff, List.any_eq_false]
  refine forall₂_congr fun item _ => ?_
  rw [bne_iff_ne, decide_eq_true_iff, ne_comm]

theorem exists_lookup_of_mem (hmem : key ∈ entries.map Prod.fst) :
    ∃ value, entries.lookup key = some value := by
  rw [← Option.ne_none_iff_exists', ne_eq, lookup_eq_none_iff, Bool.not_eq_false, List.any_eq_true]
  obtain ⟨item, hitem, rfl⟩ := List.mem_map.mp hmem
  exact ⟨item, hitem, decide_eq_true rfl⟩

/-- The key of a new entry stands for it, and all others for what they did. -/
theorem lookup_put :
    (if entries.any (·.1 = key) then
        entries.map fun item => if item.1 = key then (key, value) else item
      else entries ++ [(key, value)]).lookup other =
      if other = key then some value else entries.lookup other := by
  cases hany : entries.any (·.1 = key) with
  | false =>
      rw [if_neg Bool.false_ne_true, List.lookup_append]
      by_cases hother : other = key
      · rw [hother, lookup_eq_none_iff.mpr hany, if_pos rfl, Option.none_or, List.lookup_cons_self]
      · simp [List.lookup_cons, beq_false_of_ne hother, hother]
  | true =>
      rw [if_pos rfl, lookup_replace]
      cases hlookup : entries.lookup key with
      | none =>
          rw [lookup_eq_none_iff.mp hlookup] at hany
          cases hany
      | some held => rfl

omit [BEq α] [LawfulBEq α] in
theorem nodup_keys_put (hnodup : (entries.map Prod.fst).Nodup) :
    ((if entries.any (·.1 = key) then
        entries.map fun item => if item.1 = key then (key, value) else item
      else entries ++ [(key, value)]).map Prod.fst).Nodup := by
  split
  · have hkeys :
        (entries.map fun item => if item.1 = key then (key, value) else item).map Prod.fst =
          entries.map Prod.fst := by
      rw [List.map_map]
      refine List.map_congr_left fun item _ => ?_
      by_cases hitem : item.1 = key <;> simp [hitem]
    rwa [hkeys]
  · next hnone =>
    rw [List.map_append, List.map_singleton, List.nodup_append]
    refine ⟨hnodup, by simp, fun first hfirst second hsecond heq => hnone ?_⟩
    obtain ⟨item, hitem, hkey⟩ := List.mem_map.mp hfirst
    rw [List.any_eq_true]
    exact ⟨item, hitem, decide_eq_true (by rw [hkey, heq, List.mem_singleton.mp hsecond])⟩

end SyntaxRepair.Table
