import Mathlib.Data.List.Forall2

/-!
# Sequences

Facts about sequences of any kind: computations that are carried out one after another, one
computation for each item of a list, and lists that are taken apart.  None of them depends on what
is computed or on what a list holds.

A computation that went through is taken apart with `except_bind_eq_ok`, and one for each item with
`forall₂_of_mapM_eq_ok`.
-/

namespace SyntaxRepair

variable {ε α β : Type}

/-! ## One computation after another -/

/-- A sequence of two computations succeeds exactly if the first one does and the second
one does with its value. -/
theorem except_bind_eq_ok {first : Except ε α} {next : α → Except ε β} {value : β} :
    first >>= next = .ok value ↔ ∃ found, first = .ok found ∧ next found = .ok value := by
  cases first with
  | error failure => simp [bind, Except.bind]
  | ok found => simp [bind, Except.bind]

/-- A sequence does not fail in a way in which none of its parts does. -/
theorem except_bind_ne_error {first : Except ε α} {next : α → Except ε β} {cause : ε}
    (hfirst : first ≠ .error cause) (hnext : ∀ value, next value ≠ .error cause) :
    first >>= next ≠ .error cause := by
  cases first with
  | error other =>
      intro h
      cases h
      exact hfirst rfl
  | ok value => exact hnext value

theorem except_toOption_eq_some {outcome : Except ε α} {value : α} :
    outcome.toOption = some value ↔ outcome = .ok value := by
  cases outcome <;> simp [Except.toOption]

/-! ## One computation for each item -/

/-- What was computed for each item, if no computation failed. -/
theorem forall₂_of_mapM_eq_ok {f : α → Except ε β} {items : List α} {values : List β}
    (h : items.mapM f = .ok values) :
    List.Forall₂ (fun item value => f item = .ok value) items values := by
  induction items generalizing values with
  | nil =>
      cases h
      exact .nil
  | cons item rest ih =>
      rw [List.mapM_cons] at h
      obtain ⟨value, hvalue, hrest⟩ := except_bind_eq_ok.mp h
      obtain ⟨others, hothers, hvalues⟩ := except_bind_eq_ok.mp hrest
      cases hvalues
      exact .cons hvalue (ih hothers)

/-- What is computed for all items, if none of them is refused. -/
theorem mapM_eq_some_map {f : α → Option β} {g : α → β} {items : List α}
    (h : ∀ item ∈ items, f item = some (g item)) : items.mapM f = some (items.map g) := by
  induction items with
  | nil => rfl
  | cons first rest ih =>
      obtain ⟨hfirst, hrest⟩ := List.forall_mem_cons.mp h
      rw [List.mapM_cons, hfirst, ih hrest]
      rfl

/-! ## Lists taken apart -/

/-- An item of a list is the last one or stands in front of it. -/
theorem eq_append_cons_of_concat {items front back : List α} {last item : α}
    (h : items ++ [last] = front ++ item :: back) :
    (items = front ∧ last = item ∧ back = []) ∨
      ∃ rest, back = rest ++ [last] ∧ items = front ++ item :: rest := by
  rcases List.eq_nil_or_concat back with rfl | ⟨rest, other, rfl⟩
  · obtain ⟨hitems, hlast⟩ := List.append_inj' h rfl
    exact Or.inl ⟨hitems, List.head_eq_of_cons_eq hlast, rfl⟩
  · rw [List.concat_eq_append, ← List.cons_append, ← List.append_assoc] at h
    obtain ⟨hitems, hlast⟩ := List.append_inj' h rfl
    cases hlast
    exact Or.inr ⟨rest, List.concat_eq_append, hitems⟩

/-- What stands behind an item is related to what stands behind its image. -/
theorem forall₂_append_cons {R : α → β → Prop} {front back : List α} {item : α} {images : List β}
    (h : List.Forall₂ R (front ++ item :: back) images) :
    ∃ front' image back', images = front' ++ image :: back' ∧ R item image ∧
      List.Forall₂ R back back' := by
  induction front generalizing images with
  | nil =>
      cases h with
      | cons himage hback => exact ⟨[], _, _, rfl, himage, hback⟩
  | cons first front ih =>
      cases h with
      | @cons _ other _ others hother hrest =>
          obtain ⟨front', image, back', rfl, himage, hback⟩ := ih hrest
          exact ⟨other :: front', image, back', rfl, himage, hback⟩

/-- What comes in and what goes out in two steps, one behind the other. -/
theorem perm_through {first between last gone later come more : List α}
    (hfirst : (between ++ gone).Perm (first ++ come))
    (hlast : (last ++ later).Perm (between ++ more)) :
    (last ++ (gone ++ later)).Perm (first ++ (come ++ more)) := by
  calc List.Perm (last ++ (gone ++ later)) (last ++ later ++ gone) := by
        rw [List.append_assoc]
        exact List.perm_append_comm.append_left last
    List.Perm _ (between ++ more ++ gone) := hlast.append_right gone
    List.Perm _ (between ++ gone ++ more) := by
        rw [List.append_assoc, List.append_assoc]
        exact List.perm_append_comm.append_left between
    List.Perm _ (first ++ come ++ more) := hfirst.append_right more
    _ = first ++ (come ++ more) := List.append_assoc ..

end SyntaxRepair
