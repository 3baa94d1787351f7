/-!
# Anchors

Edits and missions are kept in the order of their anchors: by offset, and at one
offset by the order in which they were made.
-/

namespace SyntaxRepair

/-- A place in a text, with a number that says when it was taken. -/
structure Anchor where
  offset : Int
  sequence : Nat
deriving Repr, DecidableEq

namespace Anchor

/-- The order of anchors: by offset, and at one offset by sequence number. -/
def Before (first second : Anchor) : Prop :=
  first.offset < second.offset ∨
    first.offset = second.offset ∧ first.sequence < second.sequence

instance (first second : Anchor) : Decidable (Before first second) :=
  inferInstanceAs (Decidable (_ ∨ _))

theorem Before.trans {first second third : Anchor} (h₁ : Before first second)
    (h₂ : Before second third) : Before first third := by
  unfold Before at *
  omega

theorem Before.irrefl (anchor : Anchor) : ¬ Before anchor anchor := by
  unfold Before
  omega

/-- Puts an item in front of the first one whose anchor comes after its own. -/
def insert {α : Type} (anchor : α → Anchor) (item : α) : List α → List α
  | [] => [item]
  | next :: rest =>
    if Before (anchor item) (anchor next) then item :: next :: rest
    else next :: insert anchor item rest

/-- Insertion adds the item and nothing else. -/
theorem insert_perm {α : Type} (anchor : α → Anchor) (item : α) (items : List α) :
    (insert anchor item items).Perm (item :: items) := by
  induction items with
  | nil => exact List.Perm.refl _
  | cons next rest ih =>
    unfold insert
    split
    · exact List.Perm.refl _
    · exact (List.Perm.cons next ih).trans (List.Perm.swap item next rest)

/-- Items in the order of their anchors. -/
def sort {α : Type} (anchor : α → Anchor) (items : List α) : List α :=
  items.foldl (fun sorted item => insert anchor item sorted) []

/-- Sorting reorders and does nothing else. -/
theorem sort_perm {α : Type} (anchor : α → Anchor) (items : List α) :
    (sort anchor items).Perm items := by
  have hfold : ∀ (rest sorted : List α),
      (rest.foldl (fun sorted item => insert anchor item sorted) sorted).Perm
        (rest ++ sorted) := by
    intro rest
    induction rest with
    | nil => exact fun sorted => List.Perm.refl sorted
    | cons item rest ih =>
      intro sorted
      refine (ih (insert anchor item sorted)).trans ?_
      exact ((insert_perm anchor item sorted).append_left rest).trans List.perm_middle
  simpa [sort] using hfold items []

end Anchor

end SyntaxRepair
