import SyntaxRepair.Text.Basic
import Mathlib.Data.List.Basic

/-!
# Parts of a text

What is cut out of a text, and what is put in its place.  Between places inside the text, a slice is
what stands between them, and slices that lie next to one another are one slice
(`Text.slice_append_slice`).  A splice replaces the middle one of three parts
(`Text.splice_of_append`), so two splices behind one another may be made in both orders
(`Text.splice_comm`).
-/

namespace SyntaxRepair

namespace Text

/-! ## Items -/

/-- An item that is picked from a list is one of the list. -/
theorem mem_of_pick? {α : Type} {items : List α} {index : Int} {item : α}
    (h : pick? items index = some item) : item ∈ items := by
  unfold pick? at h
  split at h
  · exact List.mem_of_getElem? h
  · split at h
    · exact List.mem_of_getElem? h
    · cases h

theorem pick?_natCast {α : Type} (items : List α) (place : Nat) :
    pick? items (place : Int) = items[place]? := by
  rw [pick?, if_pos (Int.natCast_nonneg _), Int.toNat_natCast]

/-! ## Stretches -/

/-- Two stretches of a text that lie next to one another are one stretch. -/
theorem take_drop_append_take_drop (text : Text) {start middle stop : Nat}
    (hstart : start ≤ middle) (hstop : middle ≤ stop) :
    (text.take middle).drop start ++ (text.take stop).drop middle =
      (text.take stop).drop start := by
  have hsplit : text.take stop = text.take middle ++ (text.take stop).drop middle := by
    conv_lhs => rw [← List.take_append_drop middle (text.take stop)]
    rw [List.take_take, Nat.min_eq_left hstop]
  conv_rhs => rw [hsplit, List.drop_append]
  congr 1
  rw [List.length_take]
  rcases Nat.le_total middle text.length with hinside | houtside
  · rw [Nat.min_eq_left hinside, Nat.sub_eq_zero_of_le hstart, List.drop_zero]
  · have hempty : (text.take stop).drop middle = [] := by
      rw [List.drop_eq_nil_iff, List.length_take]
      omega
    rw [hempty, List.drop_nil]

theorem take_drop_append_drop (text : Text) {start middle : Nat} (hstart : start ≤ middle) :
    (text.take middle).drop start ++ text.drop middle = text.drop start := by
  rcases Nat.le_total middle text.length with hinside | houtside
  · have happend := take_drop_append_take_drop text hstart hinside
    rwa [List.take_length] at happend
  · rw [List.take_of_length_le houtside, List.drop_of_length_le houtside, List.append_nil]

/-- A text in three parts, cut at two places. -/
theorem eq_append_take_drop_append (text : Text) {start stop : Nat} (hle : start ≤ stop) :
    text = text.take start ++ (text.take stop).drop start ++ text.drop stop := by
  have hfront : text.take start ++ (text.take stop).drop start = text.take stop :=
    take_drop_append_take_drop text (Nat.zero_le start) hle
  rw [hfront, List.take_append_drop]

theorem length_take_drop {text : Text} {start length : Nat}
    (hinside : start + length ≤ text.length) :
    ((text.take (start + length)).drop start).length = length := by
  rw [List.length_drop, List.length_take]
  omega

/-- A text in three parts with given lengths. -/
theorem exists_eq_append (text : Text) {start length : Int} (hstart : 0 ≤ start)
    (hlength : 0 ≤ length) (hinside : start + length ≤ text.length) :
    ∃ front middle back : Text, text = front ++ middle ++ back ∧ (front.length : Int) = start ∧
      (middle.length : Int) = length := by
  obtain ⟨start, rfl⟩ := Int.eq_ofNat_of_zero_le hstart
  obtain ⟨length, rfl⟩ := Int.eq_ofNat_of_zero_le hlength
  have hle : start + length ≤ text.length := by omega
  refine ⟨text.take start, (text.take (start + length)).drop start, text.drop (start + length),
    text.eq_append_take_drop_append (Nat.le_add_right ..), ?_, ?_⟩
  · rw [List.length_take]
    omega
  · rw [length_take_drop hle]

/-! ## Slices -/

theorem length_slice_of_le {text : Text} {start stop : Nat} (hstop : stop ≤ text.length) :
    (text.slice start stop).length = stop - start := by
  rw [slice_of_nat, List.length_drop, List.length_take, Nat.min_eq_left hstop]

theorem length_slice (text : Text) {start stop : Int} (hstart : 0 ≤ start) (hle : start ≤ stop)
    (hstop : stop ≤ text.length) : ((text.slice start stop).length : Int) = stop - start := by
  obtain ⟨start, rfl⟩ := Int.eq_ofNat_of_zero_le hstart
  obtain ⟨stop, rfl⟩ := Int.eq_ofNat_of_zero_le (Int.le_trans hstart hle)
  rw [length_slice_of_le (Int.ofNat_le.mp hstop)]
  omega

/-- A slice is no longer than the distance of its bounds. -/
theorem length_slice_le (text : Text) {start stop : Int} (hstart : 0 ≤ start)
    (hstop : start ≤ stop) : ((text.slice start stop).length : Int) ≤ stop - start := by
  rw [slice, position_of_nonneg _ hstart,
    position_of_nonneg _ (Int.le_trans hstart hstop), List.length_drop, List.length_take]
  omega

/-- The middle one of three parts can be cut out. -/
theorem slice_middle (front middle back : Text) :
    (front ++ middle ++ back).slice front.length (front.length + middle.length : Nat) =
      middle := by
  rw [slice_of_nat, ← List.length_append, List.take_left, List.drop_left]

theorem slice_append_slice (text : Text) {first second third : Int} (hnonneg : 0 ≤ first)
    (hfirst : first ≤ second) (hsecond : second ≤ third) :
    text.slice first second ++ text.slice second third = text.slice first third := by
  obtain ⟨first, rfl⟩ := Int.eq_ofNat_of_zero_le hnonneg
  obtain ⟨second, rfl⟩ := Int.eq_ofNat_of_zero_le (Int.le_trans hnonneg hfirst)
  obtain ⟨third, rfl⟩ :=
    Int.eq_ofNat_of_zero_le (Int.le_trans hnonneg (Int.le_trans hfirst hsecond))
  simp only [slice_of_nat]
  exact take_drop_append_take_drop text (Int.ofNat_le.mp hfirst) (Int.ofNat_le.mp hsecond)

/-- What stands between two places of a text stands in the part between them. -/
theorem mem_slice_of_getElem? {text : Text} {start stop place : Nat} {c : CodePoint}
    (hstart : start ≤ place) (hstop : place < stop) (hplace : text[place]? = some c) :
    c ∈ text.slice start stop := by
  rw [slice_of_nat, List.mem_iff_getElem?]
  refine ⟨place - start, ?_⟩
  rw [List.getElem?_drop, Nat.add_sub_cancel' hstart, List.getElem?_take_of_lt hstop, hplace]

/-! ## Splices -/

/-- The middle one of three parts can be replaced. -/
theorem splice_middle (front middle back inserted : Text) :
    (front ++ middle ++ back).splice front.length (front.length + middle.length : Nat) inserted =
      front ++ inserted ++ back := by
  rw [splice_of_nat, ← List.length_append, List.drop_left, List.append_assoc front middle,
    List.take_left]

/-- A cut around the middle one of three parts. -/
theorem splice_of_append {text inserted : Text} {start : Int} {front middle back : Text}
    {length : Int}
    (htext : text = front ++ middle ++ back) (hstart : (front.length : Int) = start)
    (hlength : (middle.length : Int) = length) :
    text.splice start (start + length) inserted = front ++ inserted ++ back := by
  rw [htext, ← hstart, ← hlength, ← Int.natCast_add, splice_middle]

/-- Two cuts one behind the other may be made in both orders. -/
theorem splice_comm (text : Text) {start length place width : Int} {inserted later : Text}
    (hstart : 0 ≤ start) (hlength : 0 ≤ length) (hle : start + length ≤ place) (hwidth : 0 ≤ width)
    (hinside : place + width ≤ text.length) :
    (text.splice start (start + length) inserted).splice (place + (inserted.length - length))
        (place + (inserted.length - length) + width) later =
      (text.splice place (place + width) later).splice start (start + length) inserted := by
  -- the two ranges cut the text into five parts
  obtain ⟨head, second, back, rfl, hhead, hsecond⟩ :=
    text.exists_eq_append (by omega) hwidth hinside
  obtain ⟨front, first, middle, rfl, hfront, hfirst⟩ :=
    head.exists_eq_append hstart hlength (by omega)
  have hmoved : ((front ++ inserted ++ middle).length : Int) =
      place + (inserted.length - length) := by
    simp only [List.length_append] at hhead ⊢
    omega
  have hfirstCut : (front ++ first ++ middle ++ second ++ back).splice start (start + length)
      inserted = front ++ inserted ++ (middle ++ second ++ back) :=
    splice_of_append (by simp only [List.append_assoc]) hfront hfirst
  have hsecondCut : (front ++ first ++ middle ++ second ++ back).splice place (place + width)
      later = front ++ first ++ middle ++ later ++ back :=
    splice_of_append rfl hhead hsecond
  calc
    _ = (front ++ inserted ++ (middle ++ second ++ back)).splice
          (place + (inserted.length - length)) (place + (inserted.length - length) + width) later :=
        by rw [hfirstCut]
    _ = front ++ inserted ++ middle ++ later ++ back :=
        splice_of_append (by simp only [List.append_assoc]) hmoved hsecond
    _ = front ++ inserted ++ (middle ++ later ++ back) := by simp only [List.append_assoc]
    _ = (front ++ first ++ middle ++ later ++ back).splice start (start + length) inserted :=
        (splice_of_append (by simp only [List.append_assoc]) hfront hfirst).symm
    _ = _ := by rw [hsecondCut]

/-- The length of a text after a cut that may reach past its end. -/
theorem length_splice_clamped (text inserted : Text) {start length : Int} (hstart : 0 ≤ start)
    (hlength : 0 ≤ length) :
    ((text.splice start (start + length) inserted).length : Int) =
      text.length + (inserted.length - length) +
        max 0 (min length (start + length - text.length)) := by
  obtain ⟨start, rfl⟩ := Int.eq_ofNat_of_zero_le hstart
  obtain ⟨length, rfl⟩ := Int.eq_ofNat_of_zero_le hlength
  rw [← Int.natCast_add, splice_of_nat]
  simp only [List.length_append, List.length_take, List.length_drop]
  omega

theorem length_splice (text : Text) {inserted : Text} {start stop : Int} (hstart : 0 ≤ start)
    (hle : start ≤ stop) (hstop : stop ≤ text.length) :
    ((text.splice start stop inserted).length : Int) =
      text.length + (inserted.length - (stop - start)) := by
  have hlength := length_splice_clamped text inserted hstart (Int.sub_nonneg.mpr hle)
  have hsame : start + (stop - start) = stop := by omega
  rw [hsame] at hlength
  omega

end Text

end SyntaxRepair
