import SyntaxRepair.Measure
import Mathlib.Logic.Basic

/-!
# Numbers of a document

A number may be written as a whole number or as a float, and floats stay floats.  So a sum that is
written as a whole number has two such parts (`add_eq_int_iff`), and only a whole number bounds a
slice (`bound_eq_ok_iff`).

A whole number is counted to and used as an index as it is, if it is at all (`eq_of_count_int`,
`eq_of_index_int`), and nothing is in its way below the limit of the memory (`count_eq_ok`,
`index_eq_ok`).
-/

namespace SyntaxRepair

namespace Json.Number

/-! ## Whole numbers and floats -/

/-- Only a whole number bounds a slice. -/
theorem bound_eq_ok_iff {number : Number} {value : Int} :
    number.bound = .ok value ↔ number = .int value := by
  cases number <;> simp [bound]

/-- A sum of floats is not written as a whole number. -/
theorem float_ne_ok_int {left right : Except Misfit Binary64}
    {sum : Binary64 → Binary64 → Binary64} {value : Int} :
    (do return .float (sum (← left) (← right)) : Except Misfit Number) ≠ .ok (.int value) := by
  cases left <;> cases right <;> simp [bind, Except.bind, pure, Except.pure]

/-- Only two whole numbers have a sum that is written as a whole number. -/
theorem add_eq_int_iff {first second : Number} {value : Int} :
    first.add second = .ok (.int value) ↔
      ∃ left right : Int, first = .int left ∧ second = .int right ∧ value = left + right := by
  cases first with
  | int left =>
      cases second with
      | int right => simp [eq_comm]
      | float right =>
          exact iff_of_false float_ne_ok_int (by simp)
  | float left => exact iff_of_false float_ne_ok_int (by simp)

/-- Only two whole numbers have a difference that is written as a whole number. -/
theorem sub_eq_int_iff {first second : Number} {value : Int} :
    first.sub second = .ok (.int value) ↔
      ∃ minuend subtrahend : Int, first = .int minuend ∧ second = .int subtrahend ∧
        value = minuend - subtrahend := by
  cases first with
  | int minuend =>
      cases second with
      | int subtrahend => simp [eq_comm]
      | float subtrahend => exact iff_of_false (@float_ne_ok_int _ _ (·.add ·.neg) _) (by simp)
  | float minuend => exact iff_of_false (@float_ne_ok_int _ _ (·.add ·.neg) _) (by simp)

theorem exists_natural {number : Number} {value bound : Int}
    (hwhole : number = .int value) (hge : number.ltInt bound = false) :
    ∃ count : Nat, number = .int (bound + count) := by
  rw [hwhole, ltInt, decide_eq_false_iff_not, Int.not_lt] at hge
  obtain ⟨count, hcount⟩ := Int.eq_ofNat_of_zero_le (Int.sub_nonneg_of_le hge)
  exact ⟨count, by rw [hwhole, ← hcount, Int.add_comm, Int.sub_add_cancel]⟩

theorem firstGreatest_mem {numbers : List Number} {greatest : Number}
    (h : firstGreatest numbers = some greatest) : greatest ∈ numbers := by
  have hfold : ∀ (rest : List Number) (first : Number),
      rest.foldl (fun best next => if best.whole < next.whole then next else best) first ∈
        first :: rest := by
    intro rest
    induction rest with
    | nil => exact fun first => List.mem_singleton_self first
    | cons next rest ih =>
        intro first
        rw [List.foldl_cons]
        rcases List.mem_cons.mp (ih (if first.whole < next.whole then next else first)) with
          hbest | hrest
        · rw [hbest]
          split
          · exact List.mem_cons_of_mem _ (List.mem_cons_self ..)
          · exact List.mem_cons_self ..
        · exact List.mem_cons_of_mem _ (List.mem_cons_of_mem _ hrest)
  cases numbers with
  | nil => cases h
  | cons first rest =>
      cases h
      exact hfold rest first

/-! ## Counting -/

/-- A whole number that is used as an index is that index. -/
theorem eq_of_index_int {value place : Int} (h : (int value).index = .ok place) :
    place = value := by
  rw [index] at h
  by_cases hfits : fitsWord value = true
  · rw [if_pos hfits] at h
    exact (Except.ok.inj h).symm
  · rw [if_neg hfits] at h
    cases h

theorem eq_of_count_int {value counted : Int} (h : (int value).count = .ok counted) :
    counted = value := by
  rw [count] at h
  split at h
  · cases h
  · split at h
    · cases h
    · exact (Except.ok.inj h).symm

theorem memoryLimit_eq : memoryLimit = 1073741824 := by decide

theorem wordLimit_eq : wordLimit = 9223372036854775808 := by decide

theorem fitsWord_of_lt {value : Int} (hlow : -memoryLimit ≤ value) (hhigh : value < memoryLimit) :
    fitsWord value = true := by
  rw [memoryLimit_eq] at hlow hhigh
  rw [fitsWord, wordLimit_eq, Bool.and_eq_true, decide_eq_true_iff, decide_eq_true_iff]
  omega

theorem count_eq_ok {value : Int} (hlow : -memoryLimit ≤ value) (hhigh : value < memoryLimit) :
    (int value).count = .ok value :=
  count_int (fitsWord_of_lt hlow hhigh) hhigh

theorem index_eq_ok {value : Int} (hlow : -memoryLimit ≤ value) (hhigh : value < memoryLimit) :
    (int value).index = .ok value :=
  index_int (fitsWord_of_lt hlow hhigh)

end Json.Number

end SyntaxRepair
