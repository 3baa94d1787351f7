import SyntaxRepair.Schema.Rule
import Mathlib.Data.List.Basic

/-!
# What rules accept

A value satisfies a rule if the rule lists nothing that does not match.  Each equivalence says when
that is so for one rule.  A form is put together from the rules, and what it accepts is told by
putting their equivalences together.
-/

namespace SyntaxRepair

open Json (Value)

namespace Schema

variable {value : Value} {rule : Rule} {rules : List Rule} {name : Text} {names : List Text}
  {items : List Value} {members : List (Text × Value)}

theorem check_eq_nil_iff : check rule value = [] ↔ rule value = [] := by
  rw [← List.length_eq_zero_iff, check, List.length_mergeSort, List.length_eq_zero_iff]

theorem ite_mismatch_eq_nil_iff {condition : Bool} {keyword : String} {message : Text} :
    (if condition then [] else mismatch keyword message) = [] ↔ condition = true := by
  cases condition <;> simp [mismatch]

/-! ## Several rules -/

theorem all_eq_nil_iff : all rules value = [] ↔ ∀ rule ∈ rules, rule value = [] := by
  rw [all, List.flatMap_eq_nil_iff]

theorem anyOf_eq_nil_iff : anyOf rules value = [] ↔ ∃ rule ∈ rules, rule value = [] := by
  rw [anyOf, ite_mismatch_eq_nil_iff]
  simp only [List.any_eq_true, List.isEmpty_iff]

/-! ## A value by itself -/

theorem ofType_eq_nil_iff_exists {types : List JsonType} :
    ofType types value = [] ↔ ∃ type ∈ types, type.accepts value = true := by
  rw [ofType, ite_mismatch_eq_nil_iff, List.any_eq_true]

theorem ofType_eq_nil_iff {type : JsonType} :
    ofType [type] value = [] ↔ type.accepts value = true := by
  simp [ofType_eq_nil_iff_exists]

theorem oneOf_eq_nil_iff {choices : List Text} :
    oneOf choices value = [] ↔ ∃ choice ∈ choices, value = .string choice := by
  cases value with
  | string text => exact ite_mismatch_eq_nil_iff.trans (by simp)
  | _ => exact iff_of_false (List.cons_ne_nil _ _) (by simp)

theorem atLeast_eq_nil_iff {bound : Int} {number : Json.Number} :
    atLeast bound (.number number) = [] ↔ number.ltInt bound = false := by
  rw [atLeast]
  cases number.ltInt bound <;> simp [mismatch]

theorem nonEmpty_eq_nil_iff {text : Text} : nonEmpty (.string text) = [] ↔ text ≠ [] := by
  rw [nonEmpty]
  cases text <;> simp [mismatch]

theorem ofForm_eq_nil_iff {form : Form} {text : Text} :
    ofForm form (.string text) = [] ↔ form.accepts text = true :=
  ite_mismatch_eq_nil_iff

/-! ## Members and items -/

theorem memberRule_eq_nil_iff :
    memberRule name rule value = [] ↔ ∀ member ∈ value.get? name, rule member = [] := by
  unfold memberRule
  cases value.get? name with
  | none => simp
  | some member => simp

theorem required_eq_nil_iff :
    required names (.object members) = [] ↔
      ∀ name ∈ names, ((Value.object members).get? name).isSome = true := by
  simp only [required, List.flatMap_eq_nil_iff, ite_mismatch_eq_nil_iff]
  rfl

theorem closed_eq_nil_iff :
    closed names (.object members) = [] ↔ ∀ member ∈ members, member.1 ∈ names := by
  have hextra : ((members.map (·.1)).filter fun name => !names.contains name) = [] ↔
      ∀ member ∈ members, member.1 ∈ names := by
    rw [List.filter_eq_nil_iff, List.forall_mem_map]
    simp
  rw [← hextra, closed]
  split
  · next hnil => exact iff_of_true rfl hnil
  · next hne => exact iff_of_false (List.cons_ne_nil _ _) hne

theorem eachMember_eq_nil_iff :
    eachMember rule (.object members) = [] ↔ ∀ member ∈ members, rule member.2 = [] := by
  simp only [eachMember, List.flatMap_eq_nil_iff, List.map_eq_nil_iff]

theorem eachItem_eq_nil_iff :
    eachItem rule (.array items) = [] ↔ ∀ item ∈ items, rule item = [] := by
  simp only [eachItem, List.flatMap_eq_nil_iff, List.map_eq_nil_iff]
  constructor
  · intro h item hitem
    obtain ⟨place, hplace⟩ := List.getElem?_of_mem hitem
    exact h (item, place) (List.mk_mem_zipIdx_iff_getElem?.mpr hplace)
  · intro h numbered hnumbered
    exact h numbered.1 (List.fst_mem_of_mem_zipIdx hnumbered)

end Schema

end SyntaxRepair
