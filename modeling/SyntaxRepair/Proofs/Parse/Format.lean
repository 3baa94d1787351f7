import SyntaxRepair.Proofs.Parse.Documents

/-!
# The format of a document

What a parser may report, said without rules: which members a location, a node and a diagnostic
have, and what is in them.  The rules of `Document.form` accept exactly this format
(`Document.form_eq_nil_iff`), whichever other members there are and in whichever order, and
however deep the nodes stand in one another.
-/

namespace SyntaxRepair

open Json (Number Value)

/-! ## Whole numbers -/

namespace Binary64

theorem signed_mul (negative : Bool) (mantissa scale : Nat) :
    signed negative (mantissa * scale) = signed negative mantissa * scale := by
  cases negative with
  | false => exact Int.natCast_mul mantissa scale
  | true =>
    calc -((mantissa * scale : Nat) : Int) = -(mantissa * scale) := by rw [Int.natCast_mul]
      _ = -mantissa * scale := (Int.neg_mul _ _).symm

/-- A whole value is compared by the whole number that it is. -/
theorem ltInt_eq {value : Binary64} {whole bound : Int} (h : value.toInt? = some whole) :
    value.ltInt bound = decide (whole < bound) := by
  cases value with
  | notNumber => cases h
  | infinite negative => cases h
  | finite negative mantissa exponent =>
      have hscale : ∀ count : Nat, Int.pow 2 count = ((Nat.pow 2 count : Nat) : Int) := fun count =>
        (Int.natCast_pow 2 count).symm
      simp only [toInt?, Option.map_eq_some_iff, bind, Option.bind_eq_some_iff, pure,
        Option.some.injEq] at h
      obtain ⟨_, ⟨magnitude, hmagnitude, rfl⟩, hwhole⟩ := h
      have hsigned : whole = signed negative magnitude := hwhole.symm
      rw [hsigned, ltInt]
      split at hmagnitude
      · rename_i hexponent
        cases hmagnitude
        rw [if_pos hexponent, signed_mul, hscale]
      · rename_i hexponent
        split at hmagnitude
        · rename_i hdivides
          cases hmagnitude
          have hpositive : (0 : Int) < (Nat.pow 2 (-exponent).toNat : Nat) :=
            Int.natCast_pos.mpr (Nat.pow_pos Nat.two_pos)
          -- multiplied by the power of two, both sides are whole
          have hmantissa := signed_mul negative
            (mantissa / Nat.pow 2 (-exponent).toNat) (Nat.pow 2 (-exponent).toNat)
          rw [Nat.div_mul_cancel (Nat.dvd_of_mod_eq_zero hdivides)] at hmantissa
          rw [if_neg hexponent, hmantissa, hscale]
          exact decide_eq_decide.mpr (Int.mul_lt_mul_right hpositive)
        · cases hmagnitude

end Binary64

/-- A number that is whole and not less than a bound. -/
def Json.Number.WholeFrom (bound : Int) (number : Number) : Prop :=
  ∃ whole, number.whole? = some whole ∧ bound ≤ whole

theorem Json.Number.wholeFrom_iff {bound : Int} {number : Number} :
    number.WholeFrom bound ↔ number.whole?.isSome = true ∧ number.ltInt bound = false := by
  have hlt : ∀ whole, number.whole? = some whole →
      (number.ltInt bound = false ↔ bound ≤ whole) := by
    intro whole hwhole
    have hdecide : number.ltInt bound = decide (whole < bound) := by
      cases number with
      | int value => cases hwhole; rfl
      | float value => exact Binary64.ltInt_eq hwhole
    rw [hdecide, decide_eq_false_iff_not, Int.not_lt]
  constructor
  · rintro ⟨whole, hwhole, hle⟩
    exact ⟨by rw [hwhole]; rfl, (hlt whole hwhole).mpr hle⟩
  · rintro ⟨hsome, hbound⟩
    obtain ⟨whole, hwhole⟩ := Option.isSome_iff_exists.mp hsome
    exact ⟨whole, hwhole, (hlt whole hwhole).mp hbound⟩

/-! ## The format -/

/-- A value that is an object with a member of some name and some property. -/
def Json.Value.Has (value : Value) (name : Text) (good : Value → Prop) : Prop :=
  ∃ member ∈ value.get? name, good member

/-- A value whose member of some name has some property if there is one. -/
def Json.Value.MayHave (value : Value) (name : Text) (good : Value → Prop) : Prop :=
  ∀ member ∈ value.get? name, good member

namespace Document

/-- A whole number that is not less than a bound. -/
def IsWhole (bound : Int) (value : Value) : Prop :=
  ∃ number, value = .number number ∧ number.WholeFrom bound

/-- A kind. -/
def IsKind (value : Value) : Prop := ∃ text, value = .string text ∧ text ≠ []

/-- A location. -/
structure IsLocation (value : Value) : Prop where
  start : value.Has "start" (IsWhole 0)
  stop : value.Has "end" (IsWhole 0)
  line : value.Has "line" (IsWhole 1)
  column : value.Has "column" (IsWhole 0)

/-- A location or nothing. -/
def IsPlace (value : Value) : Prop := value = .null ∨ IsLocation value

/-- A node. -/
inductive IsNode : Value → Prop
  | mk {value : Value} (kind : value.Has "kind" IsKind) (location : value.Has "location" IsLocation)
      (name : value.MayHave "name" fun member => member = .null ∨ ∃ text, member = .string text)
      (nameLocation : value.MayHave "name_location" IsPlace)
      (bodyLocation : value.MayHave "body_location" IsPlace)
      (endLocation : value.MayHave "end_keyword_location" IsPlace)
      (children : value.MayHave "children" fun member => ∃ items, member = .array items)
      (below : ∀ items, value.get? "children" = some (.array items) → ∀ item ∈ items, IsNode item) :
      IsNode value

/-- A diagnostic. -/
structure IsDiagnostic (value : Value) : Prop where
  kind : value.Has "kind" IsKind
  location : value.Has "location" IsLocation
  message : value.MayHave "message" fun member => ∃ text, member = .string text

/-- A whole document. -/
structure IsReport (value : Value) : Prop where
  tree : value.Has "tree" IsNode
  diagnostics : value.Has "diagnostics" fun member =>
    ∃ items, member = .array items ∧ ∀ item ∈ items, IsDiagnostic item

/-! ## The rules of the format -/

open Schema

variable {value : Value} {name : Text} {rule : Rule} {good : Value → Prop}

theorem wholeFrom_eq_nil_iff {bound : Int} : wholeFrom bound value = [] ↔ IsWhole bound value := by
  simp only [wholeFrom, all_eq_nil_iff, List.forall_mem_cons, ofType_eq_nil_iff]
  constructor
  · rintro ⟨hinteger, hbound, -⟩
    cases value with
    | number number =>
        have hge := atLeast_eq_nil_iff.mp hbound
        exact ⟨number, rfl, Number.wholeFrom_iff.mpr ⟨hinteger, hge⟩⟩
    | _ => cases hinteger
  · rintro ⟨number, rfl, hwhole⟩
    obtain ⟨hinteger, hge⟩ := Number.wholeFrom_iff.mp hwhole
    exact ⟨hinteger, atLeast_eq_nil_iff.mpr hge, List.forall_mem_nil _⟩

theorem kind_eq_nil_iff : kind value = [] ↔ IsKind value := by
  simp only [kind, all_eq_nil_iff, List.forall_mem_cons, ofType_eq_nil_iff]
  constructor
  · rintro ⟨hstring, hempty, -⟩
    cases value with
    | string text => exact ⟨text, rfl, nonEmpty_eq_nil_iff.mp hempty⟩
    | _ => cases hstring
  · rintro ⟨text, rfl, hne⟩
    exact ⟨rfl, nonEmpty_eq_nil_iff.mpr hne, List.forall_mem_nil _⟩

/-- What is required and has a rule is a member with the property of the rule. -/
theorem has_iff (hrule : ∀ member, rule member = [] ↔ good member) :
    value.Has name good ↔ (value.get? name).isSome = true ∧ memberRule name rule value = [] := by
  simp only [memberRule_eq_nil_iff, hrule]
  cases hmember : value.get? name with
  | none => simp [Value.Has, hmember]
  | some member => simp [Value.Has, hmember]

theorem mayHave_iff (hrule : ∀ member, rule member = [] ↔ good member) :
    value.MayHave name good ↔ memberRule name rule value = [] := by
  simp only [memberRule_eq_nil_iff, hrule, Value.MayHave]

/-- What requires some member is for objects only. -/
theorem object_eq_nil_iff {first : Text} {names : List Text} {rules : List Rule} :
    all (ofType [.object] :: required (first :: names) :: rules) value = [] ↔
      (∀ name ∈ first :: names, (value.get? name).isSome = true) ∧
        ∀ rule ∈ rules, rule value = [] := by
  simp only [all_eq_nil_iff, List.forall_mem_cons, ofType_eq_nil_iff]
  cases value with
  | object members => simp [required_eq_nil_iff, JsonType.accepts]
  | _ => simp [JsonType.accepts, Value.get?]

theorem location_eq_nil_iff : location value = [] ↔ IsLocation value := by
  have hnumber : ∀ {name bound}, value.Has name (IsWhole bound) ↔ _ :=
    fun {_ _} => has_iff fun _ => wholeFrom_eq_nil_iff
  rw [location, object_eq_nil_iff]
  simp only [List.forall_mem_cons]
  constructor
  · rintro ⟨⟨hstart, hstop, hline, hcolumn, -⟩, hstart', hstop', hline', hcolumn', -⟩
    exact ⟨hnumber.mpr ⟨hstart, hstart'⟩, hnumber.mpr ⟨hstop, hstop'⟩,
      hnumber.mpr ⟨hline, hline'⟩, hnumber.mpr ⟨hcolumn, hcolumn'⟩⟩
  · rintro ⟨hstart, hstop, hline, hcolumn⟩
    rw [hnumber] at hstart hstop hline hcolumn
    exact ⟨⟨hstart.1, hstop.1, hline.1, hcolumn.1, List.forall_mem_nil _⟩, hstart.2, hstop.2,
      hline.2, hcolumn.2, List.forall_mem_nil _⟩

theorem optionalLocation_eq_nil_iff : optionalLocation value = [] ↔ IsPlace value := by
  simp only [optionalLocation, anyOf_eq_nil_iff, List.mem_cons, List.not_mem_nil, or_false,
    exists_eq_or_imp, exists_eq_left, ofType_eq_nil_iff, location_eq_nil_iff, IsPlace]
  cases value <;> simp [JsonType.accepts]

theorem string_eq_nil_iff : ofType [.string] value = [] ↔ ∃ text, value = .string text := by
  rw [ofType_eq_nil_iff]
  cases value <;> simp [JsonType.accepts]

theorem stringOrNull_eq_nil_iff :
    ofType [.string, .null] value = [] ↔ value = .null ∨ ∃ text, value = .string text := by
  rw [ofType_eq_nil_iff_exists]
  cases value <;> simp [JsonType.accepts]

theorem array_eq_nil_iff (hrule : ∀ member, rule member = [] ↔ good member) :
    all [ofType [.array], eachItem rule] value = [] ↔
      ∃ items, value = .array items ∧ ∀ item ∈ items, good item := by
  simp only [all_eq_nil_iff, List.forall_mem_cons, ofType_eq_nil_iff]
  cases value with
  | array items => simp [JsonType.accepts, eachItem_eq_nil_iff, hrule]
  | _ => simp [JsonType.accepts]

theorem diagnostic_eq_nil_iff : diagnostic value = [] ↔ IsDiagnostic value := by
  rw [diagnostic, object_eq_nil_iff]
  simp only [List.forall_mem_cons, ← mayHave_iff fun _ => string_eq_nil_iff]
  constructor
  · rintro ⟨⟨hkind, hlocation, -⟩, hkind', hlocation', hmessage, -⟩
    exact ⟨(has_iff fun _ => kind_eq_nil_iff).mpr ⟨hkind, hkind'⟩,
      (has_iff fun _ => location_eq_nil_iff).mpr ⟨hlocation, hlocation'⟩, hmessage⟩
  · rintro ⟨hkind, hlocation, hmessage⟩
    rw [has_iff fun _ => kind_eq_nil_iff] at hkind
    rw [has_iff fun _ => location_eq_nil_iff] at hlocation
    exact ⟨⟨hkind.1, hlocation.1, List.forall_mem_nil _⟩, hkind.2, hlocation.2, hmessage,
      List.forall_mem_nil _⟩

/-- A node that is looked at deep enough is one all the way down. -/
theorem nodeTo_eq_nil_iff (depth : Nat) (hdepth : value.depth ≤ depth) :
    nodeTo depth value = [] ↔ IsNode value := by
  induction depth generalizing value with
  | zero => exact absurd (Nat.lt_of_lt_of_le value.depth_pos hdepth) (Nat.lt_irrefl 0)
  | succ depth ih =>
      have hbelow : ∀ items, value.get? "children" = some (.array items) → ∀ item ∈ items,
          (nodeTo depth item = [] ↔ IsNode item) := by
        intro items hmember item hitem
        have hmemberDepth := Value.depth_lt_of_get? hmember
        have hitemDepth := Value.depth_le_of_mem_items hitem
        rw [Value.depth] at hmemberDepth
        exact ih (by omega)
      rw [nodeTo, object_eq_nil_iff]
      simp only [List.forall_mem_cons, ← mayHave_iff fun _ => stringOrNull_eq_nil_iff,
        ← mayHave_iff fun _ => optionalLocation_eq_nil_iff]
      constructor
      · rintro ⟨⟨hkind, hlocation, -⟩, hkind', hlocation', hname, hnameLocation, hbodyLocation,
          hendLocation, hchildren, -⟩
        rw [← mayHave_iff fun _ => array_eq_nil_iff fun _ => Iff.rfl] at hchildren
        refine .mk ((has_iff fun _ => kind_eq_nil_iff).mpr ⟨hkind, hkind'⟩)
          ((has_iff fun _ => location_eq_nil_iff).mpr ⟨hlocation, hlocation'⟩) hname hnameLocation
          hbodyLocation hendLocation ?_ ?_
        · intro member hmember
          obtain ⟨items, hitems, -⟩ := hchildren member hmember
          exact ⟨items, hitems⟩
        · intro items hmember item hitem
          obtain ⟨_, hitems, heach⟩ := hchildren _ hmember
          cases hitems
          exact (hbelow items hmember item hitem).mp (heach item hitem)
      · rintro ⟨hkind, hlocation, hname, hnameLocation, hbodyLocation, hendLocation, hchildren,
          hnodes⟩
        rw [has_iff fun _ => kind_eq_nil_iff] at hkind
        rw [has_iff fun _ => location_eq_nil_iff] at hlocation
        refine ⟨⟨hkind.1, hlocation.1, List.forall_mem_nil _⟩, hkind.2, hlocation.2, hname,
          hnameLocation, hbodyLocation, hendLocation, ?_, List.forall_mem_nil _⟩
        rw [← mayHave_iff fun _ => array_eq_nil_iff fun _ => Iff.rfl]
        intro member hmember
        obtain ⟨items, rfl⟩ := hchildren member hmember
        refine ⟨items, rfl, fun item hitem => ?_⟩
        exact (hbelow items hmember item hitem).mpr (hnodes items hmember item hitem)

/-- The rules of a document accept the format and nothing else. -/
theorem form_eq_nil_iff : form value = [] ↔ IsReport value := by
  have hnode : ∀ member, node member = [] ↔ IsNode member := fun member =>
    nodeTo_eq_nil_iff member.depth (Nat.le_refl _)
  have hdiagnostics : ∀ member, all [ofType [.array], eachItem diagnostic] member = [] ↔
      ∃ items, member = .array items ∧ ∀ item ∈ items, IsDiagnostic item :=
    fun _ => array_eq_nil_iff fun _ => diagnostic_eq_nil_iff
  rw [form, object_eq_nil_iff]
  simp only [List.forall_mem_cons]
  constructor
  · rintro ⟨⟨htree, hlist, -⟩, htree', hlist', -⟩
    exact ⟨(has_iff hnode).mpr ⟨htree, htree'⟩, (has_iff hdiagnostics).mpr ⟨hlist, hlist'⟩⟩
  · rintro ⟨htree, hlist⟩
    rw [has_iff hnode] at htree
    rw [has_iff hdiagnostics] at hlist
    exact ⟨⟨htree.1, hlist.1, List.forall_mem_nil _⟩, htree.2, hlist.2, List.forall_mem_nil _⟩

end Document

end SyntaxRepair
