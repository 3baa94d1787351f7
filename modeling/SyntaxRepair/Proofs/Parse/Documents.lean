import SyntaxRepair.Parse.Document
import SyntaxRepair.Proofs.Repair.Sweeping
import SyntaxRepair.Proofs.Schema.Rules

/-!
# What the form of a document promises

A report that was read from a document is about the text that was parsed, and the numbers of its
locations keep the bounds of the form: no offset and no column is less than zero, and lines are
counted from one (`Parse.formed_of_ofDocument`).  Nothing bounds an offset or a line from above,
and nothing keeps a location from ending before it starts.
-/

namespace SyntaxRepair

open Json (Number Value)

/-! ## Locations -/

/-- A location whose numbers keep the bounds of the form. -/
structure Location.Formed (location : Location) : Prop where
  start_ge : location.start.ltInt 0 = false
  stop_ge : location.stop.ltInt 0 = false
  line_ge : location.line.ltInt 1 = false
  column_ge : location.column.ltInt 0 = false

theorem Label.forall_mem_locations {holds : Location → Prop} {label : Label} :
    (∀ location ∈ label.locations, holds location) ↔ holds label.location ∧
      (∀ location ∈ label.nameLocation, holds location) ∧
      (∀ location ∈ label.bodyLocation, holds location) ∧
      ∀ location ∈ label.endLocation, holds location := by
  simp only [locations, List.forall_mem_cons, List.forall_mem_append, Option.mem_toList,
    Option.mem_def, and_assoc]

/-- A label all of whose locations keep the bounds of the form. -/
def Label.Formed (label : Label) : Prop := ∀ location ∈ label.locations, location.Formed

/-! ## Properties of all labels -/

namespace Node

/-- A tree all of whose labels have a property. -/
inductive Every (holds : Label → Prop) : Node → Prop
  | mk {label : Label} {children : List (Option Node)} (own : holds label)
      (below : ∀ child, some child ∈ children → Every holds child) :
      Every holds (.mk label children)

mutual

theorem number_every {holds : Label → Prop} (parent : Option Nat) (first : Nat) :
    ∀ node : Node, node.Every holds →
      ∀ outline ∈ (node.number parent first).1.preorder, holds outline.label
  | .mk label children, .mk own below => by
      rw [number, Outline.preorder_eq, List.forall_mem_cons]
      exact ⟨own, numberAll_every first (first + 1) children below⟩

theorem numberAll_every {holds : Label → Prop} (parent first : Nat) :
    ∀ children : List (Option Node), (∀ child, some child ∈ children → child.Every holds) →
      ∀ outline ∈ (numberAll parent first children).1.flatMap Outline.preorder, holds outline.label
  | [], _ => List.forall_mem_nil _
  | none :: rest, hevery =>
      numberAll_every parent first rest fun child hchild =>
        hevery child (List.mem_cons_of_mem _ hchild)
  | some node :: rest, hevery => by
      rw [numberAll, List.flatMap_cons, List.forall_mem_append]
      exact ⟨number_every (some parent) first node (hevery node (List.mem_cons_self ..)),
        numberAll_every parent _ rest fun child hchild =>
          hevery child (List.mem_cons_of_mem _ hchild)⟩

end

/-- What all labels of a tree have the nodes of its index have. -/
theorem Every.of_mem_nodes {holds : Label → Prop} {tree : Node} (hevery : tree.Every holds)
    {node : Outline} (hmem : node ∈ tree.index.nodes.toList) : holds node.label :=
  number_every none 0 tree hevery node (tree.mem_index_nodes.mp hmem)

end Node

/-! ## Nesting -/

namespace Json.Value

theorem depth_le_of_mem_items {items : List Value} {item : Value} (h : item ∈ items) :
    item.depth ≤ depthOfItems items := by
  induction items with
  | nil => cases h
  | cons first rest ih =>
      rw [depthOfItems]
      rcases List.mem_cons.mp h with rfl | hrest
      · exact Nat.le_max_left ..
      · exact Nat.le_trans (ih hrest) (Nat.le_max_right ..)

theorem depth_lt_of_get? {value member : Value} {name : Text} (h : value.get? name = some member) :
    member.depth < value.depth := by
  unfold get? at h
  split at h
  · rename_i members
    rw [depth, Nat.lt_succ_iff]
    induction members with
    | nil => cases h
    | cons first rest ih =>
        obtain ⟨key, other⟩ := first
        rw [depthOfMembers]
        rw [List.lookup_cons] at h
        split at h
        · cases h
          exact Nat.le_max_left ..
        · exact Nat.le_trans (ih h) (Nat.le_max_right ..)
  · cases h

theorem depth_pos (value : Value) : 0 < value.depth := by
  cases value <;> simp [depth]

end Json.Value

/-! ## Reading what has the form -/

namespace Document

open Schema

variable {value : Value} {name : Text}

/-- A number that the form bounds from below is not less than its bound. -/
theorem readNumber_ge {bound : Int} (hrule : memberRule name (wholeFrom bound) value = [])
    (hsome : (value.get? name).isSome = true) : (readNumber value name).ltInt bound = false := by
  obtain ⟨member, hmember⟩ := Option.isSome_iff_exists.mp hsome
  have hwhole := memberRule_eq_nil_iff.mp hrule member hmember
  simp only [wholeFrom, all_eq_nil_iff, List.forall_mem_cons, ofType_eq_nil_iff] at hwhole
  obtain ⟨hinteger, hbound, -⟩ := hwhole
  cases member with
  | number number =>
      rw [readNumber, hmember]
      exact atLeast_eq_nil_iff.mp hbound
  | _ => cases hinteger

theorem exists_object_of_accepts (h : JsonType.object.accepts value = true) :
    ∃ members, value = .object members := by
  cases value with
  | object members => exact ⟨members, rfl⟩
  | _ => cases h

theorem exists_array_of_accepts (h : JsonType.array.accepts value = true) :
    ∃ items, value = .array items := by
  cases value with
  | array items => exact ⟨items, rfl⟩
  | _ => cases h

theorem readLocation_formed (h : location value = []) : (readLocation value).Formed := by
  simp only [location, all_eq_nil_iff, List.forall_mem_cons, ofType_eq_nil_iff] at h
  obtain ⟨hobject, hrequired, hstart, hstop, hline, hcolumn, -⟩ := h
  obtain ⟨members, rfl⟩ := exists_object_of_accepts hobject
  simp only [required_eq_nil_iff, List.forall_mem_cons] at hrequired
  obtain ⟨hsomeStart, hsomeStop, hsomeLine, hsomeColumn, -⟩ := hrequired
  exact ⟨readNumber_ge hstart hsomeStart, readNumber_ge hstop hsomeStop,
    readNumber_ge hline hsomeLine, readNumber_ge hcolumn hsomeColumn⟩

/-- A location that may be missing keeps the bounds if it is there. -/
theorem readLocation?_formed (h : memberRule name optionalLocation value = []) :
    ∀ location ∈ readLocation? value name, location.Formed := by
  intro found hfound
  unfold readLocation? at hfound
  split at hfound
  · cases hfound
  · cases hfound
  · rename_i member hnotNull hmember
    cases hfound
    have hoptional := memberRule_eq_nil_iff.mp h _ hmember
    simp only [optionalLocation, anyOf_eq_nil_iff, List.mem_cons, List.not_mem_nil, or_false,
      exists_eq_or_imp, exists_eq_left, ofType_eq_nil_iff] at hoptional
    rcases hoptional with hnull | hlocation
    · cases member with
      | null => exact absurd rfl hnotNull
      | _ => cases hnull
    · exact readLocation_formed hlocation

/-- A location that the form requires keeps the bounds. -/
theorem required_formed (hrule : memberRule "location" location value = [])
    (hsome : (value.get? "location").isSome = true) :
    (((value.get? "location").map readLocation).getD default).Formed := by
  obtain ⟨member, hmember⟩ := Option.isSome_iff_exists.mp hsome
  rw [hmember]
  exact readLocation_formed (memberRule_eq_nil_iff.mp hrule _ hmember)

/-! ## Reading a tree -/

theorem readChildren_eq (members : List (Text × Value)) :
    readChildren members = (((Value.object members).get? "children").map readNodes).getD [] := by
  rw [Value.get?]
  induction members with
  | nil => rfl
  | cons member rest ih =>
      obtain ⟨name, value⟩ := member
      rw [readChildren, List.lookup_cons, ih]
      by_cases hname : name = "children"
      · rw [if_pos hname, hname, beq_self_eq_true]
        rfl
      · rw [if_neg hname, beq_false_of_ne (Ne.symm hname)]

theorem readItems_eq (items : List Value) : readItems items = items.map (some ∘ readNode) := by
  induction items with
  | nil => rfl
  | cons item rest ih => rw [readItems, ih, List.map_cons, Function.comp_apply]

theorem mem_readItems {items : List Value} {child : Node} (h : some child ∈ readItems items) :
    ∃ item ∈ items, readNode item = child := by
  rw [readItems_eq] at h
  simpa using h

/-- A node that is looked at down to its last descendant has locations that keep the bounds, and so
have its descendants. -/
theorem readNode_formed (depth : Nat) (hdepth : value.depth ≤ depth) (h : nodeTo depth value = []) :
    (readNode value).Every Label.Formed := by
  induction depth generalizing value with
  | zero => exact absurd (Nat.lt_of_lt_of_le value.depth_pos hdepth) (Nat.lt_irrefl 0)
  | succ depth ih =>
      simp only [nodeTo, all_eq_nil_iff, List.forall_mem_cons, ofType_eq_nil_iff] at h
      obtain ⟨hobject, hrequired, -, hlocation, -, hnameLocation, hbodyLocation, hendLocation,
        hchildren, -⟩ := h
      obtain ⟨members, rfl⟩ := exists_object_of_accepts hobject
      simp only [required_eq_nil_iff, List.forall_mem_cons] at hrequired
      rw [readNode]
      refine .mk ?_ ?_
      · exact Label.forall_mem_locations.mpr ⟨required_formed hlocation hrequired.2.1,
          readLocation?_formed hnameLocation, readLocation?_formed hbodyLocation,
          readLocation?_formed hendLocation⟩
      · intro child hchild
        rw [readChildren_eq] at hchild
        cases hmember : (Value.object members).get? "children" with
        | none =>
            rw [hmember] at hchild
            cases hchild
        | some member =>
            rw [hmember, Option.map_some, Option.getD_some] at hchild
            have hitems := memberRule_eq_nil_iff.mp hchildren member hmember
            simp only [all_eq_nil_iff, List.forall_mem_cons, ofType_eq_nil_iff] at hitems
            obtain ⟨harray, heach, -⟩ := hitems
            obtain ⟨items, rfl⟩ := exists_array_of_accepts harray
            obtain ⟨item, hitem, rfl⟩ := mem_readItems hchild
            -- an item stands in an array in the node, so it is looked at less deep
            have hmemberDepth := Value.depth_lt_of_get? hmember
            have hitemDepth := Value.depth_le_of_mem_items hitem
            rw [Value.depth] at hmemberDepth
            exact ih (by omega) (eachItem_eq_nil_iff.mp heach item hitem)

theorem readDiagnostic_formed (h : diagnostic value = []) :
    (readDiagnostic value).location.Formed := by
  simp only [diagnostic, all_eq_nil_iff, List.forall_mem_cons, ofType_eq_nil_iff] at h
  obtain ⟨hobject, hrequired, -, hlocation, -⟩ := h
  obtain ⟨members, rfl⟩ := exists_object_of_accepts hobject
  simp only [required_eq_nil_iff, List.forall_mem_cons] at hrequired
  exact required_formed hlocation hrequired.2.1

/-- What is read from a document that has the form. -/
def report (text : Text) (value : Value) : Parse where
  text
  tree := readNode ((value.get? "tree").getD .null)
  diagnostics := readDiagnostics value

end Document

theorem Parse.ofDocument_eq_report {text : Text} {value : Value} (h : Document.form value = []) :
    Parse.ofDocument text value = .ok (Document.report text value) := by
  unfold ofDocument
  rw [Schema.check_eq_nil_iff.mpr h]
  rfl

/-- **What a document promises.**  A report that was read for a text is about that text, and all its
locations keep the bounds of the form. -/
theorem Parse.formed_of_ofDocument {text : Text} {value : Value} {result : Parse}
    (h : Parse.ofDocument text value = .ok result) :
    result.text = text ∧ ∀ location ∈ result.locations, location.Formed := by
  unfold ofDocument at h
  split at h
  · rename_i hcheck
    cases h
    have hform := Schema.check_eq_nil_iff.mp hcheck
    simp only [Document.form, Schema.all_eq_nil_iff, List.forall_mem_cons,
      Schema.ofType_eq_nil_iff] at hform
    obtain ⟨hobject, hrequired, htree, hdiagnostics, -⟩ := hform
    obtain ⟨members, rfl⟩ := Document.exists_object_of_accepts hobject
    simp only [Schema.required_eq_nil_iff, List.forall_mem_cons] at hrequired
    refine ⟨rfl, ?_⟩
    rw [locations, List.forall_mem_append]
    constructor
    · intro location hlocation
      obtain ⟨diagnostic, hdiagnostic, rfl⟩ := List.mem_map.mp hlocation
      dsimp only at hdiagnostic
      unfold Document.readDiagnostics at hdiagnostic
      split at hdiagnostic
      · rename_i items hitems
        have heach := Schema.memberRule_eq_nil_iff.mp hdiagnostics _ hitems
        simp only [Schema.all_eq_nil_iff, List.forall_mem_cons] at heach
        obtain ⟨item, hitem, rfl⟩ := List.mem_map.mp hdiagnostic
        exact Document.readDiagnostic_formed (Schema.eachItem_eq_nil_iff.mp heach.2.1 item hitem)
      · cases hdiagnostic
    · intro location hlocation
      obtain ⟨node, hnode, hmem⟩ := List.mem_flatMap.mp hlocation
      obtain ⟨member, hmember⟩ := Option.isSome_iff_exists.mp hrequired.1
      have hformed := Document.readNode_formed member.depth (Nat.le_refl _)
        (Schema.memberRule_eq_nil_iff.mp htree member hmember)
      rw [hmember, Option.getD_some] at hnode
      exact hformed.of_mem_nodes hnode location hmem
  · cases h

end SyntaxRepair
