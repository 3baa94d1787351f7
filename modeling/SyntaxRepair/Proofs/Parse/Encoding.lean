import Mathlib.Data.List.Forall2
import SyntaxRepair.Proofs.Parse.Format

/-!
# Documents and the reports in them

A document of the format encodes one report, and each report within the bounds of the format has
documents that encode it.  There are many of them: what is optional may be left out or `null`,
members may stand in any order and others may stand between them.  All of them are read back as
the report that they encode, and nothing else is read (`Parse.ofDocument_format`).
-/

namespace SyntaxRepair

open Json (Number Value)

/-! ## Reports within the bounds -/

/-- A location within the bounds of the format. -/
structure Location.Conforms (location : Location) : Prop where
  start : location.start.WholeFrom 0
  stop : location.stop.WholeFrom 0
  line : location.line.WholeFrom 1
  column : location.column.WholeFrom 0

/-- A label within the bounds of the format. -/
structure Label.Conforms (label : Label) : Prop where
  kind_ne : label.kind ≠ []
  locations : ∀ location ∈ label.locations, location.Conforms

/-- A tree within the bounds of the format, without gaps among its children. -/
inductive Node.Conforms : Node → Prop
  | mk {label : Label} {children : List (Option Node)} (own : label.Conforms)
      (full : ∀ child ∈ children, child ≠ none)
      (below : ∀ child, some child ∈ children → Node.Conforms child) :
      Node.Conforms (.mk label children)

/-- A diagnostic within the bounds of the format. -/
structure Diagnostic.Conforms (diagnostic : Diagnostic) : Prop where
  kind_ne : diagnostic.kind ≠ []
  location : diagnostic.location.Conforms

/-- A report within the bounds of the format. -/
structure Parse.Conforms (result : Parse) : Prop where
  tree : result.tree.Conforms
  diagnostics : ∀ diagnostic ∈ result.diagnostics, diagnostic.Conforms

/-! ## What a document encodes -/

namespace Document

/-- What may be missing is encoded by the member with a name; if it is missing, then the member
is left out or `null`. -/
def EncodesOption {α : Type} (encodes : Value → α → Prop) (value : Value) (name : Text) :
    Option α → Prop
  | none => value.MayHave name fun member => member = .null
  | some content => value.Has name fun member => encodes member content

/-- A value encodes a location. -/
structure EncodesLocation (value : Value) (location : Location) : Prop where
  start : value.get? "start" = some (.number location.start)
  stop : value.get? "end" = some (.number location.stop)
  line : value.get? "line" = some (.number location.line)
  column : value.get? "column" = some (.number location.column)

/-- A value encodes what a node says about itself. -/
structure EncodesLabel (value : Value) (label : Label) : Prop where
  kind : value.get? "kind" = some (.string label.kind)
  location : value.Has "location" fun member => EncodesLocation member label.location
  name : EncodesOption (fun member text => member = .string text) value "name" label.name
  nameLocation : EncodesOption EncodesLocation value "name_location" label.nameLocation
  bodyLocation : EncodesOption EncodesLocation value "body_location" label.bodyLocation
  endLocation : EncodesOption EncodesLocation value "end_keyword_location" label.endLocation

/-- A list that may be left out where it is empty. -/
def HasItems (value : Value) (name : Text) (items : List Value) : Prop :=
  value.get? name = some (.array items) ∨ value.get? name = none ∧ items = []

/-- A value encodes a tree. -/
inductive EncodesNode : Value → Node → Prop
  | mk {value : Value} {label : Label} {children : List (Option Node)} {items : List Value}
      {nodes : List Node} (own : EncodesLabel value label) (array : HasItems value "children" items)
      (children_eq : children = nodes.map some) (length_eq : items.length = nodes.length)
      (below : ∀ item node, (item, node) ∈ items.zip nodes → EncodesNode item node) :
      EncodesNode value (.mk label children)

/-- A value encodes a diagnostic. -/
structure EncodesDiagnostic (value : Value) (diagnostic : Diagnostic) : Prop where
  kind : value.get? "kind" = some (.string diagnostic.kind)
  location : value.Has "location" fun member => EncodesLocation member diagnostic.location
  message : value.get? "message" = some (.string diagnostic.message) ∨
    value.get? "message" = none ∧ diagnostic.message = []

/-- A document encodes the tree and the diagnostics of a report. -/
structure EncodesReport (value : Value) (result : Parse) : Prop where
  tree : value.Has "tree" fun member => EncodesNode member result.tree
  diagnostics : ∃ items, value.get? "diagnostics" = some (.array items) ∧
    List.Forall₂ EncodesDiagnostic items result.diagnostics

/-! ## Reading back -/

variable {value : Value} {name : Text}

theorem readNumber_eq {number : Number} (h : value.get? name = some (.number number)) :
    readNumber value name = number := by
  rw [readNumber, h]

theorem readText?_eq {text : Text} (h : value.get? name = some (.string text)) :
    readText? value name = some text := by
  rw [readText?, h]

theorem EncodesLocation.read_eq {location : Location} (h : EncodesLocation value location) :
    readLocation value = location := by
  rw [readLocation, readNumber_eq h.start, readNumber_eq h.stop, readNumber_eq h.line,
    readNumber_eq h.column]

theorem EncodesLocation.ne_null {location : Location} (h : EncodesLocation value location) :
    value ≠ .null := by
  rintro rfl
  exact nomatch h.start

theorem EncodesOption.readText?_eq {text : Option Text}
    (h : EncodesOption (fun member text => member = .string text) value name text) :
    readText? value name = text := by
  cases text with
  | none =>
      unfold readText?
      split
      · rename_i text hmember
        cases h _ hmember
      · rfl
  | some text =>
      obtain ⟨_, hmember, rfl⟩ := h
      exact Document.readText?_eq hmember

theorem EncodesOption.readLocation?_eq {place : Option Location}
    (h : EncodesOption EncodesLocation value name place) : readLocation? value name = place := by
  unfold readLocation?
  cases place with
  | none =>
      split
      · rfl
      · rfl
      · rename_i member hnotNull hmember
        exact absurd (h member hmember) hnotNull
  | some location =>
      obtain ⟨member, hmember, hencodes⟩ := h
      rw [Option.mem_def.mp hmember]
      split
      · rename_i hnone
        cases hnone
      · rename_i hnull
        exact absurd (Option.some.inj hnull) hencodes.ne_null
      · rename_i found _ hfound
        rw [← Option.some.inj hfound, hencodes.read_eq]

theorem readRequired_eq {location : Location}
    (h : value.Has "location" fun member => EncodesLocation member location) :
    ((value.get? "location").map readLocation).getD default = location := by
  obtain ⟨member, hmember, hencodes⟩ := h
  rw [Option.mem_def.mp hmember]
  exact hencodes.read_eq

theorem EncodesLabel.read_eq {label : Label} (h : EncodesLabel value label) :
    readLabel value = label := by
  rw [readLabel, readText?_eq h.kind, readRequired_eq h.location, h.name.readText?_eq,
    h.nameLocation.readLocation?_eq, h.bodyLocation.readLocation?_eq,
    h.endLocation.readLocation?_eq, Option.getD_some]

/-- The node that a value stands for, by its members. -/
theorem readNode_eq {items : List Value} (h : HasItems value "children" items)
    (hobject : (value.get? "kind").isSome = true) :
    readNode value = .mk (readLabel value) (items.map (some ∘ readNode)) := by
  cases value with
  | object members =>
      rw [readNode, readChildren_eq]
      rcases h with hitems | ⟨hnone, rfl⟩
      · rw [hitems, Option.map_some, Option.getD_some, readNodes, readItems_eq]
      · rw [hnone]
        rfl
  | _ => cases hobject

/-- Items that are read one by one are read together. -/
theorem map_eq_of_forall₂ {α : Type} {read : Value → α} {items : List Value} {contents : List α}
    (h : List.Forall₂ (fun item content => read item = content) items contents) :
    items.map read = contents := by
  rw [← List.forall₂_eq_eq_eq, List.forall₂_map_left_iff]
  exact h

/-- A tree that is encoded is read back. -/
theorem EncodesNode.read_eq {node : Node} (h : EncodesNode value node) :
    readNode value = node := by
  induction h with
  | mk own array children_eq length_eq below ih =>
      have hitems := map_eq_of_forall₂ (List.forall₂_iff_zip.mpr ⟨length_eq, ih _ _⟩)
      rw [readNode_eq array (by rw [own.kind]; rfl), own.read_eq, children_eq, ← hitems,
        List.map_map]

theorem EncodesDiagnostic.read_eq {diagnostic : Diagnostic}
    (h : EncodesDiagnostic value diagnostic) : readDiagnostic value = diagnostic := by
  have hmessage : (readText? value "message").getD [] = diagnostic.message := by
    rcases h.message with hsome | ⟨hnone, hempty⟩
    · rw [readText?_eq hsome, Option.getD_some]
    · rw [readText?, hnone, hempty]
      rfl
  rw [readDiagnostic, readText?_eq h.kind, readRequired_eq h.location, hmessage, Option.getD_some]

/-- A report that is encoded is read back. -/
theorem EncodesReport.report_eq {result : Parse} (h : EncodesReport value result) :
    report result.text value = result := by
  obtain ⟨tree, htree, hnode⟩ := h.tree
  obtain ⟨items, hitems, heach⟩ := h.diagnostics
  have hdiagnostics : readDiagnostics value = result.diagnostics := by
    rw [readDiagnostics, hitems]
    exact map_eq_of_forall₂ (heach.imp fun _ _ hdiagnostic => hdiagnostic.read_eq)
  rw [report, Option.mem_def.mp htree, Option.getD_some, hnode.read_eq, hdiagnostics]

/-! ## What is read has been encoded -/

theorem IsWhole.encoded {bound : Int} (h : value.Has name (IsWhole bound)) :
    value.get? name = some (.number (readNumber value name)) ∧
      (readNumber value name).WholeFrom bound := by
  obtain ⟨_, hmember, number, rfl, hwhole⟩ := h
  rw [readNumber_eq hmember]
  exact ⟨hmember, hwhole⟩

theorem IsKind.encoded (h : value.Has "kind" IsKind) :
    value.get? "kind" = some (.string ((readText? value "kind").getD [])) ∧
      (readText? value "kind").getD [] ≠ [] := by
  obtain ⟨_, hmember, text, rfl, hne⟩ := h
  rw [readText?_eq hmember]
  exact ⟨hmember, hne⟩

theorem IsLocation.encoded (h : IsLocation value) :
    EncodesLocation value (readLocation value) ∧ (readLocation value).Conforms := by
  obtain ⟨hstart, hstart'⟩ := IsWhole.encoded h.start
  obtain ⟨hstop, hstop'⟩ := IsWhole.encoded h.stop
  obtain ⟨hline, hline'⟩ := IsWhole.encoded h.line
  obtain ⟨hcolumn, hcolumn'⟩ := IsWhole.encoded h.column
  exact ⟨⟨hstart, hstop, hline, hcolumn⟩, hstart', hstop', hline', hcolumn'⟩

theorem required_encoded (h : value.Has "location" IsLocation) :
    (value.Has "location" fun member =>
        EncodesLocation member (((value.get? "location").map readLocation).getD default)) ∧
      (((value.get? "location").map readLocation).getD default).Conforms := by
  obtain ⟨member, hmember, hlocation⟩ := h
  rw [Option.mem_def.mp hmember, Option.map_some, Option.getD_some]
  exact ⟨⟨member, hmember, hlocation.encoded.1⟩, hlocation.encoded.2⟩

theorem IsPlace.encoded (h : value.MayHave name IsPlace) :
    EncodesOption EncodesLocation value name (readLocation? value name) ∧
      ∀ location ∈ readLocation? value name, location.Conforms := by
  have hmissing : ∀ location ∈ (none : Option Location), location.Conforms := by simp
  unfold readLocation?
  split
  · rename_i hnone
    refine ⟨fun member hmember => ?_, hmissing⟩
    rw [hnone] at hmember
    cases hmember
  · rename_i hnull
    refine ⟨fun member hmember => ?_, hmissing⟩
    exact Option.mem_unique hmember hnull
  · rename_i member hnotNull hmember
    have hlocation := (h member hmember).resolve_left hnotNull
    refine ⟨⟨member, hmember, hlocation.encoded.1⟩, fun location hsome => ?_⟩
    rw [← Option.some.inj hsome]
    exact hlocation.encoded.2

theorem name_encoded
    (h : value.MayHave name fun member => member = .null ∨ ∃ text, member = .string text) :
    EncodesOption (fun member text => member = .string text) value name (readText? value name) := by
  unfold readText?
  split
  · rename_i text hmember
    exact ⟨.string text, hmember, rfl⟩
  · rename_i hother
    intro member hmember
    refine (h member hmember).resolve_right ?_
    rintro ⟨text, rfl⟩
    exact hother text hmember

/-- Each node of the format encodes the tree that is read from it. -/
theorem IsNode.encoded (h : IsNode value) :
    EncodesNode value (readNode value) ∧ (readNode value).Conforms := by
  induction h with
  | @mk value kind location name nameLocation bodyLocation endLocation children below ih =>
      obtain ⟨hkind, hkind'⟩ := IsKind.encoded kind
      obtain ⟨hlocation, hlocation'⟩ := required_encoded location
      obtain ⟨hnameLocation, hnameLocation'⟩ := IsPlace.encoded nameLocation
      obtain ⟨hbodyLocation, hbodyLocation'⟩ := IsPlace.encoded bodyLocation
      obtain ⟨hendLocation, hendLocation'⟩ := IsPlace.encoded endLocation
      have hown : EncodesLabel value (readLabel value) :=
        ⟨hkind, hlocation, name_encoded name, hnameLocation, hbodyLocation, hendLocation⟩
      have hconforms : (readLabel value).Conforms :=
        ⟨hkind', Label.forall_mem_locations.mpr
          ⟨hlocation', hnameLocation', hbodyLocation', hendLocation'⟩⟩
      obtain ⟨items, harray, hbelow⟩ : ∃ items, HasItems value "children" items ∧
          ∀ item ∈ items, EncodesNode item (readNode item) ∧ (readNode item).Conforms := by
        cases hmember : value.get? "children" with
        | none => exact ⟨[], Or.inr ⟨hmember, rfl⟩, List.forall_mem_nil _⟩
        | some member =>
            obtain ⟨items, rfl⟩ := children member hmember
            exact ⟨items, Or.inl hmember, ih items hmember⟩
      rw [readNode_eq harray (by rw [hkind]; rfl)]
      constructor
      · refine .mk hown harray (List.map_map ..).symm (List.length_map _).symm ?_
        intro item node hzip
        rw [← List.map_prod_left_eq_zip] at hzip
        obtain ⟨_, hitem, hpair⟩ := List.mem_map.mp hzip
        cases hpair
        exact (hbelow item hitem).1
      · refine .mk hconforms ?_ ?_
        · intro child hchild
          obtain ⟨item, -, rfl⟩ := List.mem_map.mp hchild
          exact Option.some_ne_none _
        · intro child hchild
          obtain ⟨item, hitem, heq⟩ := List.mem_map.mp hchild
          cases heq
          exact (hbelow item hitem).2

theorem IsDiagnostic.encoded (h : IsDiagnostic value) :
    EncodesDiagnostic value (readDiagnostic value) ∧ (readDiagnostic value).Conforms := by
  obtain ⟨hkind, hkind'⟩ := IsKind.encoded h.kind
  obtain ⟨hlocation, hlocation'⟩ := required_encoded h.location
  refine ⟨⟨hkind, hlocation, ?_⟩, hkind', hlocation'⟩
  cases hmember : value.get? "message" with
  | none =>
      have hempty : (readText? value "message").getD [] = [] := by
        rw [readText?, hmember]
        rfl
      exact Or.inr ⟨rfl, hempty⟩
  | some member =>
      left
      obtain ⟨text, rfl⟩ := h.message member hmember
      rw [readDiagnostic, readText?_eq hmember, Option.getD_some]

/-- Each document of the format encodes the report that is read from it. -/
theorem IsReport.encoded (h : IsReport value) (text : Text) :
    EncodesReport value (report text value) ∧ (report text value).Conforms := by
  obtain ⟨tree, htree, hnode⟩ := h.tree
  obtain ⟨_, hlist, items, rfl, hitems⟩ := h.diagnostics
  have hdiagnostics : readDiagnostics value = items.map readDiagnostic := by
    rw [readDiagnostics, Option.mem_def.mp hlist]
  rw [report, Option.mem_def.mp htree, Option.getD_some, hdiagnostics]
  refine ⟨⟨⟨tree, htree, hnode.encoded.1⟩, items, hlist, ?_⟩, hnode.encoded.2, ?_⟩
  · rw [List.forall₂_map_right_iff, List.forall₂_same]
    exact fun item hitem => (hitems item hitem).encoded.1
  · rw [List.forall_mem_map]
    exact fun item hitem => (hitems item hitem).encoded.2

/-! ## What is encoded has the format -/

theorem EncodesLocation.isLocation {location : Location} (h : EncodesLocation value location)
    (hconforms : location.Conforms) : IsLocation value where
  start := ⟨_, h.start, _, rfl, hconforms.start⟩
  stop := ⟨_, h.stop, _, rfl, hconforms.stop⟩
  line := ⟨_, h.line, _, rfl, hconforms.line⟩
  column := ⟨_, h.column, _, rfl, hconforms.column⟩

theorem has_isLocation {location : Location}
    (h : value.Has name fun member => EncodesLocation member location)
    (hconforms : location.Conforms) : value.Has name IsLocation := by
  obtain ⟨member, hmember, hencodes⟩ := h
  exact ⟨member, hmember, hencodes.isLocation hconforms⟩

theorem EncodesOption.isPlace {place : Option Location}
    (h : EncodesOption EncodesLocation value name place)
    (hconforms : ∀ location ∈ place, location.Conforms) : value.MayHave name IsPlace := by
  cases place with
  | none => exact fun member hmember => Or.inl (h member hmember)
  | some location =>
      intro member hmember
      obtain ⟨found, hfound, hencodes⟩ := h
      rw [Option.mem_unique hmember hfound]
      exact Or.inr (hencodes.isLocation (hconforms location rfl))

theorem EncodesOption.isName {text : Option Text}
    (h : EncodesOption (fun member text => member = .string text) value name text) :
    value.MayHave name fun member => member = .null ∨ ∃ text, member = .string text := by
  cases text with
  | none => exact fun member hmember => Or.inl (h member hmember)
  | some text =>
      intro member hmember
      obtain ⟨found, hfound, hencodes⟩ := h
      rw [Option.mem_unique hmember hfound]
      exact Or.inr ⟨text, hencodes⟩

theorem exists_of_forall₂ {α : Type} {related : Value → α → Prop} {items : List Value}
    {contents : List α} (h : List.Forall₂ related items contents) {item : Value}
    (hitem : item ∈ items) : ∃ content ∈ contents, related item content := by
  induction h with
  | nil => cases hitem
  | cons hfirst _ ih =>
      rcases List.mem_cons.mp hitem with rfl | hrest
      · exact ⟨_, List.mem_cons_self .., hfirst⟩
      · obtain ⟨content, hcontent, hrelated⟩ := ih hrest
        exact ⟨content, List.mem_cons_of_mem _ hcontent, hrelated⟩

/-- What encodes a tree within the bounds is a node of the format. -/
theorem EncodesNode.isNode {node : Node} (h : EncodesNode value node) (hconforms : node.Conforms) :
    IsNode value := by
  induction h with
  | @mk value label children items nodes own array children_eq length_eq below ih =>
      obtain ⟨hown, -, hbelow⟩ := hconforms
      obtain ⟨hlocation, hnameLocation, hbodyLocation, hendLocation⟩ :=
        Label.forall_mem_locations.mp hown.locations
      refine .mk ⟨_, own.kind, _, rfl, hown.kind_ne⟩ (has_isLocation own.location hlocation)
        own.name.isName (own.nameLocation.isPlace hnameLocation)
        (own.bodyLocation.isPlace hbodyLocation) (own.endLocation.isPlace hendLocation) ?_ ?_
      · intro member hmember
        rcases array with hitems | ⟨hnone, -⟩
        · exact ⟨items, Option.mem_unique hmember hitems⟩
        · cases hnone.symm.trans hmember
      · intro others hothers item hitem
        rcases array with hitems | ⟨hnone, -⟩
        · cases hitems.symm.trans hothers
          obtain ⟨node, hnode, hitemNode⟩ :=
            exists_of_forall₂ (List.forall₂_iff_zip.mpr ⟨length_eq, ih _ _⟩) hitem
          refine hitemNode (hbelow node ?_)
          rw [children_eq]
          exact List.mem_map_of_mem hnode
        · cases hnone.symm.trans hothers

/-- What encodes a diagnostic within the bounds is a diagnostic of the format. -/
theorem EncodesDiagnostic.isDiagnostic {diagnostic : Diagnostic}
    (h : EncodesDiagnostic value diagnostic) (hconforms : diagnostic.Conforms) :
    IsDiagnostic value := by
  refine ⟨⟨_, h.kind, _, rfl, hconforms.kind_ne⟩, has_isLocation h.location hconforms.location, ?_⟩
  intro member hmember
  rcases h.message with htext | ⟨hnone, -⟩
  · exact ⟨_, Option.mem_unique hmember htext⟩
  · cases hnone.symm.trans hmember

/-- What encodes a report within the bounds is a document of the format. -/
theorem EncodesReport.isReport {result : Parse} (h : EncodesReport value result)
    (hconforms : result.Conforms) : IsReport value := by
  obtain ⟨tree, htree, hnode⟩ := h.tree
  obtain ⟨items, hitems, heach⟩ := h.diagnostics
  refine ⟨⟨tree, htree, hnode.isNode hconforms.tree⟩, _, hitems, items, rfl, ?_⟩
  intro item hitem
  obtain ⟨diagnostic, hdiagnostic, hencodes⟩ := exists_of_forall₂ heach hitem
  exact hencodes.isDiagnostic (hconforms.diagnostics diagnostic hdiagnostic)

/-! ## Writing a report down -/

/-- The member for what may be missing; if it is missing, then the member is left out of a bare
document and `null` in another one. -/
def optionMember {α : Type} (bare : Bool) (name : Text) (encode : α → Value) :
    Option α → List (Text × Value)
  | none => if bare then [] else [(name, .null)]
  | some content => [(name, encode content)]

/-- The value of a location. -/
def encodeLocation (location : Location) : Value :=
  .object [("start", .number location.start), ("end", .number location.stop),
    ("line", .number location.line), ("column", .number location.column)]

/-- The members that nodes and diagnostics always have. -/
def requiredMembers (kind : Text) (location : Location) : List (Text × Value) :=
  [("kind", .string kind), ("location", encodeLocation location)]

/-- The members for what a node tells about itself. -/
def labelMembers (bare : Bool) (label : Label) : List (Text × Value) :=
  requiredMembers label.kind label.location ++
    optionMember bare "name" .string label.name ++
    optionMember bare "name_location" encodeLocation label.nameLocation ++
    optionMember bare "body_location" encodeLocation label.bodyLocation ++
    optionMember bare "end_keyword_location" encodeLocation label.endLocation

/-- The member for a list; an empty one is left out of a bare document. -/
def listMember (bare : Bool) (name : Text) (items : List Value) : List (Text × Value) :=
  if bare && items.isEmpty then [] else [(name, .array items)]

mutual

/-- The value of a tree. -/
def encodeNode (bare : Bool) : Node → Value
  | .mk label children =>
    .object (labelMembers bare label ++ listMember bare "children" (encodeNodes bare children))

/-- The values of the children that there are. -/
def encodeNodes (bare : Bool) : List (Option Node) → List Value
  | [] => []
  | none :: rest => encodeNodes bare rest
  | some node :: rest => encodeNode bare node :: encodeNodes bare rest

end

/-- The value of a diagnostic; an empty message is left out of a bare document. -/
def encodeDiagnostic (bare : Bool) (diagnostic : Diagnostic) : Value :=
  let message : List (Text × Value) := [("message", .string diagnostic.message)]
  .object (requiredMembers diagnostic.kind diagnostic.location ++
    if bare && diagnostic.message.isEmpty then [] else message)

/-- The document of a report. -/
def encodeReport (bare : Bool) (result : Parse) : Value :=
  .object [("tree", encodeNode bare result.tree),
    ("diagnostics", .array (result.diagnostics.map (encodeDiagnostic bare)))]

theorem lookup_cons_of_ne {other : Text} {member : Value} {rest : List (Text × Value)}
    (hne : name ≠ other) : ((other, member) :: rest).lookup name = rest.lookup name := by
  rw [List.lookup_cons, beq_false_of_ne hne]

section

variable {kind : Text} {location : Location}

theorem lookup_requiredMembers_kind :
    (requiredMembers kind location).lookup ("kind" : Text) = some (.string kind) :=
  List.lookup_cons_self ..

theorem lookup_requiredMembers_location :
    (requiredMembers kind location).lookup ("location" : Text) =
      some (encodeLocation location) := by
  rw [requiredMembers, lookup_cons_of_ne (by decide), List.lookup_cons_self]

theorem lookup_requiredMembers_of_ne (hkind : name ≠ "kind") (hlocation : name ≠ "location") :
    (requiredMembers kind location).lookup name = none := by
  rw [requiredMembers, lookup_cons_of_ne hkind, lookup_cons_of_ne hlocation, List.lookup_nil]

end

section

variable {α : Type} {bare : Bool} {other : Text} {encode : α → Value} {content : Option α}

theorem lookup_optionMember_of_ne (hne : other ≠ name) :
    (optionMember bare name encode content).lookup other = none := by
  cases content <;> cases bare <;> simp [optionMember, lookup_cons_of_ne hne]

theorem lookup_listMember_of_ne {items : List Value} (hne : other ≠ name) :
    (listMember bare name items).lookup other = none := by
  unfold listMember
  split <;> simp [lookup_cons_of_ne hne]

theorem lookup_listMember {items : List Value} :
    (listMember bare name items).lookup name = some (.array items) ∨
      (listMember bare name items).lookup name = none ∧ items = [] := by
  unfold listMember
  split
  · rename_i hempty
    exact Or.inr ⟨rfl, List.isEmpty_iff.mp (Bool.and_eq_true_iff.mp hempty).2⟩
  · exact Or.inl (List.lookup_cons_self ..)

theorem encodesOption (bare : Bool) (encode : α → Value) {encodes : Value → α → Prop}
    (hencode : ∀ content, encodes (encode content) content)
    (h : value.get? name = (optionMember bare name encode content).lookup name) :
    EncodesOption encodes value name content := by
  cases content with
  | none =>
      intro member hmember
      rw [h] at hmember
      cases bare
      · rw [optionMember, if_neg Bool.false_ne_true, List.lookup_cons_self] at hmember
        exact (Option.some.inj hmember).symm
      · cases hmember
  | some content => exact ⟨_, h.trans (List.lookup_cons_self ..), hencode content⟩

end

theorem encodesLocation (location : Location) :
    EncodesLocation (encodeLocation location) location := by
  constructor <;>
  simp (disch := decide) only [encodeLocation, Value.get?, lookup_cons_of_ne, List.lookup_cons_self]

/-- The members of a label stand side by side, none of them in the place of another. -/
theorem encodesLabel (bare : Bool) (label : Label) (items : List Value) :
    EncodesLabel (.object (labelMembers bare label ++ listMember bare "children" items)) label := by
  have hlookup : ∀ name : Text, (Value.object (labelMembers bare label ++
      listMember bare "children" items)).get? name =
        ((requiredMembers label.kind label.location).lookup name).or
        (((optionMember bare "name" Value.string label.name).lookup name).or
        (((optionMember bare "name_location" encodeLocation label.nameLocation).lookup name).or
        (((optionMember bare "body_location" encodeLocation label.bodyLocation).lookup name).or
        (((optionMember bare "end_keyword_location" encodeLocation label.endLocation).lookup
          name).or ((listMember bare "children" items).lookup name))))) := by
    intro name
    simp only [Value.get?, labelMembers, List.lookup_append, Option.or_assoc]
  refine ⟨?_, ⟨encodeLocation label.location, ?_, encodesLocation _⟩,
    encodesOption bare Value.string (fun _ => rfl) ?_, encodesOption bare _ encodesLocation ?_,
    encodesOption bare _ encodesLocation ?_, encodesOption bare _ encodesLocation ?_⟩ <;>
  simp (disch := decide) only [hlookup, lookup_requiredMembers_kind,
    lookup_requiredMembers_location, lookup_requiredMembers_of_ne, lookup_optionMember_of_ne,
    lookup_listMember_of_ne, Option.mem_def, Option.or_none, Option.none_or]

theorem hasItems_children (bare : Bool) (label : Label) (items : List Value) :
    HasItems (.object (labelMembers bare label ++ listMember bare "children" items)) "children"
      items := by
  have hlabel : (labelMembers bare label).lookup ("children" : Text) = none := by
    simp (disch := decide) only [labelMembers, List.lookup_append, lookup_requiredMembers_of_ne,
      lookup_optionMember_of_ne, Option.or_none]
  rw [HasItems, Value.get?, List.lookup_append, hlabel, Option.none_or]
  exact lookup_listMember

theorem encodeNodes_map_some (bare : Bool) (nodes : List Node) :
    encodeNodes bare (nodes.map some) = nodes.map (encodeNode bare) := by
  induction nodes with
  | nil => rfl
  | cons node rest ih => rw [List.map_cons, encodeNodes, ih, List.map_cons]

/-- A tree without gaps is encoded by its value. -/
theorem encodesNode (bare : Bool) {node : Node} (h : node.Conforms) :
    EncodesNode (encodeNode bare node) node := by
  induction h with
  | @mk label children own full below ih =>
      obtain ⟨nodes, rfl⟩ : ∃ nodes : List Node, children = nodes.map some := by
        refine ⟨children.filterMap id, ?_⟩
        rw [List.map_filterMap_some_eq_filter_map_isSome, List.map_id, List.filter_eq_self.mpr]
        exact fun child hchild => Option.isSome_iff_ne_none.mpr (full child hchild)
      rw [encodeNode, encodeNodes_map_some]
      refine .mk (encodesLabel ..) (hasItems_children ..) rfl (List.length_map _) ?_
      intro item child hzip
      rw [← List.map_prod_right_eq_zip] at hzip
      obtain ⟨_, hchild, hpair⟩ := List.mem_map.mp hzip
      cases hpair
      exact ih child (List.mem_map_of_mem hchild)

theorem encodesDiagnostic (bare : Bool) (diagnostic : Diagnostic) :
    EncodesDiagnostic (encodeDiagnostic bare diagnostic) diagnostic := by
  refine ⟨?_, ⟨encodeLocation diagnostic.location, ?_, encodesLocation _⟩, ?_⟩
  · simp only [encodeDiagnostic, Value.get?, List.lookup_append, lookup_requiredMembers_kind,
      Option.some_or]
  · simp only [encodeDiagnostic, Value.get?, List.lookup_append, lookup_requiredMembers_location,
      Option.some_or, Option.mem_def]
  · simp (disch := decide) only [encodeDiagnostic, Value.get?, List.lookup_append,
      lookup_requiredMembers_of_ne, Option.none_or]
    split
    · rename_i hempty
      exact Or.inr ⟨rfl, List.isEmpty_iff.mp (Bool.and_eq_true_iff.mp hempty).2⟩
    · exact Or.inl (List.lookup_cons_self ..)

/-- A report without gaps in its tree is encoded by its document, bare or not. -/
theorem encodesReport (bare : Bool) {result : Parse} (h : result.Conforms) :
    EncodesReport (encodeReport bare result) result := by
  refine ⟨⟨encodeNode bare result.tree, ?_, encodesNode bare h.tree⟩,
    result.diagnostics.map (encodeDiagnostic bare), ?_, ?_⟩
  · rw [encodeReport, Value.get?, List.lookup_cons_self, Option.mem_def]
  · rw [encodeReport, Value.get?, lookup_cons_of_ne (by decide), List.lookup_cons_self]
  · rw [List.forall₂_map_left_iff, List.forall₂_same]
    exact fun diagnostic _ => encodesDiagnostic bare diagnostic

end Document

/-- **The format of documents.**  Exactly the documents of the format are read, and all others are
refused as no report.  What is read from a document is the one report for the text that is within
the bounds of the format and that the document encodes.  And each report within the bounds is
encoded by documents, among them one with every optional member and one without those that may be
left out. -/
theorem Parse.ofDocument_format (text : Text) :
    (∀ value, Document.IsReport value ↔ ∃ result, Parse.ofDocument text value = .ok result) ∧
      (∀ value, ¬ Document.IsReport value →
        ∃ problems, Parse.ofDocument text value = .error (.notReport problems)) ∧
      (∀ value result, Parse.ofDocument text value = .ok result ↔
        result.text = text ∧ result.Conforms ∧ Document.EncodesReport value result) ∧
      ∀ (result : Parse) (bare : Bool), result.Conforms →
        Document.EncodesReport (Document.encodeReport bare result) result := by
  have hread : ∀ value, Document.IsReport value →
      Parse.ofDocument text value = .ok (Document.report text value) := fun value hreport =>
    ofDocument_eq_report (Document.form_eq_nil_iff.mpr hreport)
  have hrefused : ∀ value, ¬ Document.IsReport value →
      ∃ problems, Parse.ofDocument text value = .error (.notReport problems) := by
    intro value hreport
    unfold ofDocument
    split
    · rename_i hcheck
      exact absurd (Document.form_eq_nil_iff.mp (Schema.check_eq_nil_iff.mp hcheck)) hreport
    · exact ⟨_, rfl⟩
  have haccepted : ∀ {value result}, Parse.ofDocument text value = .ok result →
      Document.IsReport value := by
    intro value result hresult
    by_contra hreport
    obtain ⟨problems, hproblems⟩ := hrefused value hreport
    cases hresult.symm.trans hproblems
  refine ⟨fun value => ⟨fun hreport => ⟨_, hread value hreport⟩, fun ⟨_, h⟩ => haccepted h⟩,
    hrefused, fun value result => ⟨fun hresult => ?_, ?_⟩,
    fun result bare hconforms => Document.encodesReport bare hconforms⟩
  · obtain rfl := Except.ok.inj (hresult.symm.trans (hread value (haccepted hresult)))
    obtain ⟨hencodes, hconforms⟩ := (haccepted hresult).encoded text
    exact ⟨rfl, hconforms, hencodes⟩
  · rintro ⟨rfl, hconforms, hencodes⟩
    rw [hread value (hencodes.isReport hconforms), hencodes.report_eq]

end SyntaxRepair
