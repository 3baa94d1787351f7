import SyntaxRepair.Mission.Execution
import SyntaxRepair.Proofs.Repair.Sweeping
import SyntaxRepair.Proofs.Text.LineStarts

/-!
# Where assignments go

An assignment is inserted at the beginning of the line in which the body of its definition
begins, or the end keyword where there is no body.  This is never behind the body, but it
is behind the parameters only if a line begins between them and the body: in a definition
that is written on one line the statement goes above the definition.
-/

namespace SyntaxRepair

open Json (Number)

/-- What the statement of an assignment stands in front of: the body of the definition, or
its end keyword where there is no body. -/
def Label.bodyPlace? (label : Label) : Option Location := label.bodyLocation <|> label.endLocation

theorem Label.mem_locations_of_bodyPlace? {label : Label} {place : Location}
    (h : label.bodyPlace? = some place) : place ∈ label.locations := by
  unfold bodyPlace? at h
  cases hbody : label.bodyLocation with
  | none =>
      rw [hbody] at h
      have hkeyword : label.endLocation = some place := h
      simp [locations, hkeyword]
  | some body =>
      rw [hbody] at h
      have hplace : body = place := Option.some.inj h
      simp [locations, hbody, hplace]

theorem indentedLine_eq_ok {indent : Number} {contents line : Text}
    (h : indentedLine indent contents = .ok line) :
    ∃ depth, line = Text.spaces depth ++ contents ++ "\n" := by
  rw [indentedLine, except_bind_eq_ok] at h
  obtain ⟨depth, -, hline⟩ := h
  exact ⟨depth, (Except.ok.inj hline).symm⟩

/-- A line at the depth of a place goes to the beginning of its line. -/
theorem levelPlace_eq_ok {place : Location} {contents : Text} {insertion : Insertion}
    {offset : Int} (h : levelPlace place contents = .ok insertion)
    (hoffset : insertion.offset = .int offset) :
    offset = place.start.whole - place.column.whole ∧
      ∃ depth, insertion.text = Text.spaces depth ++ contents ++ "\n" := by
  simp only [levelPlace, except_bind_eq_ok] at h
  obtain ⟨number, hnumber, line, hline, hinsertion⟩ := h
  cases hinsertion
  dsimp only at hoffset
  subst hoffset
  obtain ⟨start, column, hstart, hcolumn, rfl⟩ := Number.sub_eq_int_iff.mp hnumber
  rw [hstart, hcolumn]
  exact ⟨rfl, indentedLine_eq_ok hline⟩

/-- A deeper line goes there as well: what is added to the column is taken off again. -/
theorem deeperPlace_eq_ok {place : Location} {contents : Text} {insertion : Insertion}
    {offset : Int} (h : deeperPlace place contents = .ok insertion)
    (hoffset : insertion.offset = .int offset) :
    offset = place.start.whole - place.column.whole ∧
      ∃ depth, insertion.text = Text.spaces depth ++ contents ++ "\n" := by
  simp only [deeperPlace, except_bind_eq_ok] at h
  obtain ⟨indent, hindent, difference, hdifference, number, hnumber, line, hline, hinsertion⟩ := h
  cases hinsertion
  dsimp only at hoffset
  subst hoffset
  obtain ⟨distance, two, rfl, htwo, hsum⟩ := Number.add_eq_int_iff.mp hnumber
  obtain ⟨start, depth, hstart, rfl, hdistance⟩ := Number.sub_eq_int_iff.mp hdifference
  obtain ⟨column, two', hcolumn, htwo', hdepth⟩ := Number.add_eq_int_iff.mp hindent
  cases htwo
  cases htwo'
  rw [hstart, hcolumn, Number.whole_int, Number.whole_int]
  exact ⟨by omega, indentedLine_eq_ok hline⟩

/-- The statement of an assignment goes to the beginning of the line of what it stands in
front of. -/
theorem assignmentPlace_eq_ok {label : Label} {payload : Text} {insertion : Insertion}
    {offset : Int} (h : assignmentPlace label payload = .ok insertion)
    (hoffset : insertion.offset = .int offset) :
    ∃ place, label.bodyPlace? = some place ∧ offset = place.start.whole - place.column.whole ∧
      ∃ depth, insertion.text = Text.spaces depth ++ payload ++ "\n" := by
  unfold assignmentPlace at h
  split at h
  · rename_i body hbody
    refine ⟨body, ?_, levelPlace_eq_ok (Failure.ofMisfit_eq_ok.mp h) hoffset⟩
    rw [Label.bodyPlace?, hbody]
    rfl
  · rename_i keyword hbody hkeyword
    refine ⟨keyword, ?_, deeperPlace_eq_ok (Failure.ofMisfit_eq_ok.mp h) hoffset⟩
    rw [Label.bodyPlace?, hbody, hkeyword]
    rfl
  · cases h

namespace Mission

variable {mission : Mission} {result : Parse} {before after : Workspace} {done : Unit}

/-- A mission that is carried out makes its insertion and changes nothing else. -/
theorem execute_eq_ok {index : Index} :
    (mission.execute index result).start before = (.ok done, after) ↔
      ∃ (insertion : Insertion) (offset : Int) (buffer : Buffer),
        mission.insertion index result = .ok insertion ∧ insertion.offset = .int offset ∧
        before.buffer.insert offset insertion.text = .ok buffer ∧
        after = { before with buffer } := by
  simp only [execute, Step.start_bind_eq_ok, Step.start_ofExcept_eq_ok,
    Workspace.start_replaceAt_eq_ok]
  constructor
  · rintro ⟨insertion, _, ⟨hinsertion, rfl⟩, offset, length, buffer, hoffset, hlength, hinsert, rfl⟩
    cases hlength
    exact ⟨insertion, offset, buffer, hinsertion, hoffset, hinsert, rfl⟩
  · rintro ⟨insertion, offset, buffer, hinsertion, hoffset, hinsert, rfl⟩
    exact ⟨insertion, before, ⟨hinsertion, rfl⟩, offset, 0, buffer, hoffset, rfl, hinsert, rfl⟩

/-- **Where an assignment goes.**  For every report whose columns are counted from the
beginnings of their lines, an assignment that is carried out is inserted as a line of its
own no later than the body of its definition begins, or its end keyword where there is no
body.  It goes behind the parameters exactly if some line begins between the end of the
parameters and the beginning of the body or the end keyword. -/
theorem assignment_offset (hpurpose : mission.purpose = .assignment)
    (haligned : ∀ location ∈ result.locations, location.Aligned result.text)
    (hexecute : (mission.execute result.tree.index result).start before = (.ok done, after)) :
    ∃ (definition : Outline) (place : Location) (offset depth : Int),
      result.tree.index.innermost mission.offset (some definitionKind) = some definition ∧
      definition.label.bodyPlace? = some place ∧
      before.buffer.insert offset (Text.spaces depth ++ mission.payload ++ "\n") =
        .ok after.buffer ∧
      offset ≤ place.values.start ∧
      ∀ parameters, definition.firstChild [parametersKind] = some parameters →
        (parameters.location.values.stop ≤ offset ↔
          ∃ start ∈ result.text.lineStarts, parameters.location.values.stop ≤ (start : Int) ∧
            (start : Int) ≤ place.values.start) := by
  obtain ⟨insertion, offset, buffer, hinsertion, hoffset, hinsert, rfl⟩ := execute_eq_ok.mp hexecute
  unfold Mission.insertion at hinsertion
  split at hinsertion
  · cases hinsertion
  · rename_i definition hdefinition
    rw [hpurpose] at hinsertion
    obtain ⟨place, hplace, rfl, depth, htext⟩ := assignmentPlace_eq_ok hinsertion hoffset
    rw [htext] at hinsert
    have horigin : place.Aligned result.text := haligned place
      (Parse.location_mem_of_node (result.tree.mem_nodes_of_innermost hdefinition)
        (Label.mem_locations_of_bodyPlace? hplace))
    refine ⟨definition, place, _, depth, hdefinition, hplace, hinsert, horigin.le, ?_⟩
    intro parameters _
    exact horigin.le_iff parameters.location.values.stop

/-! ### A definition on two lines and on one -/

/-- A definition with one parameter, with `gap` between the parameters and the body, which
begins at `column` of line `line`. -/
def laidOut (gap : Text) (line column : Int) : Parse :=
  let size : Nat := gap.length
  let whole : Location := ⟨.int 0, .int (14 + size - 1), 1, 0⟩
  let parameter : Location := ⟨.int 6, .int 7, 1, .int 6⟩
  let body : Location := ⟨.int (8 + size), .int (9 + size), .int line, .int column⟩
  let keyword : Location := ⟨.int (10 + size), .int (13 + size), .int line, .int (column + 2)⟩
  { text := "def f(a)" ++ gap ++ "a end"
    tree := .mk { kind := "program_node", location := whole }
      [some (.mk { kind := definitionKind, location := whole, name := some "f",
                   bodyLocation := some body, endLocation := some keyword }
        [some (.mk { kind := parametersKind, location := parameter }
          [some (.mk { kind := "parameter_node", location := parameter, name := some "a" } [])]),
         some (.mk { kind := "statements_node", location := body }
          [some (.mk { kind := "call_node", location := body } [])])])] }

/-- The mission of a field `@a` that stood as the parameter. -/
def assigning : Mission :=
  { offset := 6, sequence := 0, purpose := .assignment, payload := "@a = a" }

/-- Where the parameters of the definition around an offset end, and where the body begins. -/
def signatureEnds (result : Parse) (offset : Int) : Option (Int × Int) := do
  let definition ← result.tree.index.innermost offset (some definitionKind)
  let parameters ← definition.firstChild [parametersKind]
  let place ← definition.label.bodyPlace?
  return (parameters.location.values.stop, place.values.start)

/-- With the body on a line of its own the statement goes between the parameters and the
body. -/
theorem assignment_offset_own_line :
    ∃ (after : Workspace) (offset depth : Int),
      (assigning.execute (laidOut "\n  " 2 2).tree.index (laidOut "\n  " 2 2)).start
        { buffer := { text := (laidOut "\n  " 2 2).text } } = (.ok (), after) ∧
      Buffer.insert { text := (laidOut "\n  " 2 2).text } offset
        (Text.spaces depth ++ "@a = a" ++ "\n") = .ok after.buffer ∧
      signatureEnds (laidOut "\n  " 2 2) 6 = some (7, 11) ∧ 7 ≤ offset ∧ offset ≤ 11 := by
  have haligned : ∀ location ∈ (laidOut "\n  " 2 2).locations,
      location.Aligned (laidOut "\n  " 2 2).text := by decide +kernel
  have hends : signatureEnds (laidOut "\n  " 2 2) 6 = some (7, 11) := by decide +kernel
  have hexecute := @Step.eq_ok_of_fst _ _
    ((assigning.execute (laidOut "\n  " 2 2).tree.index (laidOut "\n  " 2 2)).start
      { buffer := { text := (laidOut "\n  " 2 2).text } }) () (by decide +kernel)
  obtain ⟨definition, place, offset, depth, hdefinition, hplace, hinsert, hle, hparameters⟩ :=
    assignment_offset rfl haligned hexecute
  refine ⟨_, offset, depth, hexecute, hinsert, hends, ?_⟩
  have hdefinition' : (laidOut "\n  " 2 2).tree.index.innermost 6 (some definitionKind) =
    some definition := hdefinition
  simp only [signatureEnds, hdefinition', hplace, bind, Option.bind_some,
    Option.bind_eq_some_iff] at hends
  obtain ⟨parameters, hfirst, hpair⟩ := hends
  obtain ⟨hstop, hstart⟩ := Prod.mk.inj (Option.some.inj hpair)
  have hiff := hparameters parameters hfirst
  rw [hstop, hstart] at hiff
  rw [hstart] at hle
  exact ⟨hiff.mpr (by decide), hle⟩

/-- In a definition that is written on one line the statement goes above the definition, in
front of its parameters. -/
theorem assignment_offset_one_line :
    (∀ location ∈ (laidOut " " 1 9).locations, location.Aligned (laidOut " " 1 9).text) ∧
    signatureEnds (laidOut " " 1 9) 6 = some (7, 9) ∧
    ∃ after : Workspace,
      (assigning.execute (laidOut " " 1 9).tree.index (laidOut " " 1 9)).start
        { buffer := { text := (laidOut " " 1 9).text } } = (.ok (), after) ∧
      assigning.insertion (laidOut " " 1 9).tree.index (laidOut " " 1 9) =
        .ok ⟨.int 0, "         @a = a\n"⟩ ∧
      after.buffer.text = "         @a = a\ndef f(a) a end" := by
  refine ⟨by decide +kernel, by decide +kernel, _, Step.eq_ok_of_fst (by decide +kernel), ?_, ?_⟩
  · decide +kernel
  · decide +kernel

end Mission

end SyntaxRepair
