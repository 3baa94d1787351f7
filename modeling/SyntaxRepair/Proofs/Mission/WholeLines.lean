import SyntaxRepair.Proofs.Edit.Insertions
import SyntaxRepair.Proofs.Mission.Execution
import SyntaxRepair.Proofs.Mission.Queue
import SyntaxRepair.Proofs.Repair.Merging
import SyntaxRepair.Proofs.Sequences

/-!
# Missions add whole lines

A mission adds one line, and it adds it where a line of the clean text begins.  The text behind
all missions is therefore the clean text, line by line, with their lines woven in, and the lines
in front of one line of the text stand in the order of their missions (`executeAll_weaves`).

The missions of one definition have one place for their statements, so these stand in the order
of the anchors, which is the order of the parameters.
-/

namespace SyntaxRepair

/-! ## One mission -/

/-- A report in which the bodies and end keywords of definitions tell their columns from the
beginnings of their lines. -/
def Parse.BodiesAligned (result : Parse) : Prop :=
  ∀ node ∈ result.tree.index.nodes.toList, node.kind = definitionKind →
    ∀ place ∈ node.label.bodyPlace?, place.Aligned result.text

instance (result : Parse) : Decidable result.BodiesAligned :=
  inferInstanceAs (Decidable (∀ _ ∈ _, _ → ∀ _ ∈ _, _))

namespace Mission

variable {result : Parse} {mission : Mission} {insertion : Insertion}

/-- The statement of an assignment goes to the beginning of a line. -/
theorem Inserts.assignment (hinserts : mission.Inserts result insertion)
    (hpurpose : mission.purpose = .assignment) :
    ∃ definition place,
      result.tree.index.innermost mission.offset (some definitionKind) = some definition ∧
      definition.label.bodyPlace? = some place ∧
      insertion.offset.whole = place.start.whole - place.column.whole ∧
      ∃ line : Text, insertion.text = line ++ "\n" := by
  have hinsertion := hinserts.insertion_eq
  unfold Mission.insertion at hinsertion
  split at hinsertion
  · cases hinsertion
  · rename_i definition hdefinition
    rw [hpurpose] at hinsertion
    obtain ⟨place, hplace, hoffset, depth, htext⟩ :=
      assignmentPlace_eq_ok hinsertion hinserts.offset_eq
    exact ⟨definition, place, hdefinition, hplace, hoffset, _, htext⟩

/-- A type comment goes to the beginning of the line of its definition. -/
theorem Inserts.typeComment (hinserts : mission.Inserts result insertion)
    (hpurpose : mission.purpose = .typeComment) :
    (∃ start ∈ result.text.lineStarts, insertion.offset = .int (start : Nat)) ∧
      ∃ line : Text, insertion.text = line ++ "\n" := by
  have hinsertion := hinserts.insertion_eq
  unfold Mission.insertion at hinsertion
  split at hinsertion
  · cases hinsertion
  · rw [hpurpose] at hinsertion
    dsimp only at hinsertion
    split at hinsertion
    · cases hinsertion
    · split at hinsertion
      · cases hinsertion
      · obtain ⟨start, depth, hstart, -, htext, hoffset⟩ := abovePlace_eq_ok hinsertion
        obtain ⟨place, hplace, rfl⟩ := Parse.mem_lineStarts_of_lineStart? hstart
        obtain ⟨spaces, hline⟩ := indentedLine_eq_ok htext
        exact ⟨⟨place, hplace, hoffset⟩, _, hline⟩

/-- **One mission.**  It adds a whole line, where a line begins. -/
theorem Inserts.whole_line (hinserts : mission.Inserts result insertion)
    (haligned : result.BodiesAligned) :
    (∃ start ∈ result.text.lineStarts, insertion.offset = .int (start : Nat)) ∧
      ∃ line : Text, insertion.text = line ++ "\n" := by
  cases hpurpose : mission.purpose with
  | typeComment => exact hinserts.typeComment hpurpose
  | assignment =>
      obtain ⟨definition, place, hdefinition, hplace, hoffset, hline⟩ :=
        hinserts.assignment hpurpose
      have horigin := haligned definition (result.tree.mem_nodes_of_innermost hdefinition)
        (Index.kind_of_innermost hdefinition) place hplace
      obtain ⟨start, hstart, hsame⟩ := horigin.exists_mem
      refine ⟨⟨start, hstart, ?_⟩, hline⟩
      rw [hinserts.offset_eq, hoffset, hsame]

/-- The statements of one definition go to one place, wherever their anchors stand in it. -/
theorem Inserts.offset_eq_of_same {other : Mission} {insertion' : Insertion}
    (hinserts : mission.Inserts result insertion) (hinserts' : other.Inserts result insertion')
    (hpurpose : mission.purpose = .assignment) (hpurpose' : other.purpose = .assignment)
    (hsame : result.tree.index.innermost mission.offset (some definitionKind) =
      result.tree.index.innermost other.offset (some definitionKind)) :
    insertion'.offset = insertion.offset := by
  obtain ⟨definition, place, hdefinition, hplace, hoffset, -⟩ := hinserts.assignment hpurpose
  obtain ⟨definition', place', hdefinition', hplace', hoffset', -⟩ :=
    hinserts'.assignment hpurpose'
  rw [hdefinition, hdefinition', Option.some.injEq] at hsame
  subst hsame
  rw [hplace, Option.some.injEq] at hplace'
  subst hplace'
  rw [hinserts.offset_eq, hinserts'.offset_eq, hoffset, hoffset']

theorem whole_lines_of_forall₂ (haligned : result.BodiesAligned) {missions : List Mission}
    {insertions : List Insertion} (hinserts : List.Forall₂ (Inserts result) missions insertions) :
    ∀ insertion ∈ insertions,
      (∃ start ∈ result.text.lineStarts, insertion.offset = .int (start : Nat)) ∧
        ∃ line : Text, insertion.text = line ++ "\n" := by
  induction hinserts with
  | nil => exact List.forall_mem_nil _
  | cons hfirst hrest ih => exact List.forall_mem_cons.mpr ⟨hfirst.whole_line haligned, ih⟩

end Mission

/-! ## All missions -/

section

variable {result : Parse} {before after : Workspace} {done : Unit} {insertions : List Insertion}

/-- An insertion where a line begins lies inside the text. -/
theorem Insertion.inside_of_mem_lineStarts {text : Text} {insertion : Insertion} {start : Nat}
    (hstart : start ∈ text.lineStarts) (hoffset : insertion.offset = .int start) :
    insertion.write.Inside text.length := by
  have hle := Text.le_length_of_mem_lineStarts hstart
  rw [Write.Inside, Insertion.write, Write.offset, Write.length, hoffset, Json.Number.whole_int]
  omega

/-- What is inserted at one place by two insertions and others around them. -/
theorem insertedAt_split {first second : Insertion} {front middle back : List Insertion}
    {place : Nat} (hfirst : first.offset = .int place) (hsecond : second.offset = .int place) :
    ∃ ahead between behind : Text,
      insertedAt ((front ++ first :: (middle ++ second :: back)).map Insertion.write) place =
        ahead ++ first.text ++ between ++ second.text ++ behind := by
  refine ⟨insertedAt (front.map Insertion.write) place,
    insertedAt (middle.map Insertion.write) place, insertedAt (back.map Insertion.write) place, ?_⟩
  have hplaceFirst : first.write.offset = place := by
    rw [Insertion.write, Write.offset, hfirst, Json.Number.whole_int]
  have hplaceSecond : second.write.offset = place := by
    rw [Insertion.write, Write.offset, hsecond, Json.Number.whole_int]
  rw [List.map_append, insertedAt_append, List.map_cons, insertedAt_cons hplaceFirst,
    List.map_append, insertedAt_append, List.map_cons, insertedAt_cons hplaceSecond]
  simp only [List.append_assoc]
  rfl

/-- What whole lines are inserted at a place are whole lines, and the place is one where a line
begins. -/
theorem insertedAt_whole_lines {text : Text} (hlines : ∀ insertion ∈ insertions,
      (∃ start ∈ text.lineStarts, insertion.offset = .int (start : Nat)) ∧
        ∃ line : Text, insertion.text = line ++ "\n") (place : Nat) :
    Text.WholeLines (insertedAt (insertions.map Insertion.write) place) ∧
      (insertedAt (insertions.map Insertion.write) place ≠ [] → place ∈ text.lineStarts) := by
  constructor
  · rw [insertedAt, List.flatMap_def]
    refine Text.WholeLines.flatten fun inserted hmem => ?_
    obtain ⟨write, hwrite, rfl⟩ := List.mem_map.mp hmem
    obtain ⟨insertion, hinsertion, rfl⟩ := List.mem_map.mp (List.mem_of_mem_filter hwrite)
    obtain ⟨-, line, hline⟩ := hlines insertion hinsertion
    exact Or.inr ⟨line, hline⟩
  · intro hsome
    obtain ⟨c, hc⟩ := List.exists_mem_of_ne_nil _ hsome
    obtain ⟨write, hwrite, -⟩ := List.mem_flatMap.mp hc
    obtain ⟨hmem, hplace⟩ := List.mem_filter.mp hwrite
    obtain ⟨insertion, hinsertion, rfl⟩ := List.mem_map.mp hmem
    obtain ⟨⟨start, hstart, hoffset⟩, -⟩ := hlines insertion hinsertion
    rw [decide_eq_true_eq, Insertion.write, Write.offset, hoffset, Json.Number.whole_int,
      Int.natCast_inj] at hplace
    rw [← hplace]
    exact hstart

/-- **Whole lines, in a fixed order.**  If all missions of a queue are carried out on a clean
text, each adds one whole line where a line of the text begins.  The text is woven with them: in
front of each place stand the lines of the missions that go there, in the order of the queue,
which is that of the anchors.  So all lines of the clean text are there and in their order, and
the statements of one definition stand in one place, in the order of their anchors. -/
theorem executeAll_weaves (hbuilt : before.queue.Built) (htext : result.text = before.buffer.text)
    (haligned : result.BodiesAligned)
    (h : (executeAll result).start before = (.ok done, after)) :
    ∃ insertions : List Insertion,
      List.Forall₂ (Mission.Inserts result) before.queue.missions insertions ∧
      (before.queue.missions.Pairwise fun first second =>
        first.toAnchor.Before second.toAnchor) ∧
      (∀ insertion ∈ insertions,
        (∃ start ∈ result.text.lineStarts, insertion.offset = .int (start : Nat)) ∧
          ∃ line : Text, insertion.text = line ++ "\n") ∧
      after.buffer.text = result.text.weave (insertedAt (insertions.map Insertion.write)) ∧
      result.text.lines.Sublist after.buffer.text.lines ∧
      ∀ first ∈ before.queue.missions, ∀ second ∈ before.queue.missions,
        first.toAnchor.Before second.toAnchor →
        first.purpose = .assignment → second.purpose = .assignment →
        result.tree.index.innermost first.offset (some definitionKind) =
          result.tree.index.innermost second.offset (some definitionKind) →
        ∃ (start : Nat) (line line' ahead between behind : Text),
          first.insertion result.tree.index result = .ok ⟨.int start, line⟩ ∧
          second.insertion result.tree.index result = .ok ⟨.int start, line'⟩ ∧
          insertedAt (insertions.map Insertion.write) start =
            ahead ++ line ++ between ++ line' ++ behind := by
  obtain ⟨-, -, insertions, hinsertions, hperform⟩ := executeAll_eq_ok h
  have hordered := hbuilt.ordered.ordered
  have hlines : ∀ insertion ∈ insertions,
      (∃ start ∈ result.text.lineStarts, insertion.offset = .int (start : Nat)) ∧
        ∃ line : Text, insertion.text = line ++ "\n" :=
    Mission.whole_lines_of_forall₂ haligned hinsertions
  rw [← htext] at hperform
  have hwoven : after.buffer.text =
      result.text.weave (insertedAt (insertions.map Insertion.write)) := by
    refine Buffer.text_of_insertions ?_ ?_ hperform
    · intro write hmem
      obtain ⟨insertion, -, rfl⟩ := List.mem_map.mp hmem
      rfl
    · intro write hmem
      obtain ⟨insertion, hinsertion, rfl⟩ := List.mem_map.mp hmem
      obtain ⟨⟨start, hstart, hoffset⟩, -⟩ := hlines insertion hinsertion
      exact Insertion.inside_of_mem_lineStarts hstart hoffset
  refine ⟨insertions, hinsertions, hordered, hlines, hwoven, ?_, ?_⟩
  · rw [hwoven]
    exact Text.lines_sublist_weave (fun place => (insertedAt_whole_lines hlines place).1)
      (fun place => (insertedAt_whole_lines hlines place).2)
  · intro first hfirst second hsecond hbefore hpurpose hpurpose' hsame
    -- the earlier mission stands in front of the later one, and so does its insertion
    obtain ⟨front, middle, back, hqueue⟩ :=
      Anchor.exists_eq_append_of_before hordered hfirst hsecond hbefore
    rw [hqueue] at hinsertions
    obtain ⟨front', insertion, rest', rfl, hinserts, hrest⟩ := forall₂_append_cons hinsertions
    obtain ⟨middle', insertion', back', rfl, hinserts', -⟩ := forall₂_append_cons hrest
    obtain ⟨⟨start, -, hstart⟩, -⟩ := hinserts.whole_line haligned
    have hstart' : insertion'.offset = .int (start : Nat) :=
      (hinserts.offset_eq_of_same hinserts' hpurpose hpurpose' hsame).trans hstart
    obtain ⟨ahead, between, behind, hsplit⟩ := insertedAt_split hstart hstart'
    refine ⟨start, insertion.text, insertion'.text, ahead, between, behind, ?_, ?_, hsplit⟩
    · rw [hinserts.insertion_eq, ← hstart]
    · rw [hinserts'.insertion_eq, ← hstart']

end

/-- A type comment and two statements for a definition whose body begins on a line of its own. -/
def threeMissions : Queue :=
  ((Queue.empty.add 6 .typeComment "A").add 6 .assignment "@a = a").add 7 .assignment "@b = b"

theorem executeAll_weaves_three :
    ∃ after : Workspace,
      threeMissions.Built ∧ (Mission.laidOut "\n  " 2 2).BodiesAligned ∧
      (executeAll (Mission.laidOut "\n  " 2 2)).start
        { buffer := { text := (Mission.laidOut "\n  " 2 2).text }, queue := threeMissions } =
          (.ok (), after) ∧
      after.buffer.text = "# @rbs a: A\ndef f(a)\n  @a = a\n  @b = b\n  a end" ∧
      Text.lines "def f(a)\n  a end" = [("def f(a)" : Text), "  a end"] ∧
      (Text.lines "def f(a)\n  a end").Sublist after.buffer.text.lines := by
  have hbuilt : threeMissions.Built :=
    ((Queue.Built.empty.add 6 .typeComment "A").add 6 .assignment "@a = a").add 7 .assignment
      "@b = b"
  have haligned : (Mission.laidOut "\n  " 2 2).BodiesAligned := by decide +kernel
  have hexecute := @Step.eq_ok_of_fst _ _
    ((executeAll (Mission.laidOut "\n  " 2 2)).start
      { buffer := { text := (Mission.laidOut "\n  " 2 2).text }, queue := threeMissions }) ()
    (by decide +kernel)
  obtain ⟨insertions, -, -, -, -, hsublist, -⟩ :=
    executeAll_weaves hbuilt rfl haligned hexecute
  exact ⟨_, hbuilt, haligned, hexecute, by decide +kernel, by decide, hsublist⟩

end SyntaxRepair
