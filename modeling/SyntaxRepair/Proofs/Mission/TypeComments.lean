import SyntaxRepair.Repair.Loop
import SyntaxRepair.Proofs.Mission.AssignmentPlace
import SyntaxRepair.Proofs.Repair.Merging
import SyntaxRepair.Proofs.Text.Comments

/-!
# What type comments add to a text

A type is cut out of the text as it stands there and goes into a comment as it is.  So what is
added is made of comments exactly if every line of the type behind its first one is a comment of
its own (`typeComments_iff`), and always if the type stands in one line.  This holds of the
comment of a parameter and of the signature above a dispatcher, however deep they are indented.
-/

namespace SyntaxRepair

open Json (Number)

/-- The comment above a dispatcher. -/
def signatureText (overloads : List (List Text)) : Text :=
  (overloads.mapIdx signatureLine).flatten

/-- The types of a definition are continued by comments exactly if each of them is. -/
theorem continued_typeList (types : List Text) :
    (typeList types).Continued ↔ ∀ type ∈ types, type.Continued := by
  induction types with
  | nil => exact iff_of_true (by decide) (List.forall_mem_nil _)
  | cons type rest ih =>
      cases rest with
      | nil => rw [List.forall_mem_singleton]; rfl
      | cons next rest =>
          rw [List.forall_mem_cons, ← ih, typeList, Text.join, List.append_assoc]
          exact Text.continued_append (c := .char ',') (by decide) (by decide) (by decide)

/-- A line of a signature is a comment exactly if its types are continued by comments. -/
theorem comments_signatureLine (ordinal : Nat) (types : List Text) :
    (signatureLine ordinal types).WholeLines ∧
      ((signatureLine ordinal types).Comments ↔ ∀ type ∈ types, type.Continued) := by
  have hline : ∃ front : Text, .char '\n' ∉ front ∧ front.firstSolid? = some (.char '#') ∧
      signatureLine ordinal types = front ++ (typeList types ++ ") -> untyped") ++ "\n" := by
    unfold signatureLine
    split
    · refine ⟨"# @rbs (", by decide, by decide, ?_⟩
      simp only [List.append_assoc]
      rfl
    · refine ⟨"#    | (", by decide, by decide, ?_⟩
      simp only [List.append_assoc]
      rfl
  obtain ⟨front, hnone, hfront, hline⟩ := hline
  rw [hline, Text.comments_of_fragment hnone hfront, ← continued_typeList]
  refine ⟨Or.inr ⟨_, rfl⟩, ?_⟩
  rw [← List.append_nil (_ ++ _), List.append_assoc]
  rw [Text.continued_append (c := .char ')') (by decide) (by decide) (by decide),
    and_iff_left (by decide)]

/-- **The signature of a dispatcher.** -/
theorem comments_signatureText (overloads : List (List Text)) :
    (signatureText overloads).WholeLines ∧
      ((signatureText overloads).Comments ↔
        ∀ types ∈ overloads, ∀ type ∈ types, type.Continued) := by
  have hwhole : ∀ line ∈ overloads.mapIdx signatureLine, line.WholeLines := by
    intro line hmem
    obtain ⟨ordinal, hlt, rfl⟩ := List.mem_mapIdx.mp hmem
    exact (comments_signatureLine ordinal _).1
  refine ⟨Text.WholeLines.flatten hwhole, ?_⟩
  rw [signatureText, Text.comments_flatten hwhole]
  constructor
  · intro hall types hmem
    obtain ⟨ordinal, hlt, rfl⟩ := List.mem_iff_getElem.mp hmem
    exact (comments_signatureLine ordinal _).2.mp
      (hall _ (List.mem_mapIdx.mpr ⟨ordinal, hlt, rfl⟩))
  · intro hall line hmem
    obtain ⟨ordinal, hlt, rfl⟩ := List.mem_mapIdx.mp hmem
    exact (comments_signatureLine ordinal _).2.mpr (hall _ (List.getElem_mem hlt))

/-- The signature of a dispatcher stands in front of its definition, at the same depth. -/
theorem indentBy_dispatcherText {table : NameTable} {name : Text} {overloads : List (List Text)}
    {indent : Number} {script : Text}
    (h : (dispatcherText table name overloads).indentBy indent = .ok script) :
    ∃ (depth : Int) (rest : Text),
      script = (signatureText overloads).indent depth ++ (Text.spaces depth ++ "def " ++ rest) := by
  obtain ⟨depth, rfl⟩ : ∃ depth, script = (dispatcherText table name overloads).indent depth := by
    unfold Text.indentBy at h
    split at h
    · obtain ⟨depth, -, hscript⟩ := except_bind_eq_ok.mp h
      exact ⟨depth, (Except.ok.inj hscript).symm⟩
    · exact ⟨0, (Except.ok.inj h).symm⟩
  let body : Text := name ++ "(*args)\n  case args\n" ++
    (overloads.mapIdx (clause table name)).flatten ++ "  end\nend\n\n"
  have htext : dispatcherText table name overloads =
      signatureText overloads ++ (.char 'd' :: "ef " ++ body) := by
    simp only [dispatcherText, signatureText, body, List.append_assoc]
    rfl
  -- the definition begins with a word, which stands behind the indent
  obtain ⟨rest, hrest⟩ :=
    Text.exists_indent_append (.char 'd') "ef " (by decide) (by decide) body depth
  refine ⟨depth, rest, ?_⟩
  rw [htext, (comments_signatureText overloads).1.indent_append, hrest]
  rfl

/-- The comment of a parameter. -/
theorem Mission.comments_insertion {mission : Mission} {result : Parse} {parameter : Outline}
    {insertion : Insertion} (hpurpose : mission.purpose = .typeComment)
    (hparameter : result.tree.index.innermost mission.offset none = some parameter)
    (hname : .char '\n' ∉ parameter.label.name.getD [])
    (h : mission.insertion result.tree.index result = .ok insertion) :
    insertion.text.Comments ↔ mission.payload.Continued := by
  unfold Mission.insertion at h
  rw [hpurpose, hparameter] at h
  split at h
  · cases h
  · dsimp only at h
    split at h
    · cases h
    · rename_i found hfound
      obtain ⟨hsame, -⟩ := Option.filter_eq_some_iff.mp hfound
      cases hsame
      split at h
      · cases h
      · obtain ⟨-, depth, -, -, htext, -⟩ := abovePlace_eq_ok h
        obtain ⟨spaces, hline⟩ := indentedLine_eq_ok htext
        have hfragment : insertion.text = Text.spaces spaces ++ "# @rbs " ++
            parameter.label.name.getD [] ++ ": " ++ mission.payload ++ "\n" := by
          rw [hline, typeCommentText]
          simp only [List.append_assoc]
        rw [hfragment]
        refine Text.comments_of_fragment ?_ ?_
        · simp only [List.mem_append, not_or]
          exact ⟨⟨⟨Text.not_mem_spaces spaces, by decide⟩, hname⟩, by decide⟩
        · rw [Text.firstSolid?_append, Text.firstSolid?_append, Text.firstSolid?_append,
            Text.firstSolid?_spaces, Option.none_or, Option.or_assoc,
            show Text.firstSolid? "# @rbs " = some (.char '#') by decide, Option.some_or]

/-- **Type comments.**  What is added for the type of a parameter, and the signature that stands in
front of the definition of a dispatcher, at whatever depth, are made of comments exactly if all
lines of the types behind their first ones are comments. -/
theorem typeComments_iff (mission : Mission) (result : Parse) (table : NameTable) (name : Text)
    (overloads : List (List Text)) :
    (∀ (parameter : Outline) (insertion : Insertion), mission.purpose = .typeComment →
      result.tree.index.innermost mission.offset none = some parameter →
      .char '\n' ∉ parameter.label.name.getD [] →
      mission.insertion result.tree.index result = .ok insertion →
      (insertion.text.Comments ↔ mission.payload.Continued)) ∧
    ∀ (indent : Number) (script : Text),
      (dispatcherText table name overloads).indentBy indent = .ok script →
      ∃ (depth : Int) (rest : Text),
        script = (signatureText overloads).indent depth ++ (Text.spaces depth ++ "def " ++ rest) ∧
        (((signatureText overloads).indent depth).Comments ↔
          ∀ types ∈ overloads, ∀ type ∈ types, type.Continued) := by
  constructor
  · intro parameter insertion hpurpose hparameter hname hinsertion
    exact Mission.comments_insertion hpurpose hparameter hname hinsertion
  · intro indent script hscript
    obtain ⟨depth, rest, hparts⟩ := indentBy_dispatcherText hscript
    obtain ⟨hwhole, hcomments⟩ := comments_signatureText overloads
    exact ⟨depth, rest, hparts, (Text.comments_indent hwhole depth).trans hcomments⟩

/-- What a parser reports of a definition whose parameter has a type of two lines. -/
def brokenTypeReport : Parse where
  text := "def f(A|\nB=>a)end"
  tree := .mk { kind := "program_node", location := ⟨0, 17, 1, 0⟩ }
    [some (.mk { kind := definitionKind, location := ⟨0, 17, 1, 0⟩, name := some "f" }
      [some (.mk { kind := parametersKind, location := ⟨6, 10, 1, 6⟩ }
        [some (.mk { kind := "parameter_node", location := ⟨6, 10, 1, 6⟩ } [])]),
       some (.mk { kind := "statements_node", location := ⟨12, 13, 2, 3⟩ }
        [some (.mk { kind := "call_node", location := ⟨12, 13, 2, 3⟩ } [])])])]
  diagnostics := [⟨"unexpected_token_ignore", ⟨10, 12, 2, 1⟩, []⟩]

/-- What it reports of that definition without the type. -/
def bareReport : Parse where
  text := "def f(a)end"
  tree := .mk { kind := "program_node", location := ⟨0, 11, 1, 0⟩ }
    [some (.mk { kind := definitionKind, location := ⟨0, 11, 1, 0⟩, name := some "f" }
      [some (.mk { kind := parametersKind, location := ⟨6, 7, 1, 6⟩ }
        [some (.mk { kind := "required_parameter_node", location := ⟨6, 7, 1, 6⟩,
                     name := some "a" } [])])])]

/-- A parser with these two reports. -/
def brokenTypeFinder : Parser Unit := fun text =>
  pure (if text = brokenTypeReport.text then brokenTypeReport else bareReport)

/-- Types that stand in one line each are comments, above a parameter and in a signature. -/
theorem typeComments_iff_one_line :
    (∃ insertion, (Mission.mk ⟨6, 0⟩ .typeComment "A | B").insertion bareReport.tree.index
      bareReport = .ok insertion ∧ insertion.text.Comments) ∧
    ∃ (depth : Int) (rest : Text),
      (dispatcherText [] "area" [["Circle"], ["Square"]]).indentBy 2 =
        .ok ((signatureText [["Circle"], ["Square"]]).indent depth ++
          (Text.spaces depth ++ "def " ++ rest)) ∧
      ((signatureText [["Circle"], ["Square"]]).indent depth).Comments := by
  obtain ⟨hparameter, hdispatcher⟩ := typeComments_iff ⟨⟨6, 0⟩, .typeComment, "A | B"⟩ bareReport []
    "area" [["Circle"], ["Square"]]
  constructor
  · have hinsertion : (Mission.mk ⟨6, 0⟩ .typeComment "A | B").insertion bareReport.tree.index
        bareReport = .ok ⟨0, "# @rbs a: A | B\n"⟩ := by decide +kernel
    obtain ⟨parameter, hinnermost, hname⟩ : ∃ parameter,
        bareReport.tree.index.innermost 6 none = some parameter ∧
          parameter.label.name = some "a" := by
      have hname : (bareReport.tree.index.innermost 6 none).map (·.label.name) =
          some (some ("a" : Text)) := by decide +kernel
      obtain ⟨parameter, hinnermost, hname⟩ := Option.map_eq_some_iff.mp hname
      exact ⟨parameter, hinnermost, hname⟩
    refine ⟨_, hinsertion, (hparameter parameter _ rfl hinnermost ?_ hinsertion).mpr
      (Text.continued_of_not_mem (by decide))⟩
    rw [hname]
    decide
  · obtain ⟨script, hscript⟩ : ∃ script,
        (dispatcherText [] "area" [["Circle"], ["Square"]]).indentBy 2 = .ok script := ⟨_, rfl⟩
    obtain ⟨depth, rest, hparts, hcomments⟩ := hdispatcher _ _ hscript
    exact ⟨depth, rest, hparts ▸ hscript, hcomments.mpr (by decide)⟩

/-- A type of two lines leaves its second line in the text, in front of the definition, as code. -/
theorem typeComments_second_line :
    ((repair brokenTypeFinder {}).start (Run.of "def f(A|\nB=>a)end" ())).1 =
        .ok "# @rbs a: A|\nB\ndef f(a)end" ∧
      (Mission.mk ⟨6, 0⟩ .typeComment "A|\nB").insertion bareReport.tree.index bareReport =
        .ok ⟨0, "# @rbs a: A|\nB\n"⟩ ∧
      ¬ Text.Comments "# @rbs a: A|\nB\n" := by
  refine ⟨by decide +kernel, by decide +kernel, fun hcomments => ?_⟩
  exact absurd hcomments.2 (by decide)

end SyntaxRepair
