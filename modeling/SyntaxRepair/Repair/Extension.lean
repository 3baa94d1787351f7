import SyntaxRepair.Overload.Groups
import SyntaxRepair.Repair.Workspace

/-!
# Extensions of the language

Two kinds of diagnostics stand for an extension of the language and are
resolved; every other one is left alone, because it goes away with the other
edits or is reported in the end.

* A field as a parameter, `def initialize(@name)`: the parameter becomes `name`,
  and a mission assigns `@name = name` at the top of the body.
* A typed parameter, `def foo(Integer => a)`: the parser takes the type for the
  last parameter and the rest for the body.  The type and its marker are cut out,
  and a mission keeps the type as a comment.

A typed parameter is declined as soon as the report lacks something: the marker,
a definition around it with a scope, parameters and a body, or a parameter that
follows the marker.
-/

namespace SyntaxRepair

open Json (Number)

/-! ## What is recognized -/

/-- An extension that a diagnostic stands for. -/
inductive Extension
  | fieldParameter
  | typedParameter
deriving Repr, DecidableEq

/-- The kind of diagnostic that stands for an extension. -/
def Extension.diagnosticKind : Extension → Text
  | fieldParameter => "argument_formal_ivar"
  | typedParameter => "unexpected_token_ignore"

/-- The extension that a diagnostic stands for. -/
def Diagnostic.extension? (diagnostic : Diagnostic) : Option Extension :=
  [Extension.fieldParameter, Extension.typedParameter].find? fun extension =>
    extension.diagnosticKind = diagnostic.kind

/-- The mark in front of a type. -/
def typeMarker : Text := "=>"

/-- A text without the marker at its end and the blanks around that marker. -/
def dropMarker (text : Text) : Text :=
  match text.reverse.dropWhile Text.isBlank with
  | .char '>' :: .char '=' :: rest => (rest.dropWhile Text.isBlank).reverse
  | _ => text

/-! ## Resolving -/

/-- What resolving the diagnostics of a pass works on. -/
structure Sweep extends Workspace where
  /-- The offsets of the parameters whose type has been looked for. -/
  seen : List Int := []
  /-- The overload groups, which only the first pass collects. -/
  groups : Option Groups := none
deriving Repr, DecidableEq

namespace Sweep

/-- A step of the workspace. -/
def onWorkspace {α : Type} (step : Step Workspace α) : Step Sweep α :=
  Step.within Sweep.toWorkspace (fun workspace sweep => { sweep with toWorkspace := workspace })
    step

/-- Resolves a field that stands as a parameter. -/
def resolveField (result : Parse) (location : Location) : Step Sweep Bool := do
  let range ← Step.ofMisfit location.range
  match result.text.slice range.start range.stop with
  | .char '@' :: c :: name =>
    let name := c :: name
    onWorkspace (Workspace.edit fun buffer => buffer.replace range.start range.length name)
    let _ ← onWorkspace (Workspace.addMission range.start .assignment
      ("@" ++ name ++ " = " ++ name))
    return true
  | token => throw (.violation (.notField token))

/-- Where a typed parameter stands. -/
structure Site where
  definition : Outline
  /-- Where the scope of the definition begins. -/
  scope : Int
  /-- Where the last parameter begins, which is the type. -/
  parameter : Number
  body : Outline

/-- The site of a typed parameter, from its marker at `offset`. -/
def site? (index : Index) (offset : Int) : Option Site := do
  let definition ← index.innermost offset (some definitionKind)
  let parent ← definition.parent
  let scope ← index.find? parent
  let parameters ← definition.firstChild [parametersKind]
  let body ← definition.firstChild bodyKinds
  let parameter ←
    Number.firstGreatest (parameters.children.map fun child => child.location.start)
  return { definition, scope := scope.location.start.whole, parameter, body }

/-- Collects the type of a parameter in the group of its definition, if groups are
collected. -/
def collect (site : Site) (type : Text) (mission : Mission) : Step Sweep Unit := do
  match (← get).groups with
  | none => return
  | some groups =>
    match site.definition.label.name.getD [] with
    | [] => throw (.violation (.unnamedDefinition site.definition.location.start))
    | name =>
      let grown := groups.add ⟨site.scope, name⟩ site.definition.id type mission
      modify fun sweep => { sweep with groups := some grown }

/-- Cuts the type and the marker of a site, which stand in front of `stop`, out of the
signature. -/
def cutType (site : Site) (stop : Number) : Step Sweep Bool := do
  let type := dropMarker
    (← Step.ofMisfit ((← get).buffer.sliceNumbers site.parameter stop))
  let range : Range :=
    ⟨← Step.ofMisfit site.parameter.bound, ← Step.ofMisfit stop.bound⟩
  onWorkspace (Workspace.edit fun buffer => buffer.delete range.start range.length)
  let mission ← onWorkspace (Workspace.addMission range.start .typeComment type)
  collect site type mission
  return true

/-- Resolves a typed parameter from its marker; `false` if the report lacks what
this needs or the parameter has been looked for before. -/
def resolveTyped (index : Index) (result : Parse) (location : Location) :
    Step Sweep Bool := do
  let marker ← Step.ofMisfit location.range
  if result.text.slice marker.start marker.stop ≠ typeMarker then return false
  match site? index marker.start with
  | none => return false
  | some site =>
    if (← get).seen.contains site.parameter.whole then return false
    -- Seen from now on, also if no parameter follows the marker.
    modify fun sweep => { sweep with seen := site.parameter.whole :: sweep.seen }
    match site.body.children.find? fun child => marker.stop ≤ child.location.start.whole with
    | none => return false
    | some right => cutType site right.location.start

end Sweep

/-- Resolves a diagnostic; `false` if it is left alone. -/
def resolveDiagnostic (index : Index) (result : Parse) (diagnostic : Diagnostic) :
    Step Sweep Bool :=
  match diagnostic.extension? with
  | some .fieldParameter => Sweep.resolveField result diagnostic.location
  | some .typedParameter => Sweep.resolveTyped index result diagnostic.location
  | none => return false

/-- Resolves diagnostics in their order and counts those that were not left
alone. -/
def resolveDiagnostics (index : Index) (result : Parse) : List Diagnostic → Step Sweep Nat
  | [] => return 0
  | diagnostic :: rest => do
    let resolved ← resolveDiagnostic index result diagnostic
    let others ← resolveDiagnostics index result rest
    return if resolved then others + 1 else others

end SyntaxRepair
