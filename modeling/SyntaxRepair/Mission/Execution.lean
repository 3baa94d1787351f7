import SyntaxRepair.Repair.Workspace

/-!
# Carrying out missions

Each mission adds one line at the beginning of a line of the clean text: an
assignment in front of the body of its definition, a type comment above its
definition.
-/

namespace SyntaxRepair

open Json (Number)

/-- A text that is added at an offset. -/
structure Insertion where
  offset : Number
  text : Text
deriving Repr, DecidableEq

/-- The line with some contents behind an indent. -/
def indentedLine (indent : Number) (contents : Text) : Except Misfit Text := do
  let indent ← indent.count
  return Text.spaces indent ++ contents ++ "\n"

/-- Where a line goes that stands above a place and as deep as it. -/
def levelPlace (place : Location) (contents : Text) : Except Misfit Insertion := do
  let offset ← place.start.sub place.column
  return ⟨offset, ← indentedLine place.column contents⟩

/-- Where a line goes that stands above a place and two columns deeper. -/
def deeperPlace (place : Location) (contents : Text) : Except Misfit Insertion := do
  let indent ← place.column.add 2
  let offset ← (← place.start.sub indent).add 2
  return ⟨offset, ← indentedLine indent contents⟩

/-- Where the statement of an assignment goes: above the body of the definition
and as deep as it, or above its end keyword and two columns deeper. -/
def assignmentPlace (definition : Label) (payload : Text) : Except Failure Insertion :=
  match definition.bodyLocation, definition.endLocation with
  | some body, _ => Failure.ofMisfit (levelPlace body payload)
  | none, some keyword => Failure.ofMisfit (deeperPlace keyword payload)
  | none, none => .error (.violation (.noBody definition.location.start))

/-- The comment that gives a parameter its type. -/
def typeCommentText (name type : Text) : Text := "# @rbs " ++ name ++ ": " ++ type

/-- Where lines go that belong above a definition, at the depth of the definition. -/
def abovePlace (result : Parse) (definition : Location)
    (contents : Number → Except Misfit Text) : Except Failure Insertion := do
  let start ← Failure.ofLookup (result.lineStart? definition.line)
  let depth ← Failure.ofMisfit (definition.start.sub start)
  return ⟨start, ← Failure.ofMisfit (contents depth)⟩

namespace Mission

/-- What a mission adds to the text of a clean parse, and where. -/
def insertion (mission : Mission) (index : Index) (result : Parse) :
    Except Failure Insertion :=
  match index.innermost mission.offset (some definitionKind) with
  | none => .error (.violation (.noDefinition mission.offset))
  | some definition =>
    match mission.purpose with
    | .assignment => assignmentPlace definition.label mission.payload
    | .typeComment =>
      -- The definition itself is the innermost node where no parameter is left.
      match (index.innermost mission.offset none).filter fun node => node.id ≠ definition.id with
      | none => .error (.violation (.noParameter mission.offset))
      | some parameter =>
        match parameter.label.name.getD [] with
        | [] => .error (.violation (.noParameter mission.offset))
        | name =>
          abovePlace result definition.location fun indent =>
            indentedLine indent (typeCommentText name mission.payload)

/-- Carries out a mission on the text of a clean parse. -/
def execute (mission : Mission) (index : Index) (result : Parse) :
    Step Workspace Unit := do
  let insertion ← Step.ofExcept (mission.insertion index result)
  Workspace.replaceAt insertion.offset 0 insertion.text

end Mission

/-- Carries out missions one after another; each is written into the journal first. -/
def executeEach (index : Index) (result : Parse) : List Mission → Step Workspace Unit
  | [] => pure ()
  | mission :: rest => do
    Workspace.note (.executes mission)
    mission.execute index result
    executeEach index result rest

/-- Carries out all waiting missions on the text of the clean parse `result`.  The
queue is empty afterwards, also if a mission fails. -/
def executeAll (result : Parse) : Step Workspace Unit := do
  Workspace.reset
  let queue := (← get).queue
  -- Emptied before the first mission, so that a failure leaves nothing behind.
  modify fun workspace => { workspace with queue := queue.cleared }
  executeEach result.tree.index result queue.missions

end SyntaxRepair
