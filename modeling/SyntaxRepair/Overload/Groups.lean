import SyntaxRepair.Mission.Queue

/-!
# Overload groups

The definitions of one name in one scope that take typed parameters.  Groups and
the definitions in a group stand in the order in which they were first met.
-/

namespace SyntaxRepair

/-- What tells overload groups apart: where the scope begins, and the name. -/
structure OverloadKey where
  scope : Int
  name : Text
deriving Repr, DecidableEq

/-- A definition of a group with the types cut out of its signature and the
missions that carry them. -/
structure Overload where
  /-- The number of the definition in its tree. -/
  definition : Nat
  types : List Text := []
  missions : List Mission := []
deriving Repr, DecidableEq

/-- The definitions of one name in one scope. -/
structure OverloadGroup where
  key : OverloadKey
  overloads : List Overload := []
deriving Repr, DecidableEq

/-- Adds a type with its mission to a definition. -/
def Overload.add (type : Text) (mission : Mission) (overload : Overload) : Overload :=
  { overload with
    types := overload.types ++ [type]
    missions := overload.missions ++ [mission] }

/-- Applies `change` to the first item that `isSought` accepts, or to `fresh` behind all
items if there is none. -/
def updateFirst {α : Type} (isSought : α → Bool) (fresh : α) (change : α → α) : List α → List α
  | [] => [change fresh]
  | item :: rest =>
    if isSought item then change item :: rest
    else item :: updateFirst isSought fresh change rest

/-- Adds a type to a definition of a group. -/
def OverloadGroup.add (definition : Nat) (type : Text) (mission : Mission)
    (group : OverloadGroup) : OverloadGroup :=
  { group with
    overloads :=
      updateFirst (fun overload => overload.definition = definition) { definition }
        (Overload.add type mission) group.overloads }

/-- The groups of a pass. -/
abbrev Groups := List OverloadGroup

/-- Adds a type to a definition of the group with a key. -/
def Groups.add (key : OverloadKey) (definition : Nat) (type : Text) (mission : Mission)
    (groups : Groups) : Groups :=
  updateFirst (fun group => group.key = key) { key }
    (OverloadGroup.add definition type mission) groups

end SyntaxRepair
