import SyntaxRepair.Mission.Execution
import SyntaxRepair.Overload.Groups

/-!
# Dispatchers

Ruby keeps only the last of several definitions with one name.  The definitions of
a group are therefore renamed, and a method with their common name is added above
the first of them, which hands its arguments on.  A group of a circle's and a
square's area gives

    # @rbs (Circle) -> untyped
    #    | (Square) -> untyped
    def area(*args)
      case args
      in [Circle]
        area__overload0(*args)
      in [Square]
        area__overload1(*args)
      end
    end

Definitions are tried in the order of the group.  The comment of the dispatcher
holds their types, so their own type comments are dropped.
-/

namespace SyntaxRepair

/-- The names under which overloaded methods are renamed where their own names
will not do, such as operators. -/
abbrev NameTable := List (Text × Text)

/-- The name under which the definitions of `name` are renamed. -/
def NameTable.stem (table : NameTable) (name : Text) : Text := (table.lookup name).getD name

/-- The new name of definition number `ordinal` of `name`. -/
def NameTable.rename (table : NameTable) (name : Text) (ordinal : Int) : Text :=
  table.stem name ++ "__overload" ++ toString ordinal

/-! ## The text of a dispatcher -/

/-- The types of a definition as a list. -/
def typeList (types : List Text) : Text := Text.join ", " types

/-- A line of the signature comment. -/
def signatureLine (ordinal : Nat) (types : List Text) : Text :=
  (if ordinal = 0 then "# @rbs" else "#    |") ++ " (" ++ typeList types ++ ") -> untyped\n"

/-- The clause that calls a definition. -/
def clause (table : NameTable) (name : Text) (ordinal : Nat) (types : List Text) : Text :=
  "  in [" ++ typeList types ++ "]\n    " ++ table.rename name ordinal ++ "(*args)\n"

/-- The comment and the definition of a dispatcher, with an empty line behind
it. -/
def dispatcherText (table : NameTable) (name : Text) (overloads : List (List Text)) : Text :=
  (overloads.mapIdx signatureLine).flatten ++
    "def " ++ name ++ "(*args)\n  case args\n" ++
    (overloads.mapIdx (clause table name)).flatten ++ "  end\nend\n\n"

/-! ## Merging -/

/-- Renames definition number `ordinal` of a group and drops its
type comments. -/
def renameOverload (index : Index) (table : NameTable) (name : Text) (ordinal : Nat)
    (overload : Overload) : Step Workspace Unit := do
  let definition ← Step.ofExcept (Failure.ofLookup (index.node? overload.definition))
  let location ←
    Step.orFail (.violation (.noNameLocation name)) definition.label.nameLocation
  let length ← Step.ofMisfit location.length
  Workspace.replaceAt location.start length (table.rename name ordinal)
  Workspace.removeMissions overload.missions

/-- Renames the definitions of a group, numbered from `ordinal` on. -/
def renameEach (index : Index) (table : NameTable) (name : Text) :
    Nat → List Overload → Step Workspace Unit
  | _, [] => pure ()
  | ordinal, overload :: rest => do
    renameOverload index table name ordinal overload
    renameEach index table name (ordinal + 1) rest

/-- Adds the dispatcher of a group above its first definition. -/
def addDispatcher (index : Index) (result : Parse) (table : NameTable) (name : Text)
    (first : Nat) (overloads : List Overload) : Step Workspace Unit := do
  let definition ← Step.ofExcept (Failure.ofLookup (index.node? first))
  let text := dispatcherText table name (overloads.map (·.types))
  let insertion ← Step.ofExcept (abovePlace result definition.location text.indentBy)
  Workspace.replaceAt insertion.offset 0 insertion.text
  Workspace.note (.dispatches name overloads.length)

/-- Merges a group with several definitions into one dispatcher and tells whether
it did. -/
def mergeGroup (index : Index) (result : Parse) (table : NameTable)
    (group : OverloadGroup) : Step Workspace Bool := do
  match group.overloads with
  | first :: _ :: _ =>
    renameEach index table group.key.name 0 group.overloads
    addDispatcher index result table group.key.name first.definition group.overloads
    return true
  | _ => return false

/-- Merges every group with several definitions; returns the number of
dispatchers. -/
def mergeOverloads (index : Index) (result : Parse) (table : NameTable) :
    Groups → Step Workspace Nat
  | [] => return 0
  | group :: rest => do
    let merged ← mergeGroup index result table group
    let others ← mergeOverloads index result table rest
    return if merged then others + 1 else others

end SyntaxRepair
