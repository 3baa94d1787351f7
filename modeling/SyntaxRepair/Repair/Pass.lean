import SyntaxRepair.Overload.Dispatcher
import SyntaxRepair.Repair.Extension

/-!
# One pass

A pass resolves the diagnostics of one parse.  The first pass also merges
overloaded definitions.  In the end the waiting missions move along with the edits
that the pass has made.
-/

namespace SyntaxRepair

/-- What a repair can be told. -/
structure Options where
  /-- The names under which overloaded definitions are renamed. -/
  names : NameTable := []
  /-- The greatest number of passes; without one a repair goes on as long as it
  makes progress. -/
  maxPasses : Option Int := none
deriving Repr, DecidableEq

/-- The greatest number of passes, if pass number `number` is one too many. -/
def Options.exceeded? (options : Options) (number : Nat) : Option Int :=
  options.maxPasses.filter fun limit => limit < number

/-- Resolves the diagnostics of a parse; returns how many were resolved and the
overload groups, which only the first pass collects. -/
def sweep (first : Bool) (result : Parse) : Step Workspace (Nat × Option Groups) :=
  Step.of fun workspace =>
    let begun : Sweep := { workspace with groups := if first then some [] else none }
    let outcome := (resolveDiagnostics result.tree.index result result.diagnostics).start begun
    (outcome.1.map fun resolved => (resolved, outcome.2.groups), outcome.2.toWorkspace)

/-- Makes pass number `number` over the diagnostics of a parse. -/
def makePass (options : Options) (number : Nat) (result : Parse) :
    Step Workspace Unit := do
  let (resolved, groups) ← sweep (number = 1) result
  match groups with
  | none => pure ()
  | some groups =>
    let _ ← mergeOverloads result.tree.index result options.names groups
  Workspace.relocate
  Workspace.note (.passEnds number resolved result.diagnostics.length)

end SyntaxRepair
