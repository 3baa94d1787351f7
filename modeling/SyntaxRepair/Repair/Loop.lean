import SyntaxRepair.Repair.Pass

/-!
# The repair loop

The text is parsed and its diagnostics are resolved until it parses cleanly.
Every pass must leave fewer diagnostics than the one before it, so the loop ends
whatever the parser answers: the number of diagnostics of the last parse bounds
the passes that are still to come.  The first parse only sets that number.

A parser is any function of the text and of a state of its own, so its answers may
depend on what it was asked before.
-/

namespace SyntaxRepair

/-- A parser with a state of its own. -/
abbrev Parser (σ : Type) := Text → Step σ Parse

/-- A repair under way: its workspace, the state of the parser and the texts that
were parsed so far. -/
structure Run (σ : Type) extends Workspace where
  parser : σ
  parsed : List Text := []

namespace Run

variable {σ α : Type}

/-- A step of the workspace. -/
def onWorkspace (step : Step Workspace α) : Step (Run σ) α :=
  Step.within Run.toWorkspace (fun workspace run => { run with toWorkspace := workspace }) step

/-- Parses the text as it is and begins a new coordinate space. -/
def parse (parser : Parser σ) : Step (Run σ) Parse := do
  let text := (← get).buffer.text
  modify fun run => { run with parsed := run.parsed ++ [text] }
  let result ← Step.within Run.parser (fun state run => { run with parser := state }) (parser text)
  -- From here on offsets are those of the parsed text.
  onWorkspace Workspace.reset
  return result

/-- Makes pass number `number` over a parse that is not clean, unless it is one
too many. -/
def pass (options : Options) (number : Nat) (result : Parse) : Step (Run σ) Unit := do
  match options.exceeded? number with
  | some limit =>
    onWorkspace (Workspace.note (.givesUp limit))
    throw result.givenUp
  | none => onWorkspace (makePass options number result)

/-- Parses the text for pass number `number` and writes that into the journal. -/
def openPass (parser : Parser σ) (number : Nat) : Step (Run σ) Parse := do
  let result ← parse parser
  let pending := (← get).queue.missions.length
  onWorkspace (Workspace.note (.passBegins number result.diagnostics.length pending))
  return result

/-- Goes on with pass number `number`, where the last parse had `previous`
diagnostics; a parse that has as many or more ends the repair after its pass. -/
def continueFrom (parser : Parser σ) (options : Options) (number previous : Nat) :
    Step (Run σ) Parse := do
  let result ← openPass parser number
  if result.diagnostics.isEmpty then return result
  -- A violation in the pass of a stalled parse is told instead of the stall.
  pass options number result
  if result.diagnostics.length < previous then
    continueFrom parser options (number + 1) result.diagnostics.length
  else throw result.givenUp
termination_by previous

end Run

/-- Repairs a text until it parses cleanly; returns the clean parse.  The missions
that were recorded wait in the queue, anchored in the clean text. -/
def untilClean {σ : Type} (parser : Parser σ) (options : Options) : Step (Run σ) Parse := do
  let result ← Run.openPass parser 1
  if result.diagnostics.isEmpty then return result
  Run.pass options 1 result
  Run.continueFrom parser options 2 result.diagnostics.length

/-- Repairs a text and carries out the missions on the clean parse; returns the text. -/
def repair {σ : Type} (parser : Parser σ) (options : Options) : Step (Run σ) Text := do
  let clean ← untilClean parser options
  Run.onWorkspace (executeAll clean)
  return (← get).buffer.text

/-- A repair of a text that has not begun. -/
def Run.of {σ : Type} (text : Text) (parser : σ) : Run σ := { buffer := { text }, parser }

end SyntaxRepair
