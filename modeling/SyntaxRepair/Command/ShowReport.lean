import SyntaxRepair.Command.Options
import SyntaxRepair.Json.Printer

/-!
# Showing what the parser reports

`showReport` parses one source as it is and shows every diagnostic, resolved or not,
as text or as JSON.  It ends with 0 if there are none, with 2 if there are some and
with 3 if there is no report.
-/

namespace SyntaxRepair.Command

open Json (Value)

variable {σ : Type}

/-- A diagnostic as a JSON object. -/
def diagnosticValue (diagnostic : Diagnostic) : Except Misfit Value := do
  return .object [("kind", .string diagnostic.kind),
    ("recognized", .bool diagnostic.extension?.isSome),
    ("start", .number diagnostic.location.start),
    ("length", .number (← diagnostic.location.length)),
    ("line", .number diagnostic.location.line),
    ("column", .number diagnostic.location.column),
    ("message", .string diagnostic.message)]

/-- The diagnostics of a source as JSON or as text. -/
def showDiagnostics (asJson : Bool) (source : Path) (result : Parse) : Except Misfit Text := do
  if asJson then
    return (Value.array (← result.diagnostics.mapM diagnosticValue)).pretty ++ "\n"
  else
    return (← result.reports).flatMap fun report =>
      source.name ++ report.display ++ "\n"

/-- The command that shows what the parser reports. -/
def showReport (run : Runner σ) (given : List Text) : Act σ ExitCode :=
  withArguments reportManual given fun arguments => do
    let argument := arguments.operands.headD []
    let source := Path.ofText argument
    -- One computation, so that the settings, the file and the parser fail alike.
    let report : Act σ Parse := do
      let setup ← setupOf arguments
      setup.parse run (← Act.readText source)
    match ← Act.attempt report with
    | .error error =>
      if error.isSystem then
        Act.complain ("Failed to read " ++ argument ++ ": " ++ error.message)
        return 3
      else if error.isSettings || error.isParser || error.isValue then
        Act.complain ("error: " ++ error.message)
        return 3
      else throw error
    | .ok result =>
      -- Nothing is printed unless everything can be shown.
      Act.print (← Act.orThrow (Error.failure ∘ Failure.misfit)
        (showDiagnostics (arguments.has jsonOption) source result))
      return if result.diagnostics.isEmpty then 0 else 2

end SyntaxRepair.Command
