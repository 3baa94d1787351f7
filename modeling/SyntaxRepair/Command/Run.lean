import SyntaxRepair.Command.RepairSources
import SyntaxRepair.Command.ShowReport

/-!
# The command line

The first argument names a command; the others belong to it.
-/

namespace SyntaxRepair.Command

variable {σ : Type}

/-- The text that lists the commands. -/
def overview : String :=
  "modkit CLI\n\n" ++
  "Usage:\n" ++
  "  modkit <command> [args...]\n\n" ++
  "Commands:\n" ++
  "  transpile     Rewrite .rbm sources into plain Ruby\n" ++
  "  parse         Show parser diagnostics for a source\n" ++
  "  version       Show current version\n"

/-- The version of the program. -/
def version : String := "0.1.0"

/-- The arguments that ask for the list of commands. -/
def helpNames : List Text := ["-h", "--help", "help"]

/-- The arguments that ask for the version. -/
def versionNames : List Text := ["version", "--version", "-V"]

/-- Runs the command that the arguments name. -/
def run (runner : Runner σ) : List Text → Act σ ExitCode
  | [] => do
    Act.print overview
    return 0
  | name :: rest => do
    if helpNames.contains name then
      Act.print overview
      return 0
    else if versionNames.contains name then
      Act.print (version ++ "\n")
      return 0
    else if name = "transpile" then repairSources runner rest
    else if name = "parse" then showReport runner rest
    else
      Act.complain ("Unknown command: " ++ name ++ "\n")
      Act.warn overview
      return 2

end SyntaxRepair.Command
