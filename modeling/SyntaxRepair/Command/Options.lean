import SyntaxRepair.Command.Arguments
import SyntaxRepair.Setup

/-!
# The options of the commands

The grammars of the two commands that read sources, their usage and help texts, and
the setup that their common options ask for.
-/

namespace SyntaxRepair.Command

/-- An option with one name and any value. -/
def valueOption (name : Text) : OptionSpec := ⟨[name], .value []⟩

/-- An option with one name that is given or not. -/
def flagOption (name : Text) : OptionSpec := ⟨[name], .flag⟩

/-- Shows the help text. -/
def helpOption : OptionSpec := ⟨["-h", "--help"], .help⟩

/-- Where the result goes. -/
def outOption : OptionSpec := valueOption "--out"

/-- Prints the results. -/
def stdoutOption : OptionSpec := flagOption "--stdout"

/-- Compares the results with the targets. -/
def checkOption : OptionSpec := flagOption "--check"

/-- Shows diagnostics as JSON. -/
def jsonOption : OptionSpec := flagOption "--json"

/-- The file with the settings. -/
def settingsOption : OptionSpec := valueOption "--config"

/-- The parser. -/
def parserOption : OptionSpec := ⟨["--oracle"], .value ["prism", "cmd"]⟩

/-- The command of the parser. -/
def commandOption : OptionSpec := valueOption "--cmd"

/-- Shows the journal while a repair works. -/
def verboseOption : OptionSpec := ⟨["-v", "--verbose"], .flag⟩

/-- The options that choose a setup. -/
def setupOptions : List OptionSpec := [settingsOption, parserOption, commandOption, verboseOption]

/-! ## The commands -/

/-- A command as its user sees it. -/
structure Manual where
  /-- The name in front of an error. -/
  name : String
  grammar : Grammar
  usage : String
  /-- What the help text says behind the usage. -/
  details : String

/-- The command that repairs sources. -/
def repairManual : Manual where
  name := "modkit transpile"
  grammar :=
    { options := [helpOption, outOption, stdoutOption, checkOption] ++ setupOptions
      operand := "paths"
      many := true }
  usage :=
    "usage: modkit transpile [-h] [--out OUT] [--stdout] [--check]\n" ++
    "                        [--config CONFIG] [--oracle \x7bprism,cmd\x7d] [--cmd CMD]\n" ++
    "                        [-v]\n" ++
    "                        paths [paths ...]\n"
  details :=
    "\npositional arguments:\n" ++
    "  paths                 Paths to .rbm sources\n" ++
    "\noptions:\n" ++
    "  -h, --help            show this help message and exit\n" ++
    "  --out OUT             Write the result to this file (single input only)\n" ++
    "  --stdout              Print results instead of writing files\n" ++
    "  --check               Exit 1 if a target is missing or differs\n" ++
    "  --config CONFIG       Path to a modkit JSON config file\n" ++
    "  --oracle \x7bprism,cmd\x7d  Parser oracle (default: prism)\n" ++
    "  --cmd CMD             Command for the cmd oracle\n" ++
    "  -v, --verbose         Log every correction pass\n"

/-- The command that shows what the parser reports. -/
def reportManual : Manual where
  name := "modkit parse"
  grammar :=
    { options := [helpOption, jsonOption] ++ setupOptions
      operand := "path"
      many := false }
  usage :=
    "usage: modkit parse [-h] [--json] [--config CONFIG] [--oracle \x7bprism,cmd\x7d]\n" ++
    "                    [--cmd CMD] [-v]\n" ++
    "                    path\n"
  details :=
    "\npositional arguments:\n" ++
    "  path                  Path to a .rbm source\n" ++
    "\noptions:\n" ++
    "  -h, --help            show this help message and exit\n" ++
    "  --json                Emit diagnostics as JSON\n" ++
    "  --config CONFIG       Path to a modkit JSON config file\n" ++
    "  --oracle \x7bprism,cmd\x7d  Parser oracle (default: prism)\n" ++
    "  --cmd CMD             Command for the cmd oracle\n" ++
    "  -v, --verbose         Log every correction pass\n"

/-- How a command ends. -/
abbrev ExitCode := Nat

variable {σ : Type}

/-- Reads the arguments of a command and goes on with them, or shows its help text, or
says what is wrong. -/
def withArguments (manual : Manual) (given : List Text) (act : Arguments → Act σ ExitCode) :
    Act σ ExitCode :=
  match manual.grammar.read given with
  | .ok arguments => act arguments
  | .error .help => do
    Act.print (manual.usage ++ manual.details)
    return 0
  | .error (.fault fault) => do
    Act.complain (manual.usage ++ manual.name ++ ": error: " ++ fault.message)
    return 2

/-- The settings that the options ask for: those in a file, or the default ones, with the
parser and its command overridden. -/
def settingsOf (arguments : Arguments) : Act σ Settings := do
  let settings ←
    match arguments.value? settingsOption with
    | some path => Act.readSettings (Path.ofText path)
    | none => pure {}
  let chosen := (arguments.value? parserOption).bind ParserChoice.ofName?
  let command := arguments.value? commandOption
  return { settings with
    parser := chosen.getD settings.parser
    command := command.orElse fun _ => settings.command }

/-- The setup that the options ask for. -/
def setupOf (arguments : Arguments) : Act σ Setup := do
  Act.orThrow Error.parser (Setup.ofSettings (← settingsOf arguments))

end SyntaxRepair.Command
