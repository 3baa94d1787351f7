import SyntaxRepair.World

/-!
# Repairing with settings

Settings together with the parser that they choose: what it takes to repair a text
or a file.
-/

namespace SyntaxRepair

/-- Settings with the parser they choose. -/
structure Setup where
  settings : Settings
  parser : CommandParser
deriving Repr, DecidableEq

namespace Setup

variable {σ : Type}

/-- The setup for some settings. -/
def ofSettings (settings : Settings) : Except ParserRefusal Setup :=
  (CommandParser.ofChoice settings.parser settings.command settings.limit).map fun parser =>
    { settings, parser }

/-- The parse of a text as it is. -/
def parse (setup : Setup) (run : Runner σ) (text : Text) : Act σ Parse :=
  Act.ofStep (setup.parser.parse (Act.runCall run) text)

/-- The plain form of a text. -/
def repair (setup : Setup) (run : Runner σ) (text : Text) : Act σ Text :=
  Act.ofStep (Step.of fun world =>
    let parser := setup.parser.parse (Act.runCall run)
    let outcome :=
      (SyntaxRepair.repair parser setup.settings.options).start (Run.of text world)
    (outcome.1, outcome.2.parser))

/-- Writes the plain form of a file next to it, or to `out`; returns where. -/
def repairFile (setup : Setup) (run : Runner σ) (source : Path) (out : Option Path) :
    Act σ Path := do
  -- A source without a target is refused before it is read.
  let target ← Act.targetOf source out
  let text ← Act.readText source
  let plain ← setup.repair run text
  Act.writeText target plain
  return target

end Setup

end SyntaxRepair
