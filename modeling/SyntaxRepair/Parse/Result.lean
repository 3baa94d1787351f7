import SyntaxRepair.Text.Lines
import SyntaxRepair.Tree.Index

/-!
# What a parser reports

A best-effort tree of a text and the diagnostics found in it, and how a
diagnostic is shown to the author of the text: its line with an underline below.
-/

namespace SyntaxRepair

open Json (Number)

/-- One thing that is wrong with a text. -/
structure Diagnostic where
  kind : Text
  location : Location
  message : Text := []
deriving Repr, DecidableEq, Inhabited

/-- The tree and the diagnostics of a text. -/
structure Parse where
  text : Text
  tree : Node
  diagnostics : List Diagnostic := []

namespace Parse

/-- The part of the parsed text at a location. -/
def slice (result : Parse) (location : Location) : Except Misfit Text := do
  let range ← location.range
  return result.text.slice range.start range.stop

/-- The offset at which a line begins, lines counted from one; `none` if there is no
such line.  A line number that is not positive counts from the last line. -/
def lineStart? (result : Parse) (line : Number) : Except Misfit (Option Int) := do
  let index ← (← line.sub 1).index
  return (Text.pick? result.text.lineStarts index).map fun start => (start : Int)

end Parse

/-! ## Reports -/

/-- A diagnostic together with the line it stands in. -/
structure Report where
  line : Number
  /-- The line itself. -/
  shown : Text
  underline : Text
  message : Text
  kind : Text
deriving Repr, DecidableEq

/-- How many columns of a diagnostic are marked behind the first one. -/
def furtherColumns (location : Location) : Except Misfit Int := do
  let further ← (← location.length).sub 1
  -- Less than nothing is never counted to, so there even a float will do.
  if further.ltInt 0 then return 0
  further.count

/-- Marks the columns of a diagnostic, at least one of them. -/
def underline (location : Location) : Except Misfit Text := do
  let before ← location.column.count
  let further ← furtherColumns location
  return Text.spaces before ++ "^" ++ List.replicate further.toNat (CodePoint.char '~')

/-- A diagnostic of a text with its line. -/
def Diagnostic.report (text : Text) (diagnostic : Diagnostic) : Except Misfit Report := do
  let underline ← SyntaxRepair.underline diagnostic.location
  let shown ← text.lineNumbered diagnostic.location.line
  return {
    line := diagnostic.location.line
    shown
    underline
    message := diagnostic.message
    kind := diagnostic.kind }

/-- The reports of all diagnostics, in their order. -/
def Parse.reports (result : Parse) : Except Misfit (List Report) :=
  result.diagnostics.mapM (Diagnostic.report result.text)

/-- A report as it is displayed; the name of the file goes in front of it. -/
def Report.display (report : Report) : Text :=
  ":" ++ toString report.line ++ ":" ++ report.message ++ " (" ++ report.kind ++ ")\n" ++
    report.shown ++ "\n" ++ report.underline

end SyntaxRepair
