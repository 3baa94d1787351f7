import SyntaxRepair.Text.Basic

/-!
# Lines

Two views of the lines of a text.

* Locations count lines at `'\n'` alone: `Text.lines`, with `Text.lineStarts`
  and `Text.lineEnds` for the offsets at which each line begins and ends.
* Indenting works on the pieces that end after any line break of Unicode
  (`Text.pieces`), because what it indents is written by people.
-/

namespace SyntaxRepair.Text

/-! ## Lines that end at a newline -/

/-- The offsets of the newlines of a text whose first character stands at
`offset`. -/
def newlinesFrom (offset : Nat) : Text → List Nat
  | [] => []
  | c :: rest =>
    if c = '\n' then offset :: newlinesFrom (offset + 1) rest
    else newlinesFrom (offset + 1) rest

/-- The offsets at which the lines begin. -/
def lineStarts (text : Text) : List Nat := 0 :: (newlinesFrom 0 text).map (· + 1)

/-- The offsets at which the lines end: their newlines, and the end of the text
for the last one. -/
def lineEnds (text : Text) : List Nat := newlinesFrom 0 text ++ [text.length]

/-- The lines without their newlines.  There is always a last line, which may be
empty. -/
def lines : Text → List Text
  | [] => [[]]
  | c :: rest =>
    if c = '\n' then [] :: lines rest
    else
      match lines rest with
      | [] => [[c]]
      | line :: others => (c :: line) :: others

/-- Line number `line`, counted from one; empty when there is no such line. -/
def lineAt (text : Text) (line : Int) : Text :=
  if line < 1 then [] else ((lines text)[(line - 1).toNat]?).getD []

/-! ## Pieces that end after any line break -/

/-- The characters that end a line in running text. -/
def isLineBreak (c : CodePoint) : Bool :=
  let code := c.toNat
  (10 ≤ code && code ≤ 13) || (28 ≤ code && code ≤ 30) || code = 0x85 || code = 0x2028 ||
    code = 0x2029

/-- The text cut after each line break; a carriage return and the newline behind
it are one break. -/
def pieces : Text → List Text
  | [] => []
  | .char '\r' :: .char '\n' :: rest => ['\r', '\n'] :: pieces rest
  | c :: rest =>
    if isLineBreak c then [c] :: pieces rest
    else
      match pieces rest with
      | [] => [[c]]
      | piece :: others => (c :: piece) :: others

/-- Puts `indent` spaces in front of every piece that holds more than newlines. -/
def indent (text : Text) (indent : Int) : Text :=
  if indent ≤ 0 then text
  else
    (pieces text).flatMap fun piece =>
      if piece.all (· = '\n') then piece else spaces indent ++ piece

/-! ## One kind of line end -/

/-- Every carriage return, with the newline behind it if there is one, becomes a
newline. -/
def unifyNewlines : Text → Text
  | [] => []
  | .char '\r' :: .char '\n' :: rest => '\n' :: unifyNewlines rest
  | c :: rest => (if c = '\r' then .char '\n' else c) :: unifyNewlines rest

end SyntaxRepair.Text
