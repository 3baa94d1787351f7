import SyntaxRepair.Text.Quoted

/-!
# Paths

A path is its root, if it has one, and its segments.  Writing it down again gives
the normal form: no empty segments, no single dots and no slash at the end.  Two
dots stay, because what they lead to depends on the files.
-/

namespace SyntaxRepair

/-- A path in normal form. -/
structure Path where
  /-- The number of slashes in front: none, one, or two, which some systems tell
  from one. -/
  slashes : Nat
  segments : List Text
deriving Repr, DecidableEq

namespace Path

/-- The parts of a text between slashes. -/
def splitSlashes : Text → List Text
  | [] => [[]]
  | c :: rest =>
    if c = '/' then [] :: splitSlashes rest
    else
      match splitSlashes rest with
      | [] => [[c]]
      | part :: others => (c :: part) :: others

/-- The path that a text denotes. -/
def ofText (text : Text) : Path where
  slashes :=
    match (text.takeWhile (· = CodePoint.char '/')).length with
    | 0 => 0
    | 2 => 2
    | _ => 1
  segments := (splitSlashes text).filter fun part => part ≠ [] ∧ part ≠ "."

/-- A path in writing; a path without segments is a dot. -/
def text (path : Path) : Text :=
  if path.slashes = 0 ∧ path.segments = [] then "."
  else List.replicate path.slashes (CodePoint.char '/') ++ Text.join "/" path.segments

/-- The last segment; empty for a path without segments. -/
def name (path : Path) : Text := path.segments.getLast?.getD []

/-- What follows the last dot of the name, with that dot, unless it is the first or
the last character of the name. -/
def suffix (path : Path) : Text :=
  let afterDot := (path.name.reverse.takeWhile (· ≠ CodePoint.char '.')).reverse
  let beforeDot := path.name.length - afterDot.length - 1
  if path.name.contains (.char '.') && afterDot ≠ [] && 0 < beforeDot then '.' :: afterDot else []

/-- The path with another last segment. -/
def withName (path : Path) (name : Text) : Path :=
  { path with segments := path.segments.dropLast ++ [name] }

/-! ## Sources and targets -/

/-- The suffix of a file in the extended language. -/
def extendedSuffix : Text := ".rbm"

/-- The suffix of a plain file. -/
def plainSuffix : Text := ".rb"

/-- Where the plain form of a file goes: next to it, with the suffix of a plain
file in place of the suffix of the extended language, or behind the name if the
name has another suffix.  A path without a name has no target. -/
def target? (path : Path) : Option Path :=
  if path.suffix = extendedSuffix then
    some (path.withName
      (path.name.take (path.name.length - extendedSuffix.length) ++ plainSuffix))
  else if path.name = [] then none
  else some (path.withName (path.name ++ plainSuffix))

end Path

end SyntaxRepair
