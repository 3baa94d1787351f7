import SyntaxRepair.Text.CodePoint

/-!
# Texts and positions

A text is the list of its code points, and an offset counts code points.  Nearly all
of them are characters, and a string stands for the text of its characters.

Bounds are integers: a bound past either end is clamped, and a negative bound counts
from the end.  For a bound inside the text nothing of this shows, and
`Text.slice` and `Text.splice` are plain `take` and `drop`
(`slice_of_nat`, `splice_of_nat`).
-/

namespace SyntaxRepair

/-- A text is the list of its code points. -/
abbrev Text := List CodePoint

namespace Text

/-! ## Strings -/

/-- The text of the characters of a string. -/
def ofString (string : String) : Text := string.toList.map CodePoint.char

instance : Coe String Text := ⟨ofString⟩

@[simp] theorem ofString_append (first second : String) :
    ofString (first ++ second) = ofString first ++ ofString second := by
  simp [ofString]

/-- The string with the characters of a text, and U+FFFD in place of each half of a
surrogate pair. -/
def toStringLossy (text : Text) : String :=
  String.ofList (text.map fun
    | .char c => c
    | .half _ => '\uFFFD')

@[simp] theorem toStringLossy_ofString (string : String) :
    toStringLossy (ofString string) = string := by
  simp [toStringLossy, ofString, Function.comp_def]

/-! ## Positions -/

/-- The place that a bound denotes in a sequence of `length` items.  A negative
bound counts from the end and stops at the beginning. -/
def position (length : Nat) (bound : Int) : Nat :=
  if bound < 0 then (length + bound).toNat else bound.toNat

@[simp] theorem position_of_nat (length bound : Nat) : position length bound = bound := by
  simp [position, Int.not_lt.mpr (Int.natCast_nonneg bound)]

theorem position_of_nonneg (length : Nat) {bound : Int} (hbound : 0 ≤ bound) :
    position length bound = bound.toNat := by
  simp [position, Int.not_lt.mpr hbound]

/-- The part of a text from `start` up to `stop`; empty when they cross. -/
def slice (text : Text) (start stop : Int) : Text :=
  (text.take (position text.length stop)).drop (position text.length start)

@[simp] theorem slice_of_nat (text : Text) (start stop : Nat) :
    slice text start stop = (text.take stop).drop start := by
  simp [slice]

/-- The text with `inserted` between what stands before `start` and what stands
from `stop` on. -/
def splice (text : Text) (start stop : Int) (inserted : Text) : Text :=
  text.take (position text.length start) ++ inserted ++
    text.drop (position text.length stop)

@[simp] theorem splice_of_nat (text : Text) (start stop : Nat) (inserted : Text) :
    splice text start stop inserted = text.take start ++ inserted ++ text.drop stop := by
  simp [splice]

/-- The item at an index that may count from the end; `none` outside the list. -/
def pick? {α : Type} (items : List α) (index : Int) : Option α :=
  if 0 ≤ index then items[index.toNat]?
  else if 0 ≤ items.length + index then items[(items.length + index).toNat]?
  else none

/-- A run of `count` spaces, empty for a count that is not positive. -/
def spaces (count : Int) : Text := List.replicate count.toNat (.char ' ')

/-! ## Blanks -/

/-- The characters that separate words: the white space of Unicode and the four
information separators. -/
def isBlank (c : CodePoint) : Bool :=
  let code := c.toNat
  (9 ≤ code && code ≤ 13) || (28 ≤ code && code ≤ 32) || code = 0x85 || code = 0xA0 ||
    code = 0x1680 || (0x2000 ≤ code && code ≤ 0x200A) || code = 0x2028 || code = 0x2029 ||
    code = 0x202F || code = 0x205F || code = 0x3000

/-- The text without the blanks at its end. -/
def trimEnd (text : Text) : Text := (text.reverse.dropWhile isBlank).reverse

/-- The text without the blanks at its two ends. -/
def trim (text : Text) : Text := trimEnd (text.dropWhile isBlank)

/-- The maximal runs of characters that are not blank, in order. -/
def words : Text → List Text
  | [] => []
  | c :: rest =>
    if isBlank c then words rest
    else
      match rest with
      | [] => [[c]]
      | next :: _ =>
        if isBlank next then [c] :: words rest
        else
          match words rest with
          | [] => [[c]]
          | word :: others => (c :: word) :: others

/-- The texts one after another with `separator` between two of them. -/
def join (separator : Text) : List Text → Text
  | [] => []
  | [text] => text
  | text :: next :: rest => text ++ separator ++ join separator (next :: rest)

end Text

end SyntaxRepair
