import SyntaxRepair.Text.Basic
import SyntaxRepair.Text.Printable

/-!
# Quoted texts

Messages show a text between quotes.  The quote is `'` unless the text holds
that quote and not the other one.  The quote in use and the backslash are
escaped, and what is not printable is written as an escape of two,
four or eight hexadecimal digits.
-/

namespace SyntaxRepair.Text

/-- The lower-case hexadecimal digits of `number`, the lowest `width` of them. -/
def hexDigits : Nat → Nat → Text
  | 0, _ => []
  | width + 1, number => hexDigits width (number / 16) ++ [.char (Nat.digitChar (number % 16))]

/-- The quote that surrounds a text. -/
def quoteFor (text : Text) : CodePoint :=
  if text.contains '\'' && !text.contains '"' then '"' else '\''

/-- How one code point is written between two `quote`s. -/
def quotePoint (quote c : CodePoint) : Text :=
  if c = quote || c = '\\' then ['\\', c]
  else if c = '\n' then ['\\', 'n']
  else if c = '\r' then ['\\', 'r']
  else if c = '\t' then ['\\', 't']
  else if isPrintable c then [c]
  else
    let code := c.toNat
    if code < 0x100 then '\\' :: 'x' :: hexDigits 2 code
    else if code < 0x10000 then '\\' :: 'u' :: hexDigits 4 code
    else '\\' :: 'U' :: hexDigits 8 code

/-- The text between quotes. -/
def quoted (text : Text) : Text :=
  let quote := quoteFor text
  quote :: (text.flatMap (quotePoint quote) ++ [quote])

end SyntaxRepair.Text
