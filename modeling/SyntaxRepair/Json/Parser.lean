import SyntaxRepair.Json.Value

/-!
# Reading JSON

`parse` reads one value that fills a text.  A fault names what was expected and
where: the offset at which reading stopped, with its line and column.  Beyond the
standard, `NaN` and the infinities are numbers, and of several members with one
name the last value stands in the place of the first.  A text that is well formed
may still be refused, because a whole number in it is too long or because its
arrays and objects stand too deep inside one another.

Each reader returns what is left of its input with a proof that it is shorter,
which is why the readers end.
-/

namespace SyntaxRepair.Json

/-- What reading stopped at. -/
inductive Problem
  | noValue
  | noName
  | noColon
  | noComma
  | unterminated
  | control
  | badEscape
  | badCodePoint
  | extraData
  | byteOrderMark
deriving Repr, DecidableEq

/-- The wording of a problem. -/
def Problem.message : Problem → String
  | .noValue => "Expecting value"
  | .noName => "Expecting property name enclosed in double quotes"
  | .noColon => "Expecting ':' delimiter"
  | .noComma => "Expecting ',' delimiter"
  | .unterminated => "Unterminated string starting at"
  | .control => "Invalid control character at"
  | .badEscape => "Invalid \\escape"
  | .badCodePoint => "Invalid \\uXXXX escape"
  | .extraData => "Extra data"
  | .byteOrderMark => "Unexpected UTF-8 BOM (decode using utf-8-sig)"

/-- A problem and the number of characters that stand in front of it. -/
structure Fault where
  problem : Problem
  offset : Nat
deriving Repr, DecidableEq

/-- The wording of a fault in a text.  Lines and columns count from one, and a
column from the last newline. -/
def Fault.message (text : Text) (fault : Fault) : String :=
  let before := text.take fault.offset
  let line := before.count (.char '\n') + 1
  let column := (before.reverse.takeWhile (· ≠ CodePoint.char '\n')).length + 1
  fault.problem.message ++ ": line " ++ toString line ++ " column " ++ toString column ++
    " (char " ++ toString fault.offset ++ ")"

/-- Why a text is not read. -/
inductive Refusal
  /-- The text is not JSON. -/
  | malformed (fault : Fault)
  /-- A part of the text is beyond what is read. -/
  | misfit (cause : Misfit)
deriving Repr, DecidableEq

namespace Reader

/-- Why a reader stopped. -/
inductive Stop
  /-- At a problem; what was left from it on. -/
  | problem (problem : Problem) (left : Text)
  /-- At a number or a bracket that is not read. -/
  | misfit (cause : Misfit)

/-- What is left of `input` after something was read from its front. -/
abbrev Rest (input : Text) := { rest : Text // rest.length < input.length }

/-- The characters that may stand between any two tokens. -/
def isSpace (c : CodePoint) : Bool := c = ' ' || c = '\t' || c = '\n' || c = '\r'

/-- The input from its next token on. -/
def skip (input : Text) : Text := input.dropWhile isSpace

theorem length_skip_le (input : Text) : (skip input).length ≤ input.length :=
  (List.dropWhile_sublist _).length_le

/-! ## Numbers -/

/-- The number that a run of decimal digits denotes. -/
def digitsValue (digits : Text) : Nat :=
  digits.foldl (fun value digit => 10 * value + (digit.toNat - '0'.toNat)) 0

/-- The digits of a whole part, without a sign: a zero alone, or a run that does
not begin with one. -/
def wholeDigits? : Text → Option Text
  | .char '0' :: _ => some "0"
  | input =>
    let digits := input.takeWhile CodePoint.isDigit
    if digits.isEmpty then none else some digits

/-- The digits behind a point; none if no digit follows it. -/
def fractionDigits : Text → Text
  | .char '.' :: rest => rest.takeWhile CodePoint.isDigit
  | _ => []

/-- A power of ten with the characters it takes up; nothing if no digit follows
its mark. -/
def powerOfTen : Text → Int × Nat
  | mark :: rest =>
    if mark = 'e' || mark = 'E' then
      match rest with
      | .char '-' :: others =>
        let digits := others.takeWhile CodePoint.isDigit
        if digits.isEmpty then (0, 0) else (-(digitsValue digits : Int), digits.length + 2)
      | .char '+' :: others =>
        let digits := others.takeWhile CodePoint.isDigit
        if digits.isEmpty then (0, 0) else (digitsValue digits, digits.length + 2)
      | others =>
        let digits := others.takeWhile CodePoint.isDigit
        if digits.isEmpty then (0, 0) else (digitsValue digits, digits.length + 1)
    else (0, 0)
  | [] => (0, 0)

/-- A number at the front of an input. -/
structure Numeral where
  /-- Its value, unless it has too many digits. -/
  value : Except Misfit Number
  /-- How many characters it takes up. -/
  length : Nat

/-- The value of the digits of a whole number.  There is a limit to how many are
read; behind a point or with an exponent there is none. -/
def wholeNumber (negative : Bool) (digits : Text) : Except Misfit Number :=
  if digitLimit < digits.length then .error (.longNumber digits.length)
  else
    let magnitude : Int := digitsValue digits
    .ok (.int (if negative then -magnitude else magnitude))

/-- The number at the front of an input behind its sign. -/
def unsigned? (negative : Bool) (input : Text) : Option Numeral :=
  match wholeDigits? input with
  | none => none
  | some whole =>
    let behindWhole := input.drop whole.length
    let fraction := fractionDigits behindWhole
    let fractionLength := if fraction.isEmpty then 0 else fraction.length + 1
    let power := powerOfTen (behindWhole.drop fractionLength)
    let value :=
      if fractionLength = 0 ∧ power.2 = 0 then wholeNumber negative whole
      else
        .ok (.float (Binary64.ofDecimal negative (digitsValue (whole ++ fraction))
          (power.1 - fraction.length)))
    some ⟨value, whole.length + fractionLength + power.2⟩

/-- The number at the front of an input. -/
def number? : Text → Option Numeral
  | .char '-' :: rest => (unsigned? true rest).map fun found => ⟨found.value, found.length + 1⟩
  | input => unsigned? false input

/-! ## Words -/

/-- The values that are written as a word. -/
def wordValues : List (Text × Value) :=
  [("null", .null), ("true", .bool true), ("false", .bool false),
    ("NaN", .number (.float .notNumber)),
    ("Infinity", .number (.float (.infinite false))),
    ("-Infinity", .number (.float (.infinite true)))]

/-- The word at the front of an input: its value and its length. -/
def word? (input : Text) : Option (Value × Nat) :=
  (wordValues.find? fun word => word.1.isPrefixOf input).map fun word =>
    (word.2, word.1.length)

/-! ## Strings -/

/-- The character that a one-letter escape stands for. -/
def escaped? : CodePoint → Option CodePoint
  | .char '"' => some '"'
  | .char '\\' => some '\\'
  | .char '/' => some '/'
  | .char 'b' => some '\x08'
  | .char 'f' => some '\x0c'
  | .char 'n' => some '\n'
  | .char 'r' => some '\r'
  | .char 't' => some '\t'
  | _ => none

/-- The value of a hexadecimal digit. -/
def hexDigit? : CodePoint → Option Nat
  | .char c =>
    if '0' ≤ c ∧ c ≤ '9' then some (c.toNat - '0'.toNat)
    else if 'a' ≤ c ∧ c ≤ 'f' then some (c.toNat - 'a'.toNat + 10)
    else if 'A' ≤ c ∧ c ≤ 'F' then some (c.toNat - 'A'.toNat + 10)
    else none
  | .half _ => none

/-- The number that four hexadecimal digits at the front of an input denote.  A
further character must stand behind them. -/
def codeUnit? : Text → Option Nat
  | a :: b :: c :: d :: _ :: _ => do
    let first ← hexDigit? a
    let second ← hexDigit? b
    let third ← hexDigit? c
    let fourth ← hexDigit? d
    some (((first * 16 + second) * 16 + third) * 16 + fourth)
  | _ => none

/-- The code point that an escape by number stands for, where `input` begins behind
its `u`, and how many characters the escape takes up from there.  Two units may
form one pair, and half of a pair may stand alone. -/
def numberedEscape (input : Text) : Except Stop (CodePoint × Nat) :=
  match codeUnit? input with
  | none => .error (.problem .badCodePoint ('u' :: input))
  | some unit =>
    match input.drop 4 with
    | .char '\\' :: .char 'u' :: rest =>
      if CodePoint.isHighSurrogate unit && !(rest.drop 4).isEmpty then
        -- A second escape that follows a first half must be readable, even if it
        -- turns out to be no second half.
        match codeUnit? rest with
        | none => .error (.problem .badCodePoint ('u' :: rest))
        | some second =>
          if CodePoint.isLowSurrogate second then .ok (.ofPair unit second, 10)
          else .ok (.ofUnit unit, 4)
      else .ok (.ofUnit unit, 4)
    | _ => .ok (.ofUnit unit, 4)

theorem shorter_cons {c : CodePoint} {rest others : Text} (h : others.length < rest.length) :
    others.length < (c :: rest).length := Nat.lt_succ_of_lt h

theorem shorter_escape {c letter : CodePoint} {rest others : Text}
    (h : others.length < rest.length) : others.length < (c :: letter :: rest).length :=
  shorter_cons (shorter_cons h)

theorem shorter_numbered {c : CodePoint} {digits others : Text} {length : Nat}
    (h : others.length < (digits.drop length).length) :
    others.length < (c :: .char 'u' :: digits).length :=
  shorter_escape (Nat.lt_of_lt_of_le h (List.drop_sublist length digits).length_le)

/-- The text of a string up to its closing quote, where `opening` is what was left
from the opening quote on. -/
def string (opening input : Text) : Except Stop (Text × Rest input) :=
  match input with
  | [] => .error (.problem .unterminated opening)
  | c :: rest =>
    if c = '"' then .ok ([], ⟨rest, by simp⟩)
    else if c = '\\' then
      match rest with
      | [] => .error (.problem .unterminated opening)
      | .char 'u' :: digits =>
        match numberedEscape digits with
        | .error stop => .error stop
        | .ok (decoded, length) =>
          match string opening (digits.drop length) with
          | .error stop => .error stop
          | .ok (text, ⟨others, hothers⟩) =>
            .ok (decoded :: text, ⟨others, shorter_numbered hothers⟩)
      | letter :: behind =>
        match escaped? letter with
        | none => .error (.problem .badEscape input)
        | some decoded =>
          match string opening behind with
          | .error stop => .error stop
          | .ok (text, ⟨others, hothers⟩) =>
            .ok (decoded :: text, ⟨others, shorter_escape hothers⟩)
    else if c.toNat < 0x20 then .error (.problem .control input)
    else
      match string opening rest with
      | .error stop => .error stop
      | .ok (text, ⟨others, hothers⟩) => .ok (c :: text, ⟨others, shorter_cons hothers⟩)
termination_by input.length
decreasing_by all_goals grind

/-! ## Values -/

/-- Of several members with one name the last value stands in the place of the
first. -/
def keepLast (members : List (Text × Value)) : List (Text × Value) :=
  members.foldl
    (fun kept member =>
      if kept.any (·.1 = member.1) then
        kept.map fun old => if old.1 = member.1 then member else old
      else kept ++ [member])
    []

mutual

/-- Reads a value from the front of an input, where `room` is how many brackets may
stand inside one another. -/
def value (room : Nat) (input : Text) : Except Stop (Value × Rest input) :=
  match input with
  | [] => .error (.problem .noValue [])
  | c :: rest =>
    if c = '"' then
      match string input rest with
      | .error stop => .error stop
      | .ok (text, ⟨others, hothers⟩) =>
        .ok (.string text, ⟨others, shorter_cons hothers⟩)
    else if c = '[' then
      match room with
      | 0 => .error (.misfit .deepArray)
      | room + 1 =>
        have hskip := length_skip_le rest
        match hrest : skip rest with
        | .char ']' :: others => .ok (.array [], ⟨others, by grind⟩)
        | items =>
          match elements room items with
          | .error stop => .error stop
          | .ok (found, ⟨others, hothers⟩) => .ok (.array found, ⟨others, by grind⟩)
    else if c = '\x7b' then
      match room with
      | 0 => .error (.misfit .deepObject)
      | room + 1 =>
        have hskip := length_skip_le rest
        match hrest : skip rest with
        | .char '\x7d' :: others => .ok (.object [], ⟨others, by grind⟩)
        | items =>
          match members room items with
          | .error stop => .error stop
          | .ok (found, ⟨others, hothers⟩) =>
            .ok (.object (keepLast found), ⟨others, by grind⟩)
    else
      -- Words come first: the negative infinity begins as a number does.
      match word? (c :: rest) with
      | some (found, length) => .ok (found, ⟨rest.drop (length - 1), by grind⟩)
      | none =>
        match number? (c :: rest) with
        | some ⟨.ok found, length⟩ => .ok (.number found, ⟨rest.drop (length - 1), by grind⟩)
        | some ⟨.error cause, _⟩ => .error (.misfit cause)
        | none => .error (.problem .noValue input)
termination_by (input.length, 0)
decreasing_by all_goals grind

/-- Reads the items of an array, at least one, and its closing bracket. -/
def elements (room : Nat) (input : Text) : Except Stop (List Value × Rest input) :=
  match value room input with
  | .error stop => .error stop
  | .ok (first, ⟨behind, hbehind⟩) =>
    have hskip := length_skip_le behind
    match hrest : skip behind with
    | .char ']' :: others => .ok ([first], ⟨others, by grind⟩)
    | .char ',' :: next =>
      have hnext := length_skip_le next
      match elements room (skip next) with
      | .error stop => .error stop
      | .ok (more, ⟨others, hothers⟩) => .ok (first :: more, ⟨others, by grind⟩)
    | others => .error (.problem .noComma others)
termination_by (input.length, 1)
decreasing_by all_goals grind

/-- Reads the members of an object, at least one, and its closing brace. -/
def members (room : Nat) (input : Text) : Except Stop (List (Text × Value) × Rest input) :=
  match input with
  | .char '"' :: rest =>
    match string input rest with
    | .error stop => .error stop
    | .ok (name, ⟨behindName, hname⟩) =>
      have hcolon := length_skip_le behindName
      match hmark : skip behindName with
      | .char ':' :: afterColon =>
        have hafter := length_skip_le afterColon
        match value room (skip afterColon) with
        | .error stop => .error stop
        | .ok (first, ⟨behind, hbehind⟩) =>
          have hskip := length_skip_le behind
          match hrest : skip behind with
          | .char '\x7d' :: others => .ok ([(name, first)], ⟨others, by grind⟩)
          | .char ',' :: next =>
            have hnext := length_skip_le next
            match members room (skip next) with
            | .error stop => .error stop
            | .ok (more, ⟨others, hothers⟩) =>
              .ok ((name, first) :: more, ⟨others, by grind⟩)
          | others => .error (.problem .noComma others)
      | others => .error (.problem .noColon others)
  | others => .error (.problem .noName others)
termination_by (input.length, 1)
decreasing_by all_goals grind

end

end Reader

/-- The value that fills a text, with at most `room` brackets inside one another. -/
def parseWithin (room : Nat) (text : Text) : Except Refusal Value :=
  if text.head? = some (.char '\uFEFF') then .error (.malformed ⟨.byteOrderMark, 0⟩)
  else
    match Reader.value room (Reader.skip text) with
    | .error (.misfit cause) => .error (.misfit cause)
    | .error (.problem problem left) =>
      .error (.malformed ⟨problem, text.length - left.length⟩)
    | .ok (value, ⟨rest, _⟩) =>
      let left := Reader.skip rest
      if left.isEmpty then .ok value
      else .error (.malformed ⟨.extraData, text.length - left.length⟩)

/-- How many brackets of a document may stand inside one another. -/
def depthLimit : Nat := 990

/-- The value that fills a text. -/
def parse (text : Text) : Except Refusal Value := parseWithin depthLimit text

end SyntaxRepair.Json
