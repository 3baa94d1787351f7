import SyntaxRepair.Text.Quoted

/-!
# UTF-8

Reading octets as text, strictly (`Utf8.decode`) or with U+FFFD for each
sequence that is not well formed (`Utf8.decodeLossy`), and writing text as octets
(`Utf8.encode`), which halves of surrogate pairs do not have.

A first octet decides how many octets follow it and the range of the first of
them, so a bad sequence is cut at the first octet that rules it out: what is bad
is the longest part that some well-formed sequence begins with, or one octet
that begins none.
-/

namespace SyntaxRepair.Utf8

/-- Octets as they are stored in a file or sent by a process. -/
abbrev Octets := List UInt8

/-- Why a sequence of octets is not well formed. -/
inductive Reason
  | invalidStart
  | invalidContinuation
  | unexpectedEnd
deriving Repr, DecidableEq

/-- The wording of a reason. -/
def Reason.message : Reason → String
  | .invalidStart => "invalid start byte"
  | .invalidContinuation => "invalid continuation byte"
  | .unexpectedEnd => "unexpected end of data"

/-- Where decoding stopped: the place of the bad sequence, its octets and the
reason. -/
structure Fault where
  /-- The number of octets in front of the bad sequence. -/
  position : Nat
  /-- The first octet of the bad sequence. -/
  first : UInt8
  /-- The number of octets of the bad sequence. -/
  length : Nat
  reason : Reason
deriving Repr, DecidableEq

private def hexPair (octet : UInt8) : String :=
  String.ofList [Nat.digitChar (octet.toNat / 16), Nat.digitChar (octet.toNat % 16)]

/-- The wording of a fault: one octet is shown, several are counted. -/
def Fault.message (fault : Fault) : String :=
  let place :=
    if fault.length = 1 then
      "byte 0x" ++ hexPair fault.first ++ " in position " ++ toString fault.position
    else
      "bytes in position " ++ toString fault.position ++ "-" ++
        toString (fault.position + fault.length - 1)
  "'utf-8' codec can't decode " ++ place ++ ": " ++ fault.reason.message

/-! ## What a first octet asks for -/

/-- What must follow a first octet. -/
structure Lead where
  /-- The bits that the first octet contributes. -/
  bits : Nat
  /-- The least octet that may come second. -/
  low : Nat
  /-- The greatest octet that may come second. -/
  high : Nat
  /-- How many octets follow the second one. -/
  more : Nat
deriving Repr, DecidableEq

/-- What must follow the first octet of a sequence of at least two; `none` for an
octet that begins no such sequence.  The narrower ranges keep out overlong forms,
surrogates and code points past U+10FFFF. -/
def lead? (first : UInt8) : Option Lead :=
  let octet := first.toNat
  if octet < 0xC2 then none
  else if octet < 0xE0 then some ⟨octet - 0xC0, 0x80, 0xBF, 0⟩
  else if octet = 0xE0 then some ⟨0, 0xA0, 0xBF, 1⟩
  else if octet = 0xED then some ⟨0xD, 0x80, 0x9F, 1⟩
  else if octet < 0xF0 then some ⟨octet - 0xE0, 0x80, 0xBF, 1⟩
  else if octet = 0xF0 then some ⟨0, 0x90, 0xBF, 2⟩
  else if octet < 0xF4 then some ⟨octet - 0xF0, 0x80, 0xBF, 2⟩
  else if octet = 0xF4 then some ⟨4, 0x80, 0x8F, 2⟩
  else none

/-! ## One sequence -/

/-- The outcome of reading one sequence from the front of some octets. -/
inductive Reading
  | char (c : Char) (length : Nat)
  | bad (length : Nat) (reason : Reason)
deriving Repr, DecidableEq

/-- Reads the `more` octets that are still due, of a sequence that has `length`
octets and stands for `bits` so far. -/
def readMore (bits length : Nat) : Nat → Octets → Reading
  | 0, _ => .char (Char.ofNat bits) length
  | _ + 1, [] => .bad length .unexpectedEnd
  | more + 1, octet :: rest =>
    if 0x80 ≤ octet.toNat && octet.toNat ≤ 0xBF then
      readMore (bits * 64 + (octet.toNat - 0x80)) (length + 1) more rest
    else .bad length .invalidContinuation

/-- Reads the sequence that begins with `first` and goes on in `rest`. -/
def readSequence (first : UInt8) (rest : Octets) : Reading :=
  if first.toNat < 0x80 then .char (Char.ofNat first.toNat) 1
  else
    match lead? first with
    | none => .bad 1 .invalidStart
    | some lead =>
      match rest with
      | [] => .bad 1 .unexpectedEnd
      | second :: others =>
        if lead.low ≤ second.toNat && second.toNat ≤ lead.high then
          readMore (lead.bits * 64 + (second.toNat - 0x80)) 2 lead.more others
        else .bad 1 .invalidContinuation

/-! ## Whole texts -/

/-- Reads octets as text from `position` on; the first bad sequence is a fault. -/
def decodeFrom (position : Nat) : Octets → Except Fault Text
  | [] => .ok []
  | first :: rest =>
    match readSequence first rest with
    | .char c length =>
      match decodeFrom (position + length) (rest.drop (length - 1)) with
      | .ok text => .ok (.char c :: text)
      | .error fault => .error fault
    | .bad length reason => .error ⟨position, first, length, reason⟩
termination_by octets => octets.length
decreasing_by simp only [List.length_drop, List.length_cons]; omega

/-- Reads octets as text; the first bad sequence is a fault. -/
def decode (octets : Octets) : Except Fault Text := decodeFrom 0 octets

/-- Reads octets as text, with U+FFFD in place of each bad sequence. -/
def decodeLossy : Octets → Text
  | [] => []
  | first :: rest =>
    match readSequence first rest with
    | .char c length => .char c :: decodeLossy (rest.drop (length - 1))
    | .bad length _ => '\uFFFD' :: decodeLossy (rest.drop (length - 1))
termination_by octets => octets.length
decreasing_by all_goals simp only [List.length_drop, List.length_cons]; omega

/-- The octets of one character. -/
def encodeChar (c : Char) : Octets :=
  let code := c.toNat
  if code < 0x80 then [code.toUInt8]
  else if code < 0x800 then [(0xC0 + code / 0x40).toUInt8, (0x80 + code % 0x40).toUInt8]
  else if code < 0x10000 then
    [(0xE0 + code / 0x1000).toUInt8, (0x80 + code / 0x40 % 0x40).toUInt8,
      (0x80 + code % 0x40).toUInt8]
  else
    [(0xF0 + code / 0x40000).toUInt8, (0x80 + code / 0x1000 % 0x40).toUInt8,
      (0x80 + code / 0x40 % 0x40).toUInt8, (0x80 + code % 0x40).toUInt8]

/-- Halves of surrogate pairs in a row, which have no octets. -/
structure Unencodable where
  /-- The number of code points in front of them. -/
  position : Nat
  /-- The number of the first of them as a code point. -/
  first : Nat
  /-- How many they are. -/
  length : Nat
deriving Repr, DecidableEq

/-- The wording of a fault: one half is shown, several are counted. -/
def Unencodable.message (fault : Unencodable) : Text :=
  let place : Text :=
    if fault.length = 1 then
      "character '\\u" ++ Text.hexDigits 4 fault.first ++ "' in position " ++
        toString fault.position
    else
      "characters in position " ++ toString fault.position ++ "-" ++
        toString (fault.position + fault.length - 1)
  "'utf-8' codec can't encode " ++ place ++ ": surrogates not allowed"

/-- The octets of a text that stands behind `position` code points. -/
def encodeFrom (position : Nat) : Text → Except Unencodable Octets
  | [] => .ok []
  | .char c :: rest =>
    match encodeFrom (position + 1) rest with
    | .ok octets => .ok (encodeChar c ++ octets)
    | .error fault => .error fault
  | .half place :: rest =>
    .error
      { position
        first := (CodePoint.half place).toNat
        length := (rest.takeWhile CodePoint.isHalf).length + 1 }

/-- The octets of a text; the first halves of surrogate pairs in it are a fault. -/
def encode (text : Text) : Except Unencodable Octets := encodeFrom 0 text

/-- How many octets a text takes up, where a half counts as three. -/
def octetCount (text : Text) : Nat :=
  text.foldl (fun count codePoint => count + match codePoint with
    | .char c => c.utf8Size
    | .half _ => 3) 0

end SyntaxRepair.Utf8
