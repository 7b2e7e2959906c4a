import Runbook.Text

/-! # Quoted strings

Reading a string literal in the syntax of JSON. The literal begins with a double quote; what follows is read from the
left, and the first thing that is wrong decides the flaw. A character below U+0020 must be written as an escape, a
value above U+FFFF may be written as a pair of escapes, and only JSON's own white space may follow the closing quote. -/

namespace Runbook.Text.Quoted

/-- What keeps a text from being a string literal. -/
inductive Flaw
  | unterminated
  | controlCharacter
  | unknownEscape
  | badUnicodeEscape
  | extraText
deriving DecidableEq, Repr

/-- What a flaw is called. -/
def Flaw.reason : Flaw → Text
  | .unterminated => "Unterminated string starting at"
  | .controlCharacter => "Invalid control character at"
  | .unknownEscape => "Invalid \\escape"
  | .badUnicodeEscape => "Invalid \\uXXXX escape"
  | .extraText => "Extra data"

/-- The character a one-letter escape stands for. -/
def shortEscape? : Char → Option Char
  | '"' => some '"'
  | '\\' => some '\\'
  | '/' => some '/'
  | 'b' => some '\x08'
  | 'f' => some '\x0c'
  | 'n' => some '\n'
  | 'r' => some '\r'
  | 't' => some '\t'
  | _ => none

/-- The value of a hexadecimal digit. -/
def hexDigit? (c : Char) : Option Nat :=
  if '0' ≤ c && c ≤ '9' then some (c.toNat - 48)
  else if 'a' ≤ c && c ≤ 'f' then some (c.toNat - 87)
  else if 'A' ≤ c && c ≤ 'F' then some (c.toNat - 55)
  else none

/-- The value of four hexadecimal digits. -/
def hexFour? (a b c d : Char) : Option Nat := do
  return (((← hexDigit? a) * 16 + (← hexDigit? b)) * 16 + (← hexDigit? c)) * 16 + (← hexDigit? d)

/-- Whether a value is the first half of a pair. -/
def isHighHalf (n : Nat) : Bool := 0xD800 ≤ n && n ≤ 0xDBFF

/-- Whether a value is the second half of a pair. -/
def isLowHalf (n : Nat) : Bool := 0xDC00 ≤ n && n ≤ 0xDFFF

/-- The value of a pair. -/
def joinHalves (high low : Nat) : Nat := 0x10000 + (high - 0xD800) * 0x400 + (low - 0xDC00)

/-- The character with the given value; half a pair alone is no character and becomes U+FFFD. -/
def charOf (n : Nat) : Char := if n.isValidChar then Char.ofNat n else '\uFFFD'

/-- Reads the escape after a `\u`: its character, and how many characters it takes. Another character must follow
    the four digits. A value that is the first half of a pair is joined with the second half if that follows. -/
def unicodeEscape : Text → Except Flaw (Char × Nat)
  | a :: b :: c :: d :: e :: rest =>
    match hexFour? a b c d with
    | none => .error .badUnicodeEscape
    | some high =>
      match isHighHalf high, e, rest with
      | true, '\\', 'u' :: a' :: b' :: c' :: d' :: _ :: _ =>
        match hexFour? a' b' c' d' with
        | none => .error .badUnicodeEscape
        | some low => .ok (if isLowHalf low then (charOf (joinHalves high low), 10) else (charOf high, 4))
      | _, _, _ => .ok (charOf high, 4)
  | _ => .error .badUnicodeEscape

/-- Reads the escape after a backslash: its character, and how many characters it takes. -/
def escape : Text → Except Flaw (Char × Nat)
  | [] => .error .unterminated
  | 'u' :: rest => (unicodeEscape rest).map fun (c, taken) => (c, taken + 1)
  | c :: _ =>
    match shortEscape? c with
    | none => .error .unknownEscape
    | some x => .ok (x, 1)

/-- Reads up to the closing quote, after the first `skip` characters, which belong to an escape that has been read:
    the value, and what follows the quote. -/
def scan : (skip : Nat) → Text → Except Flaw (Text × Text)
  | _, [] => .error .unterminated
  | skip + 1, _ :: rest => scan skip rest
  | 0, c :: rest =>
    if c = '"' then .ok ([], rest)
    else if c = '\\' then
      match escape rest with
      | .error flaw => .error flaw
      | .ok (x, taken) => (scan taken rest).map fun (value, after) => (x :: value, after)
    else if c.toNat < 0x20 then .error .controlCharacter
    else (scan 0 rest).map fun (value, after) => (c :: value, after)

/-- The white space JSON allows between tokens. -/
def isSpace (c : Char) : Bool := c == ' ' || c == '\t' || c == '\n' || c == '\r'

/-- The value of the literal whose text after the opening quote is given. -/
def decodeBody (body : Text) : Except Flaw Text :=
  match scan 0 body with
  | .error flaw => .error flaw
  | .ok (value, rest) => if rest.all isSpace then .ok value else .error .extraText

end Runbook.Text.Quoted
