import Runbook.Text.Unseen

/-! # Listings

How a text, or a list of texts, is shown inside a message: between quotes, with the characters that would not be seen
written as escapes. Single quotes are used, or double quotes when only a single quote is in the text. -/

namespace Runbook.Text.Listing

/-- The hexadecimal digits of a number, at least `width` of them. -/
def hex (width n : Nat) : Text :=
  let digits := Nat.toDigits 16 n
  List.replicate (width - digits.length) '0' ++ digits

/-- How a character is written between quotes of the given kind. -/
def showChar (quote c : Char) : Text :=
  if c = quote || c = '\\' then ['\\', c]
  else if c = '\n' then "\\n"
  else if c = '\r' then "\\r"
  else if c = '\t' then "\\t"
  else if isUnseen c then
    let n := c.toNat
    if n ≤ 0xFF then "\\x" ++ hex 2 n else if n ≤ 0xFFFF then "\\u" ++ hex 4 n else "\\U" ++ hex 8 n
  else [c]

/-- The quote a text is shown between. -/
def quoteFor (s : Text) : Char := if s.contains '\'' && !s.contains '"' then '"' else '\''

/-- A text between quotes. -/
def showText (s : Text) : Text :=
  let quote := quoteFor s
  quote :: s.flatMap (showChar quote) ++ [quote]

/-- A list of texts between brackets. -/
def showList (ts : List Text) : Text := "[" ++ joinWith ", " (ts.map showText) ++ "]"

end Runbook.Text.Listing
