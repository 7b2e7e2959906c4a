import Runbook.Text

/-! # Blanks

The characters that separate words and stand at the margins of a line, and the trimming of a text. The table is
that of white space in the wide sense: it holds the separators U+001C to U+001F and every space of Unicode, and
leaves out the joiners U+200B, U+2060 and U+FEFF. -/

namespace Runbook.Text

/-- Whether a character is white space. -/
def isBlank (c : Char) : Bool :=
  let n := c.toNat
  (0x09 ≤ n && n ≤ 0x0D) || (0x1C ≤ n && n ≤ 0x20) || n == 0x85 || n == 0xA0 || n == 0x1680 ||
    (0x2000 ≤ n && n ≤ 0x200A) || n == 0x2028 || n == 0x2029 || n == 0x202F || n == 0x205F || n == 0x3000

/-- A text without the white space at its beginning. -/
def trimLeft (s : Text) : Text := s.dropWhile isBlank

/-- A text without the white space at its end. -/
def trimRight (s : Text) : Text := dropEndWhile isBlank s

/-- A text without the white space at both ends. -/
def trim (s : Text) : Text := trimRight (trimLeft s)

end Runbook.Text
