import Runbook.Text

/-! # Logical lines

One logical line of a recipe, with where it comes from. A block between fences is one logical line, however many lines
of the file it spans, and only a block has its value assembled already. -/

namespace Runbook

/-- A logical line: the file as it was named and its absolute path, the number of its first line in the file, its text,
    and for a block the assembled value. -/
structure Line where
  source : Text
  path : Text
  number : Int
  text : Text
  value : Option Text
deriving DecidableEq, Repr

/-- Where a line stands, for a message. -/
def Line.position (line : Line) : Text := "line " ++ Text.ofInt line.number ++ " in " ++ line.path

end Runbook
