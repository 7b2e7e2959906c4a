import Runbook.Text

/-! # Variable names

A variable name begins with an ASCII letter or an underscore and goes on with these, digits and hyphens. The same names
may be declared in a recipe and exported by a script. -/

namespace Runbook.VariableName

/-- Whether a character can begin a name. -/
def isHead (c : Char) : Bool := ('a' ≤ c && c ≤ 'z') || ('A' ≤ c && c ≤ 'Z') || c == '_'

/-- Whether a character can go on a name. -/
def isTail (c : Char) : Bool := isHead c || c == '-' || ('0' ≤ c && c ≤ '9')

/-- Whether a text is a name. -/
def isValid : Text → Bool
  | [] => false
  | c :: rest => isHead c && rest.all isTail

end Runbook.VariableName
