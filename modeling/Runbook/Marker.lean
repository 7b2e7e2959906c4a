import Runbook.Bindings
import Runbook.Recipe.Name
import Runbook.Text.Blank

/-! # Export markers

A script changes the variables of the steps after it by printing marker lines, such as `###export version=1.2.3`. White
space around a marker line does not count; a line that is no marker, or whose name is no variable name, is just
output. -/

namespace Runbook.Marker

/-- What a marker line begins with. -/
def head : Text := "###export"

/-- The name and the value of a trimmed marker line. -/
def assignment? (text : Text) : Option (Text × Text) :=
  if Text.startsWith head text then
    match text.drop head.length with
    | [] => none
    | c :: rest =>
      match Text.cut '=' (Text.trimLeft rest) with
      | (name, some value) =>
        if Text.isBlank c && VariableName.isValid name && !value.contains '\n' then some (name, value) else none
      | (_, none) => none
  else none

/-- The name and the value of a line of output, if it is a marker. -/
def ofLine? (line : Text) : Option (Text × Text) := assignment? (Text.trim line)

/-- The variables the lines export, in order of first appearance, each with its last value. -/
def exports (lines : List Text) : Bindings := Bindings.ofList (lines.filterMap ofLine?)

end Runbook.Marker
