import Runbook.Recipe.Error
import Runbook.Text.Blank

/-! # Sections

The three sections of a recipe file, their headers and the keys they allow, and the check that every line is a header
or an assignment that its section allows. The check goes before everything else: the first line that fails it is
reported even if an earlier line has a bad value. -/

namespace Runbook

/-- A section of a recipe file. -/
inductive Section
  | description
  | declarations
  | steps
deriving DecidableEq, Repr

namespace Section

/-- Every section. -/
def all : List Section := [.description, .declarations, .steps]

/-- The line that begins a section. -/
def header : Section → Text
  | .description => "[description]"
  | .declarations => "[variable]"
  | .steps => "[step]"

/-- The section with the given header. -/
def ofHeader? (text : Text) : Option Section := all.find? (fun s => s.header == text)

/-- Whether a section allows a key. -/
def allows : Section → Text → Bool
  | .description, key => key == "brief".toList || key == "full".toList
  | .declarations, _ => true
  | .steps, key => key == "step".toList

end Section

/-- Whether a line is meant as a header. -/
def Line.isHeader (line : Line) : Bool := line.value.isNone && Text.startsWith "[" line.text

/-- The key of a line: what stands before the first equals sign, trimmed. -/
def Line.key (line : Line) : Text := Text.trim (Text.cut '=' line.text).1

/-- The section after a line, or why the line may not stand in the section it is in. -/
def Section.step? (current : Option Section) (line : Line) : Except LoadError (Option Section) :=
  if line.isHeader then
    match Section.ofHeader? line.text with
    | none => .error (.malformed (.unknownSection line.text) line)
    | some s => .ok (some s)
  else
    match current with
    | none => .error (.malformed (.orphan line.text) line)
    | some s =>
      if !line.text.contains '=' then .error (.malformed (.missingEquals line.text) line)
      else if s.allows line.key then .ok (some s)
      else .error (.malformed (.unexpectedKey line.key s.header) line)

/-- Checks the lines from the given section on. -/
def Section.check (current : Option Section) : List Line → Except LoadError Unit
  | [] => .ok ()
  | line :: rest =>
    match Section.step? current line with
    | .error e => .error e
    | .ok next => Section.check next rest

end Runbook
