import Runbook.Path
import Runbook.Recipe
import Runbook.Recipe.Name
import Runbook.Recipe.Section

/-! # From lines to recipes

The recipe the logical lines of a file make. The lines are checked first; then each assignment is taken in order:
values in double quotes are read as string literals, variable names and steps are checked, and a later assignment takes
the place of an earlier one. Last, the recipe must have a description and steps. -/

namespace Runbook

/-- The value of a quoted text, for a line. -/
def unquote (line : Line) (text : Text) : Except LoadError Text :=
  match Text.Quoted.decodeBody (text.drop 1) with
  | .ok value => .ok value
  | .error flaw => .error (.malformed (.quotedValue text flaw) line)

/-- The quoted text of an `info` step: what follows the keyword and the blanks after it, if that begins with a double
    quote. -/
def quotedInfo? (value : Text) : Option Text :=
  let word := Directive.keyword .info
  if Text.startsWith word value then
    match value.drop word.length with
    | [] => none
    | c :: rest =>
      let text := Text.trimLeft rest
      if Text.isBlank c && Text.startsWith "\"" text then some text else none
  else none

/-- The key and the value of a line. A block has its value already; a value in double quotes is a string literal, also
    after the keyword of an `info` step. -/
def Line.assignment (line : Line) : Except LoadError (Text × Text) :=
  match line.value with
  | some value => .ok (line.key, value)
  | none =>
    let value := Text.trim ((Text.cut '=' line.text).2.getD [])
    if Text.startsWith "\"" value then (unquote line value).map fun v => (line.key, v)
    else match quotedInfo? value with
      | some text => (unquote line text).map fun v => (line.key, Directive.keyword .info ++ " " ++ v)
      | none => .ok (line.key, value)

/-- The first word of the value of a step and what it does it with. There is no word when the value is empty or begins
    with a blank, and a word followed by nothing but blanks is none either, unless a single line feed follows. -/
def stepParts? (value : Text) : Option (Text × Option Text) :=
  let word := value.takeWhile fun c => !Text.isBlank c
  let after := value.drop word.length
  if word.isEmpty then none
  else if after.isEmpty || after = ['\n'] then some (word, none)
  else
    let data := Text.trimLeft after
    if data.isEmpty then none else some (word, some data)

/-- The step a value makes. -/
def Step.ofValue (value : Text) (line : Line) : Except LoadError Step :=
  match stepParts? value with
  | none => .error (.malformed .missingDirective line)
  | some (word, data?) =>
    match Directive.ofKeyword? word, data? with
    | none, _ => .error (.unknownDirective word line)
    | some _, none => .error (.malformed (.missingData word) line)
    | some d, some data =>
      let data := Text.trim data
      if d = .exportVar && !data.contains '=' then .error (.malformedExport line)
      else .ok ⟨d, data, some line⟩

namespace Recipe

/-- The recipe of a file without anything in it. -/
def blank (name path : Text) : Recipe := ⟨name, path, [], [], [], []⟩

/-- The recipe with one more assignment in a section. -/
def assign (r : Recipe) (current : Option Section) (line : Line) : Except LoadError Recipe := do
  let (key, value) ← line.assignment
  match current with
  | some .description =>
    if key = "brief".toList then return { r with brief := value } else return { r with full := value }
  | some .declarations =>
    if VariableName.isValid key then return { r with defaults := Bindings.set key value r.defaults }
    else throw (.malformed (.variableName key) line)
  | _ => return { r with steps := r.steps ++ [← Step.ofValue value line] }

/-- The recipe with the lines from the given section on. -/
def fill (r : Recipe) (current : Option Section) : List Line → Except LoadError Recipe
  | [] => .ok r
  | line :: rest =>
    if line.isHeader then fill r (Section.ofHeader? line.text) rest
    else match r.assign current line with
      | .error e => .error e
      | .ok r => fill r current rest

/-- The recipe, if nothing is missing in it. -/
def complete (r : Recipe) : Except LoadError Recipe :=
  if r.brief.isEmpty then .error (.incomplete .brief r.name)
  else if r.full.isEmpty then .error (.incomplete .full r.name)
  else if r.steps.isEmpty then .error (.incomplete .steps r.name)
  else .ok r

/-- The recipe the lines of a file make. -/
def ofLines (name path : Text) (lines : List Line) : Except LoadError Recipe := do
  Section.check none lines
  let r ← (blank name path).fill none lines
  r.complete

/-- The recipe the lines of the file at a path make: the file's stem is its name. -/
def ofFile (cwd p : Path) (lines : List Line) : Except LoadError Recipe :=
  ofLines p.stem (p.absolute cwd).toText lines

end Recipe

end Runbook
