import Runbook.Duration
import Runbook.Text.Upper

/-! # Console

What the program says, and when. A notice is one thing to say; `Notice.events` gives the writes it makes at a
verbosity, each to one of the two channels and without the line feed that ends it. At verbosity 0 only what was asked
for and errors are shown, at 1 also warnings, at 2 also information, at 3 also details. -/

namespace Runbook

/-- Where a write goes. -/
inductive Channel
  | out
  | err
deriving DecidableEq, Repr

/-- One write. -/
structure Event where
  channel : Channel
  text : Text
deriving DecidableEq, Repr

/-- How much is shown. -/
abbrev Verbosity := Int

namespace Verbosity

def quiet : Verbosity := 0
def normal : Verbosity := 1
def info : Verbosity := 2
def debug : Verbosity := 3

end Verbosity

/-- A line of the table of results: the number of a step, its keyword, how it ended and how long it took. -/
structure ResultRow where
  index : Int
  keyword : Text
  status : Text
  elapsed : Duration
deriving Repr

/-- Something to say. -/
inductive Notice
  /-- What the user asked to see. -/
  | echo (message : Text)
  | info (message : Text)
  | debug (message : Text)
  | warning (message : Text)
  | recipeStarted (name path : Text) (steps : Int)
  | stepStart (index : Int) (keyword summary cwd : Text)
  | stepEnd (index : Int) (elapsed : Duration)
  | results (rows : List ResultRow)
  | error (title message : Text) (details : List Text) (suggestion : Text)
  /-- A failure for which there is no title. -/
  | failure (message : Text)
deriving Repr

/-- A write to the first channel. -/
def Event.out (text : Text) : Event := ⟨.out, text⟩

/-- A write to the second channel. -/
def Event.err (text : Text) : Event := ⟨.err, text⟩

/-- How the status of a step is shown. -/
def ResultRow.shownStatus (row : ResultRow) : Text :=
  if row.status = "ok".toList then "SUCCESS" else Text.upper row.status

/-- A line of the table of results. -/
def ResultRow.render (row : ResultRow) : Text :=
  "  " ++ Text.padLeft 3 (Text.ofInt row.index) ++ " " ++ Text.padRight 20 row.keyword ++ " " ++ row.shownStatus ++
    " (" ++ row.elapsed.render ++ "s)"

/-- The line above and below the heading of the table of results. -/
def rule : Text := List.replicate 40 '='

namespace Notice

/-- The writes a notice makes if its verbosity is reached. -/
def writes : Notice → List Event
  | .echo message => [.out message]
  | .info message => [.out ("[INFO] " ++ message)]
  | .debug message => [.err ("[DEBUG] " ++ message)]
  | .warning message => [.err ("[WARNING] " ++ message)]
  | .recipeStarted name path steps =>
    [.out "\nRECIPE STARTED", .out ("Recipe: " ++ name), .out ("File: " ++ path), .out ("Steps: " ++ Text.ofInt steps),
      .out ""]
  | .stepStart index keyword summary cwd =>
    [.out ("[INFO] step.start = " ++ Text.ofInt index ++ " " ++ keyword ++ " " ++ summary),
      .out ("[INFO] step.pwd = " ++ Text.ofInt index ++ " " ++ cwd)]
  | .stepEnd index elapsed => [.out ("[INFO] step.end = " ++ Text.ofInt index ++ " " ++ elapsed.render)]
  | .results rows =>
    [.out ("\n" ++ rule), .out "RESULTS", .out rule] ++ rows.map fun row => .out row.render
  | .error title message details suggestion =>
    [.err ("\nERROR: " ++ title), .err message] ++ details.map (fun detail => .err ("  " ++ detail)) ++
      (if suggestion.isEmpty then [] else [.err ("\n" ++ suggestion)])
  | .failure message => [.err ("Error: " ++ message)]

/-- The verbosity from which on a notice is shown; a notice without one is always shown. -/
def threshold : Notice → Option Verbosity
  | .echo _ | .error .. | .failure _ => none
  | .warning _ => some .normal
  | .debug _ => some .debug
  | .info _ | .recipeStarted .. | .stepStart .. | .stepEnd .. | .results _ => some .info

/-- Whether a notice is shown at a verbosity. -/
def isShown (n : Notice) (v : Verbosity) : Bool := n.threshold.all (· ≤ v)

/-- The writes a notice makes at a verbosity. -/
def events (n : Notice) (v : Verbosity) : List Event := if n.isShown v then n.writes else []

end Notice

end Runbook
