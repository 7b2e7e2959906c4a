import Runbook.Command
import Runbook.Marker
import Runbook.Recipe
import Runbook.Script
import Runbook.Session

/-! # Steps

Running a step. The references to variables in its text are replaced first, with the values they have at that moment.
Then its directive does its work: `cd` changes the working directory, `export` the environment, `exec` and
`exec-no-exit` run a command, `info` prints, the `must-` directives look at the files, and `script` runs its text and
takes the variables the script exports. -/

namespace Runbook

/-- How a step ended that did not fail. -/
inductive Status
  | ok
  /-- A command failed that may. -/
  | warning
deriving DecidableEq, Repr

/-- The word for a status. -/
def Status.word : Status → Text
  | .ok => "ok"
  | .warning => "warning"

/-- The result of a step: its number, what it did with which text, how it ended and how long it took. -/
structure StepResult where
  index : Nat
  directive : Directive
  data : Text
  status : Status
  millis : Nat
deriving DecidableEq, Repr

/-- The line of the table of results. -/
def StepResult.row (r : StepResult) : ResultRow :=
  ⟨r.index, r.directive.keyword, r.status.word, Duration.ofMillis r.millis⟩

namespace Step

/-- A failure of a step. -/
def failure (index : Nat) (d : Directive) (cause : StepCause) : Fault := .step ⟨index, d, cause⟩

/-- The path a text names, seen from the working directory, with its home expanded if it is known; a home that may not be
    asked for is a fault. -/
def path (data : Text) : Run Path := do
  let s ← get
  if s.world.files.homes.refuses data then throw .nullCharacter
  return s.context.cwd.join (Path.ofText (s.world.files.homes.expandText data))

/-- The words of a command. -/
def argv (index : Nat) (d : Directive) (data : Text) : Action (List Text) :=
  match Words.split data with
  | .error e => throw (failure index d (.unclosedQuote e))
  | .ok [] => throw (failure index d .emptyCommand)
  | .ok words => return words

/-- Runs a command in a context, and fails unless it ends well. `display` stands for the command in the failure. -/
def spawn [Console] (c : Context) (index : Nat) (d : Directive) (argv : List Text) (display : Text) : Action CommandResult := do
  Action.inform ("cmd.cmd = " ++ Words.join argv)
  Action.inform ("cmd.pwd = " ++ c.cwd.toText)
  let result ← Command.run argv c.cwd.toText c.env false
  Action.inform ("cmd.elapsed = " ++ (Duration.ofMillis result.millis).render)
  if result.startError.isSome || !result.ok then
    throw (failure index d (.child result.startError display result.code))
  Action.inform "cmd.status = passed"
  return result

/-- Changes the working directory. -/
def cd [Console] (index : Nat) (data : Text) : Run Unit := do
  let target ← path data
  Action.inform ("cd to " ++ target.toText)
  let files := (← get).world.files
  if !(← Action.orFault target (files.isDirectory target)) || files.isDenied target then
    throw (failure index .cd (.changeDirectory target.toText))
  let cwd ← Action.resolve target
  Run.change fun c => { c with cwd }
  Action.inform ("pwd = " ++ cwd.toText)

/-- Sets an environment variable. The name is trimmed, the value is not; without an equals sign the value is empty. -/
def exportVar [Console] (index : Nat) (data : Text) : Run Unit := do
  let (before, after) := Text.cut '=' data
  let name := Text.trim before
  let value := after.getD []
  if name.isEmpty || name.contains '\x00' || value.contains '\x00' then
    throw (failure index .exportVar (.setVariable name))
  Action.inform ("export " ++ name ++ "=" ++ value)
  Run.change fun c => { c with env := Bindings.set name value c.env }

/-- Runs a command. -/
def exec [Console] (c : Context) (index : Nat) (d : Directive) (data : Text) : Action Unit := do
  let argv ← argv index d data
  let _ ← spawn c index d argv data

/-- Runs a command; a child that cannot be started or ends badly is a warning. -/
def execNoExit [Console] (c : Context) (index : Nat) (data : Text) : Action Status := fun w =>
  match exec c index .execNoExit data w with
  | .ok _ w => .ok .ok w
  | .error (.step f) w =>
    match f.cause with
    | .child .. => (do Action.say (.warning f.message); return .warning : Action Status) w
    | _ => .error (.step f) w
  | .error e w => .error e w

/-- Fails with a cause if the test of the path a text names gives `bad`. -/
def check (index : Nat) (d : Directive) (data : Text) (test : Files → Path → Except FileError Bool) (bad : Bool)
    (cause : Text → StepCause) : Run Unit := do
  let p ← path data
  if (← Action.orFault p (test (← get).world.files p)) == bad then throw (failure index d (cause data))

/-- Takes a variable that a script exports. -/
def takeExport [Console] (index : Nat) (p : Text × Text) : Run Unit := do
  Action.inform ("variable " ++ p.1 ++ " = " ++ p.2 ++ " (exported by step " ++ Text.ofNat index ++ ")")
  Run.change fun c => { c with values := Bindings.set p.1 p.2 c.values }

/-- Runs a text as a script, and takes the variables it exports. -/
def script [Console] (index : Nat) (data : Text) : Run Unit := do
  let c ← Run.context
  let result ← Script.during data c.scriptDir c.pid fun p => spawn c index .script [p.toText] p.toText
  (Marker.exports result.output).forM (takeExport index)

/-- Does the work of a directive with a text. -/
def perform [Console] (index : Nat) (d : Directive) (data : Text) : Run Status := do
  match d with
  | .cd => cd index data; return .ok
  | .exportVar => exportVar index data; return .ok
  | .exec => exec (← Run.context) index .exec data; return .ok
  | .execNoExit => execNoExit (← Run.context) index data
  | .info => Action.say (.echo data); return .ok
  | .mustExistDir => check index d data Files.isDirectory false .missingDirectory; return .ok
  | .mustExistFile => check index d data Files.isFile false .missingFile; return .ok
  | .mustNotExistDir => check index d data Files.isDirectory true .presentDirectory; return .ok
  | .mustNotExistFile => check index d data Files.isFile true .presentFile; return .ok
  | .script => script index data; return .ok

/-- What is said of the text of a step when it starts. -/
def summary (data : Text) : Text := if data.contains '\n' then "multi-line" else data

/-- Runs the step with the given number. -/
def run [Console] (index : Nat) (step : Step) : Run StepResult := do
  let c ← Run.context
  let data := Variables.substitute step.data c.values
  Action.say (.stepStart index step.directive.keyword (summary data) c.cwd.toText)
  let start := (← get).world.clock
  let status ← perform index step.directive data
  let millis := (← get).world.clock - start
  Action.say (.stepEnd index (Duration.ofMillis millis))
  return ⟨index, step.directive, data, status, millis⟩

/-- Runs steps, numbered from `index` on, up to the first that fails. -/
def runFrom [Console] (index : Nat) : List Step → Run (List StepResult)
  | [] => return []
  | step :: rest => do
    let result ← run index step
    let results ← runFrom (index + 1) rest
    return result :: results

/-- Runs the steps of a recipe. -/
def runAll [Console] (steps : List Step) : Run (List StepResult) := runFrom 1 steps

end Step

end Runbook
