import Runbook.Invocation
import Runbook.Run

/-! # Commands

The five commands of the program, each with what it is called with, and what each does. A command gives the status the
program ends with; what it does not report itself is left to its caller as a fault. -/

namespace Runbook.CommandLine

/-- Reports an error and gives the status for it. -/
def report (title message : Text) (suggestion : Text) : Action Nat := do
  Action.say (.error title message [] suggestion)
  return 1

/-- Loads something; an error in the recipes is reported under a title, another fault stays. -/
def orReport {α : Type} (title : Text) (load : Action α) (use : α → Action Nat) : Action Nat := fun w =>
  match load w with
  | .ok a w => use a w
  | .error (.load e) w => report title e.message [] w
  | .error e w => .error e w

/-- The status a fault of a running recipe ends the program with, after it has been reported. -/
def reportFault (reference name : Text) : Fault → Action Nat
  | .unresolved (.missingValue flag) =>
    report ("Recipe " ++ name ++ " failed") (VariableError.missingValue flag).message []
  | .unresolved e =>
    report "Invalid recipe options" e.message
      ("See the recipe variables:\n  " ++ programName ++ " show " ++ reference)
  | .load e => report ("Recipe " ++ name ++ " failed") e.message []
  | .step f => report ("Recipe " ++ name ++ " failed") f.message []
  | .interrupted => do
    Action.say (.echo "\nInterrupted by user")
    return 130
  | e => do
    Action.say (.failure e.message)
    return 1

/-- Loads a recipe and runs it with overrides. -/
def runRecipe (i : Invocation) (reference : Text) (overrides : List Text) : Action Nat :=
  orReport "Failed to load recipe" (Recipe.load reference i.recipes) fun r w =>
    match (do r.run overrides i.scripts none (← i.childEnvironment) : Action (List StepResult)) w with
    | .ok results w => (do
        Action.say (.results (results.map StepResult.row))
        return 0 : Action Nat) w
    | .error e w => reportFault reference r.name e w

/-- Lists the recipes, the brief descriptions under one another. -/
def listRecipes (i : Invocation) : Action Nat :=
  orReport "Failed to list recipes" (Recipe.loadAll i.recipes) fun recipes => do
    let width := (recipes.map (·.name.length)).foldl max 0
    recipes.forM fun r => Action.say (.echo (Text.padRight width r.name ++ " - " ++ r.brief))
    return 0

/-- The line about a variable. -/
def variableLine (width : Nat) (p : Text × Text) : Text :=
  "  --" ++ Text.padRight width p.1 ++ " " ++
    (if p.2.isEmpty then "(required)".toList else "default: " ++ p.2)

/-- Shows a recipe and its variables. -/
def showRecipe (i : Invocation) (reference : Text) : Action Nat :=
  orReport "Failed to load recipe" (Recipe.load reference i.recipes) fun r => do
    Action.say (.echo ("Help for " ++ r.name ++ " - " ++ r.path))
    Action.say (.echo r.full)
    if !r.defaults.isEmpty then
      Action.say (.echo "")
      Action.say (.echo "Variables:")
      let width := (r.defaults.map (·.1.length)).foldl max 0 + 2
      r.defaults.sorted.forM fun p => Action.say (.echo (variableLine width p))
    return 0

/-- The lines of a recipe as they are printed: before the first line of a file, and whenever the file changes, a
    comment names the file. -/
def flatLines : (current : Option Text) → List Line → List Text
  | _, [] => []
  | current, line :: rest =>
    let head : List Text := if current = some line.path then [] else ["# " ++ line.path]
    head ++ line.text :: flatLines (some line.path) rest

/-- Prints a recipe with all that it includes. -/
def flattenRecipe (i : Invocation) (reference : Text) : Action Nat :=
  orReport "Failed to load recipe"
    (do let p ← Recipe.locate reference i.recipes
        Recipe.readLines p.toText p)
    fun lines => do
      (flatLines none lines).forM fun text => Action.say (.echo text)
      return 0

/-- Runs one command. -/
def runCommand (i : Invocation) (silent : Bool) (words : List Text) : Action Nat := do
  Action.inform ("cmd    = " ++ Words.join words)
  let cwd := (← get).files.cwd.toText
  let env ← i.childEnvironment
  let result ← Runbook.Command.run words cwd env silent
  Action.inform ("time   = " ++ (Duration.ofMillis result.millis).render)
  let size := (result.output.flatMap (· ++ ['\n'])).length
  Action.inform ("size   = " ++ Text.ofNat size)
  if result.ok then
    Action.inform "status = passed"
    return 0
  Action.inform
    ("status = failed - " ++ result.startError.getD ("exit status " ++ Text.ofInt result.code))
  return (result.code % 256).toNat

/-- A command with what it is called with. -/
inductive Call
  /-- Runs a recipe. -/
  | run (reference : Text) (overrides : List Text)
  /-- Lists the recipes in the recipe directory. -/
  | list
  /-- Shows what a recipe is for and the variables it has. -/
  | describe (reference : Text)
  /-- Prints a recipe with all that it includes. -/
  | flatten (reference : Text)
  /-- Runs one command the way a step does. -/
  | exec (silent : Bool) (words : List Text)
deriving DecidableEq, Repr

/-- Does what a command does. -/
def Call.perform (i : Invocation) : Call → Action Nat
  | .run reference overrides => runRecipe i reference overrides
  | .list => listRecipes i
  | .describe reference => showRecipe i reference
  | .flatten reference => flattenRecipe i reference
  | .exec silent words => runCommand i silent words

end Runbook.CommandLine
