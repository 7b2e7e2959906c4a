import Runbook.Text

/-! # Directives

The closed set of things a step can do, and the keyword of each. -/

namespace Runbook

/-- What a step does. -/
inductive Directive
  /-- Changes the working directory of the steps that follow. -/
  | cd
  /-- Sets an environment variable of the children that follow. -/
  | exportVar
  /-- Runs a command. -/
  | exec
  /-- Runs a command whose failure does not stop the recipe. -/
  | execNoExit
  /-- Prints a text. -/
  | info
  | mustExistDir
  | mustExistFile
  | mustNotExistDir
  | mustNotExistFile
  /-- Runs a text as a script. -/
  | script
deriving DecidableEq, Repr

namespace Directive

/-- Every directive. -/
def all : List Directive :=
  [.cd, .exportVar, .exec, .execNoExit, .info, .mustExistDir, .mustExistFile, .mustNotExistDir, .mustNotExistFile, .script]

/-- The word that stands for a directive in a recipe. -/
def keyword : Directive → Text
  | .cd => "cd"
  | .exportVar => "export"
  | .exec => "exec"
  | .execNoExit => "exec-no-exit"
  | .info => "info"
  | .mustExistDir => "must-exist-dir"
  | .mustExistFile => "must-exist-file"
  | .mustNotExistDir => "must-not-exist-dir"
  | .mustNotExistFile => "must-not-exist-file"
  | .script => "script"

/-- The directive with the given keyword. -/
def ofKeyword? (word : Text) : Option Directive := all.find? (fun d => d.keyword == word)

/-- A keyword names its directive. -/
theorem ofKeyword?_keyword (d : Directive) : ofKeyword? d.keyword = some d := by
  cases d <;> rfl

end Directive

end Runbook
