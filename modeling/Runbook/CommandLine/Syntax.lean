import Runbook.CommandLine.Command
import Runbook.CommandLine.Options

/-! # What commands accept

The word that names each command, and the words each accepts. -/

namespace Runbook.CommandLine

/-- A command of the program. -/
inductive Command
  /-- Runs a recipe. -/
  | run
  /-- Lists the recipes in the recipe directory. -/
  | list
  /-- Shows what a recipe is for and the variables it has. -/
  | describe
  /-- Prints a recipe with all that it includes. -/
  | flatten
  /-- Runs one command the way a step does. -/
  | exec
deriving DecidableEq, Repr

namespace Command

/-- Every command. -/
def all : List Command := [.run, .list, .describe, .flatten, .exec]

/-- The word that names a command. -/
def name : Command → Text
  | .run => "run"
  | .list => "list"
  | .describe => "show"
  | .flatten => "flatten"
  | .exec => "exec"

/-- The command with the given name. -/
def ofName? (word : Text) : Option Command := all.find? fun c => c.name == word

/-- What a command takes, for its usage line. -/
def synopsis : Command → Text
  | .run => "[OPTIONS] RECIPE [RECIPE_ARGS]..."
  | .list => "[OPTIONS]"
  | .describe | .flatten => "[OPTIONS] RECIPE"
  | .exec => "[OPTIONS] ARGS..."

/-- The option every command knows. -/
def helpFlag : Flag := ⟨.help, some 'h', "--help", false⟩

/-- How a command reads its words. The commands that hand words on read their options only before the first argument. -/
def grammar : Command → Grammar
  | .run => ⟨[helpFlag], true, false⟩
  | .exec => ⟨[⟨.silent, none, "--silent", false⟩, helpFlag], true, false⟩
  | .list | .describe | .flatten => ⟨[helpFlag], false, true⟩

/-- How many arguments a command needs, and how many it takes at most if there is a limit. -/
def arity : Command → Nat × Option Nat
  | .run => (1, none)
  | .list => (0, some 0)
  | .describe | .flatten => (1, some 1)
  | .exec => (1, none)

/-- What the argument a command needs is called. -/
def label : Command → Text
  | .exec => "ARGS..."
  | _ => "RECIPE"

/-- Reads the words of a command. -/
def read (c : Command) (words : List Text) : Except UsageError Given :=
  match c.grammar.read words with
  | .error e => .error e
  | .ok given =>
    if given.has .help then .ok given
    else if given.arguments.length < c.arity.1 then .error (.missingArgument c.label)
    else
      let extra := match c.arity.2 with
        | none => []
        | some most => given.arguments.drop most
      if extra.isEmpty then .ok given else .error (.extraArguments extra)

/-- What a command is called with when the given words have been read. -/
def call? (c : Command) (given : Given) : Option Call :=
  match c, given.arguments with
  | .run, reference :: overrides => some (.run reference overrides)
  | .list, _ => some .list
  | .describe, reference :: _ => some (.describe reference)
  | .flatten, reference :: _ => some (.flatten reference)
  | .exec, words => some (.exec (given.has .silent) words)
  | _, [] => none

end Command

end Runbook.CommandLine
