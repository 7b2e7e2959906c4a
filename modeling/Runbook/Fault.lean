import Runbook.Directive
import Runbook.Recipe.Error
import Runbook.Tree
import Runbook.Variables

/-! # Faults

Everything that can end an action early: a recipe that does not load, variables that cannot be set, a step that fails,
and what the surroundings do, such as an interrupt or a file that stands in the way. -/

namespace Runbook

/-- Why a step fails. -/
inductive StepCause
  | changeDirectory (target : Text)
  | setVariable (name : Text)
  | unclosedQuote (e : Words.Unclosed)
  | emptyCommand
  /-- A child could not be started, for the given reason, or ended with a code other than zero. -/
  | child (startError : Option Text) (command : Text) (code : Int)
  | missingDirectory (data : Text)
  | missingFile (data : Text)
  | presentDirectory (data : Text)
  | presentFile (data : Text)
deriving DecidableEq, Repr

/-- A step that fails: its number, what it does, and the cause. -/
structure StepFailure where
  index : Nat
  directive : Directive
  cause : StepCause
deriving DecidableEq, Repr

namespace StepCause

/-- The exit code the cause reports, if it is about a child. -/
def code? : StepCause → Option Int
  | .child _ _ code => some code
  | _ => none

/-- The words about a cause. -/
def message : StepCause → Text
  | .changeDirectory target => "failed to change directory to " ++ target
  | .setVariable name => "failed to set the environment variable '" ++ name ++ "'"
  | .unclosedQuote e => e.message
  | .emptyCommand => "empty command"
  | .child startError command _ => startError.getD "command failed" ++ ": " ++ command
  | .missingDirectory data => "directory does not exist: " ++ data
  | .missingFile data => "file does not exist: " ++ data
  | .presentDirectory data => "directory exists: " ++ data
  | .presentFile data => "file exists: " ++ data

end StepCause

/-- The words about a step that fails. -/
def StepFailure.message (f : StepFailure) : Text :=
  let exit : Text := match f.cause.code? with
    | none => []
    | some code => " (exit=" ++ Text.ofInt code ++ ")"
  "step " ++ Text.ofNat f.index ++ " (" ++ f.directive.keyword ++ ") failed" ++ exit ++ ": " ++ f.cause.message

/-- What ends an action early. -/
inductive Fault
  | load (e : LoadError)
  | unresolved (e : VariableError)
  | step (f : StepFailure)
  /-- Includes are nested more deeply than the files of any tree allow. -/
  | includesTooDeep (path : Text)
  /-- A file grows as fast as it is read. -/
  | endless (path : Text)
  /-- A path begins with a home that is not known. -/
  | unknownHome
  /-- A text that the system takes holds the character U+0000. -/
  | nullCharacter
  /-- The name of a variable for a child holds an equals sign. -/
  | variableName
  /-- Links lead in a circle. -/
  | linkCircle (path : Text)
  /-- Too many links are inside one another. -/
  | linksTooDeep
  | file (e : FileError) (path : Text)
  | interrupted
  /-- Whoever uses a resource gives up, in words of their own. -/
  | abandoned (message : Text)
deriving DecidableEq, Repr

/-- The words about a fault. -/
def Fault.message : Fault → Text
  | .load e => e.message
  | .unresolved e => e.message
  | .step f => f.message
  | .includesTooDeep _ => "maximum recursion depth exceeded"
  | .endless path => "recipe file does not end: " ++ path
  | .unknownHome => "Could not determine home directory."
  | .nullCharacter => "embedded null byte"
  | .variableName => "illegal environment variable name"
  | .linkCircle path => "Symlink loop from " ++ Text.Listing.showText path
  | .linksTooDeep => "maximum recursion depth exceeded"
  | .file e path =>
    "[Errno " ++ Text.ofNat e.code ++ "] " ++ e.reason ++ ": " ++ Text.Listing.showText path
  | .interrupted => []
  | .abandoned message => message

end Runbook
