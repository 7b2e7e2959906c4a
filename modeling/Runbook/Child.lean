import Runbook.Text.Lines
import Runbook.Text.Utf8

/-! # Children

What a child process does when it is started: it may refuse to start, it prints octets, it changes files, and it ends
with a code or is interrupted. What it prints is read as UTF-8, leniently, and cut into lines at any of the three line
ends. -/

namespace Runbook

/-- Why a child does not start. -/
inductive StartError
  | missing
  | denied
  | badFormat
  | notDirectory
  | tooLong
  | other (text : Text)
deriving DecidableEq, Repr

/-- What a start error is called. -/
def StartError.reason : StartError → Text
  | .missing => "No such file or directory"
  | .denied => "Permission denied"
  | .badFormat => "Exec format error"
  | .notDirectory => "Not a directory"
  | .tooLong => "Argument list too long"
  | .other text => text

/-- What a child does to a file, or to the rights to it. The paths are absolute. -/
inductive Change
  | makeDirectory (path : Text)
  | write (path content : Text)
  | remove (path : Text)
  /-- From now on a path is denied. -/
  | deny (path : Text)
  /-- From now on a path may not be looked up. -/
  | hide (path : Text)
deriving DecidableEq, Repr

/-- What a child does. A negative exit code is the signal that ended it; without an exit code the one who waits for the
    child is interrupted. -/
structure Child where
  refusal : Option StartError
  output : List UInt8
  millis : Nat
  changes : List Change
  exit : Option Int
deriving DecidableEq, Repr

namespace Child

/-- The child that prints nothing and ends well at once. -/
def silent : Child := ⟨none, [], 0, [], some 0⟩

/-- The lines a child prints. -/
def lines (c : Child) : List Text := Text.lines (Utf8.decodeLenient c.output)

end Child

/-- A start that was tried: the words of the command, the working directory and the environment; and the content and
    the permissions of the file when the first word is the absolute path of one. -/
structure Start where
  argv : List Text
  cwd : Text
  env : List (Text × Text)
  program : Option (List UInt8 × Nat)
deriving DecidableEq, Repr

/-- How a command ended: its words, its exit code, how long it took, the lines it printed, and why it could not be
    started if so. -/
structure CommandResult where
  argv : List Text
  code : Int
  millis : Nat
  output : List Text
  startError : Option Text
deriving DecidableEq, Repr

namespace CommandResult

/-- The code reported for a child that could not be started. -/
def notStarted : Int := 127

/-- Whether a command ended well. -/
def ok (r : CommandResult) : Bool := r.code == 0

end CommandResult

end Runbook
