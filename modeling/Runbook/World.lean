import Runbook.Bindings
import Runbook.Child
import Runbook.Console
import Runbook.Fault
import Runbook.Files
import Runbook.Journal

/-! # The world of a run

Everything an action can see or change outside the recipe: the files, the environment of the process, the host, the
children that will be started, the clock, and what has been said and started so far. An `Action` goes from one world to
another and gives a value or a fault; a fault keeps what was done before it. -/

namespace Runbook

/-- The facts about the host and the process. -/
structure Host where
  pid : Nat
  uid : Nat
  gid : Nat
  cpus : Nat
  hostname : Text
  platform : Text
  /-- The system, its release and version, and the machine. -/
  system : Text
  /-- The login name, if it can be found. -/
  login : Option Text
  /-- The time, for people and for names of files. -/
  time : Text
  timestamp : Text
  /-- Where recipes and scripts are when nothing else is said. -/
  recipes : Text
  scripts : Text
deriving Repr

/-- The world of a run. `children` are the children to come, in the order of their starts; `tried` counts the names of
    script files that have been tried; `tee` is the journal that gets everything that is said, as long as its file is
    there. -/
structure World where
  files : Files
  env : Bindings
  host : Host
  children : List Child
  clock : Nat
  tried : Nat
  starts : List Start
  verbosity : Verbosity
  log : List Event
  tee : Option Journal
deriving Repr

/-- What changes the world and may end in a fault. -/
abbrev Action := EStateM Fault World

/-- Who takes what is said. A console may refuse to, with a fault. -/
class Console where
  take : Notice → Action Unit

namespace World

/-- The world with another file tree. -/
def withTree (w : World) (tree : Tree) : World := { w with files := { w.files with tree } }

/-- The world with one more write. -/
def write (w : World) (e : Event) : World :=
  let w := match w.tee with
    | none => w
    | some journal =>
      let octets := Utf8.encode (e.text ++ "\n")
      { w.withTree (journal.write w.files.tree octets) with tee := some (journal.advance octets) }
  { w with log := w.log ++ [e] }

/-- The world after a notice. -/
def say (w : World) (n : Notice) : World := (n.events w.verbosity).foldl write w

end World

/-- The console of the world, which writes all that it is told as far as the verbosity has it shown. -/
instance : Console := ⟨fun n => modify fun w => w.say n⟩

namespace Action

/-- Says something. -/
def say [Console] (n : Notice) : Action Unit := Console.take n

/-- Informs. -/
def inform [Console] (message : Text) : Action Unit := say (.info message)

/-- Runs an action and then, however it ended, another one. A fault of the second one counts. -/
def andFinally {α : Type} (act : Action α) (last : Action Unit) : Action α := fun w =>
  match act w with
  | .ok a w =>
    match last w with
    | .ok _ w => .ok a w
    | .error e w => .error e w
  | .error e w =>
    match last w with
    | .ok _ w => .error e w
    | .error e w => .error e w

/-- The result of an operation on the file at a path, or the fault. -/
def orFault {α : Type} (path : Path) : Except FileError α → Action α
  | .ok a => pure a
  | .error e => throw (.file e path.toText)

/-- Why the home a path begins with cannot be put in its place: it may not be asked for, or is not known. -/
def homeFault (homes : Homes) (p : Path) : Fault := if homes.refusesPath p then .nullCharacter else .unknownHome

/-- A path with the home it begins with. -/
def expandHome (p : Path) : Action Path := do
  let homes := (← get).files.homes
  match homes.expand? p with
  | some p => return p
  | none => throw (homeFault homes p)

/-- Makes a directory unless there is one; `missing` says what to do if the directory above is missing. -/
def makeDirectoryOr (missing : Action Unit) (p : Path) : Action Unit := do
  match (← get).files.makeDirectory p with
  | .ok files => modify fun w => { w with files }
  | .error .missing => missing
  | .error e => if !(← orFault p ((← get).files.isDirectory p)) then throw (.file e p.toText)

/-- Makes a directory, and the directories above it that are missing, unless there is one. `depth` bounds how many are
    missing. -/
def makeDirectories : (depth : Nat) → Path → Action Unit
  | 0, p => makeDirectoryOr (throw (.file .missing p.toText)) p
  | depth + 1, p =>
    let giveUp : Action Unit := throw (.file .missing p.toText)
    makeDirectoryOr
      (if p.parent = p then giveUp
      else do
        makeDirectories depth p.parent
        makeDirectoryOr giveUp p)
      p

end Action

end Runbook
