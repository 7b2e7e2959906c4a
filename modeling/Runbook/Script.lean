import Runbook.World

/-! # Anonymous scripts

A script step writes its text to a fresh file that only the user can read, change and execute, runs it, and takes the
file away however the run ended. The file is made in the script directory under the first name that is free; the
directory is made if it is missing. -/

namespace Runbook.Script

/-- The permissions of a script file: everything for the user, nothing for others. -/
def mode : Nat := 0o700

/-- The text of a script file: the body, ended by a line feed. -/
def content (body : Text) : Text := if Text.endsWith "\n" body then body else body ++ "\n"

/-- The name of the `n`-th script file of a process. -/
def fileName (pid : Int) (n : Nat) : Text := Text.ofInt pid ++ "-t" ++ Text.ofNat n ++ ".sh"

/-- Whether something stands where a path leads to or where its last name is. -/
def isTaken (w : World) (p : Path) : Bool :=
  match w.files.locate p with
  | .ok place => (w.files.tree.node? place).isSome
  | .error _ => false

/-- Counts on to the first name in a directory that is not taken, trying at most `tries` names after the first. A name
    that is denied is a fault, taken or not. -/
def freshPath (directory : Path) (pid : Int) : (tries : Nat) → Action Path
  | 0 => next
  | tries + 1 => do
    let p ← next
    if isTaken (← get) p then freshPath directory pid tries else return p
where
  /-- Counts to the next name. -/
  next : Action Path := do
    let w ← get
    let p := directory.child (fileName pid (w.tried + 1))
    set { w with tried := w.tried + 1 }
    if w.files.isDenied p then throw (.file .denied p.toText)
    return p

/-- Makes the file of a script in a directory, and gives its path. -/
def create (body : Text) (directory : Path) (pid : Int) : Action Path := do
  if directory.toText.contains '\x00' then throw .nullCharacter
  Action.makeDirectories (directory.names.length + 1) directory
  let w ← get
  let p ← freshPath (w.files.absolute directory) pid w.files.tree.entries.length
  let w ← get
  let place ← Action.orFault p (w.files.locate p)
  set (w.withTree (w.files.tree.set place (.file (Utf8.encode (content body)) mode)))
  return p

/-- Takes the file of a script away, if it is still there. -/
def delete (p : Path) : Action Unit := do
  let w ← get
  match w.files.unlink p with
  | .ok tree => set (w.withTree tree)
  | .error .missing => return ()
  | .error e => throw (.file e p.toText)

/-- Runs an action while a script file exists. -/
def during [Console] {α : Type} (body : Text) (directory : Path) (pid : Int) (use : Path → Action α) : Action α := do
  let p ← create body directory pid
  Action.andFinally
    (do Action.inform ("creating anonymous script file: " ++ p.toText); use p)
    (do Action.inform ("deleting anonymous script file: " ++ p.toText); delete p)

end Runbook.Script
