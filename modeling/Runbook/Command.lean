import Runbook.World

/-! # Running a command

Starting a child and waiting for it. What it prints is shown line by line as it comes, and the lines are kept; when it
has ended, what it did to the files is done. A child that cannot be started is no fault: the result says why. -/

namespace Runbook

/-- The tree after a change by a child; a change that is not possible changes nothing. -/
def Change.apply (t : Tree) : Change → Tree
  | .makeDirectory path => t.makePath (Path.ofText path)
  | .write path content =>
    let t := t.makePath (Path.ofText path).parent
    match t.writePlace Tree.maxLinks [] path with
    | .ok place => t.writeAt place (Utf8.encode content)
    | .error _ => t
  | .remove path =>
    match t.locate (Path.ofText path) with
    | .error _ => t
    | .ok place => if (t.children place).isEmpty then t.erase place else t
  | .deny _ | .hide _ => t

/-- The paths that are denied after a change by a child and were not. -/
def Change.denied : Change → List Text
  | .deny path => [path]
  | _ => []

/-- The paths that cannot be looked up after a change by a child and could. -/
def Change.hidden : Change → List Text
  | .hide path => [path]
  | _ => []

namespace Command

/-- The content and the permissions of the file the first word is the absolute path of. -/
def program? (tree : Tree) : List Text → Option (List UInt8 × Nat)
  | [] => none
  | word :: _ =>
    let p := Path.ofText word
    if p.isAbsolute then
      match tree.stat p with
      | .ok (_, .file content mode) => some (content, mode)
      | _ => none
    else none

/-- Takes the child that is next, and notes its start. -/
def nextChild (argv : List Text) (cwd : Text) (env : Bindings) : Action Child := modifyGet fun w =>
  let start : Start := ⟨argv, cwd, env, program? w.files.tree argv⟩
  (w.children.headD .silent, { w with children := w.children.tail, starts := w.starts ++ [start] })

/-- The files after a change by a child. -/
def undergoFiles (files : Files) (change : Change) : Files :=
  { files with
    tree := change.apply files.tree
    denied := files.denied ++ change.denied
    hidden := files.hidden ++ change.hidden }

/-- The world after a change by a child. The journal is lost when its file goes. -/
def undergo (w : World) (change : Change) : World :=
  let files := undergoFiles w.files change
  { w with files, tee := w.tee.filter (·.isKept files.tree) }

/-- Lets a child do to the files what it does, and takes the time it takes. -/
def settle (child : Child) : Action Unit := modify fun w =>
  { child.changes.foldl undergo w with clock := w.clock + child.millis }

/-- Why the system takes no order to start a command, if it takes none: the name of a variable holds an equals sign, or
    something holds the character U+0000. -/
def objection? (argv : List Text) (cwd : Text) (env : Bindings) : Option Fault :=
  if env.any (·.1.contains '=') then some .variableName
  else if (cwd :: argv ++ env.flatMap fun p => [p.1, p.2]).any (·.contains '\x00') then some .nullCharacter
  else none

/-- Runs a command and waits for it; its lines are shown unless it is to be silent. -/
def run [Console] (argv : List Text) (cwd : Text) (env : Bindings) (silent : Bool) : Action CommandResult :=
  match objection? argv cwd env with
  | some e => throw e
  | none => do
    let child ← nextChild argv cwd env
    match child.refusal with
    | some e => return ⟨argv, CommandResult.notStarted, 0, [], some (e.reason ++ ": " ++ argv.headD [])⟩
    | none =>
      if !silent then child.lines.forM fun line => Action.say (.echo line)
      settle child
      match child.exit with
      | none => throw .interrupted
      | some code => return ⟨argv, code, child.millis, child.lines, none⟩

end Command

end Runbook
