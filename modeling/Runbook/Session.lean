import Runbook.World

/-! # Sessions

What the steps of a run share: the world, and the context that `cd`, `export` and scripts change. The process itself
never changes directory or environment; children are started from the context. -/

namespace Runbook

/-- What a step reads and may change: the working directory, the environment of the children, the variables, where
    scripts are made and for which process. -/
structure Context where
  cwd : Path
  env : Bindings
  values : Bindings
  scriptDir : Path
  pid : Int
deriving Repr

/-- A run between two steps. -/
structure Session where
  world : World
  context : Context
deriving Repr

/-- What a step does to a session. -/
abbrev Run := EStateM Fault Session

namespace Run

/-- Does in the world what does not touch the context. -/
def outside {α : Type} (act : Action α) : Run α := fun s =>
  match act s.world with
  | .ok a world => .ok a { s with world }
  | .error e world => .error e { s with world }

instance : MonadLift Action Run := ⟨outside⟩

/-- The context. -/
def context : Run Context := do return (← get).context

/-- Changes the context. -/
def change (f : Context → Context) : Run Unit := modify fun s => { s with context := f s.context }

end Run

/-- The absolute path without links a path stands for, or the fault that there is none. -/
def Action.resolve (p : Path) : Action Path := do
  if p.toText.contains '\x00' then throw .nullCharacter
  match (← get).files.resolve p with
  | .ok resolved => return resolved
  | .error (.circle p) => throw (.linkCircle p.toText)
  | .error .tooDeep => throw .linksTooDeep

/-- The context a run starts from: in the directory `start`, or in that of the process if none is given, without links,
    and with the home of the script directory expanded. -/
def Context.create (values : Bindings) (scriptDir : Text) (start : Option Text) (env : Bindings) :
    Action Context := do
  let w ← get
  let start := match start with
    | none | some [] => w.files.cwd
    | some text => Path.ofText text
  let cwd ← Action.resolve start
  let scriptDir ← Action.expandHome (Path.ofText scriptDir)
  return { cwd, env, values, scriptDir, pid := w.host.pid }

end Runbook
