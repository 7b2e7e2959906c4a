import Runbook.World

/-! # Rehearsals

The world of a run that is only rehearsed. It holds the files that were read and the environment; every child that is
started ends well at once and prints nothing, the clock stands still, and what a rehearsal does not know of the host is
zero or empty. -/

namespace Runbook.Rehearsal

/-- Where recipes are when nothing else is said. -/
def recipes : Text := "~/.config/cookbook/recipes"

/-- Where scripts are made when nothing else is said. -/
def scripts : Text := "~/.cookbook"

/-- The variables of the environment that may name the user; the first that is set and not empty counts. -/
def loginNames : List Text := ["LOGNAME", "USER", "LNAME", "USERNAME"]

/-- The name of the user, if the environment has it. -/
def login (env : Bindings) : Option Text := (loginNames.filterMap env.get?).find? (!·.isEmpty)

/-- The host of a rehearsal. -/
def host (homes : Homes) (env : Bindings) : Host where
  pid := 0
  uid := 0
  gid := 0
  cpus := 1
  hostname := []
  platform := []
  system := []
  login := login env
  time := []
  timestamp := []
  recipes := (Path.ofText (homes.expandText recipes)).toText
  scripts := (Path.ofText (homes.expandText scripts)).toText

/-- The tree with a regular file at a path, and with the directories above it. -/
def plant (cwd : Path) (t : Tree) (path : Text) (content : List UInt8) : Tree :=
  let place := ((Path.ofText path).absolute cwd).names
  (t.makeDirectories place.dropLast).set place (.file content Tree.newFileMode)

/-- The world of a rehearsal in the directory `cwd`, with the given environment and the given files. -/
def world (cwd : Text) (env : Bindings) (contents : List (Text × List UInt8)) : World :=
  let cwd := Path.ofText cwd
  let homes : Homes := ⟨(env.get? "HOME").getD [], []⟩
  let tree := contents.foldl (fun t file => plant cwd t file.1 file.2) (Tree.makeDirectories ⟨[]⟩ cwd.names)
  { files := { tree, denied := [], cwd, homes }
    env
    host := host homes env
    children := []
    clock := 0
    tried := 0
    starts := []
    verbosity := .normal
    log := []
    tee := none }

end Runbook.Rehearsal
