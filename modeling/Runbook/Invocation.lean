import Runbook.World

/-! # The invocation

The facts about one invocation of the program: they are shown when the user wants information, and they are given to
the children of a recipe as environment variables. -/

namespace Runbook

/-- What the program is called. -/
def programName : Text := "cb"

/-- The version of the program. -/
def programVersion : Text := "0.4.0"

/-- What the name of every variable begins with that the program reads from or adds to the environment. -/
def environmentHead : Text := "COOKBOOK_"

/-- One invocation: its words, the directories it uses, and the file that gets everything that is said, if any. -/
structure Invocation where
  words : List Text
  recipes : Text
  scripts : Text
  tee : Option Text
deriving Repr

/-- The name of the user: that of the login, or else the number of the user. -/
def Host.user (h : Host) : Text := h.login.getD (Text.ofNat h.uid)

/-- The name of the file that gets everything that is said. -/
def Host.teeName (h : Host) : Text := programName ++ "-" ++ h.timestamp ++ "-" ++ h.user ++ ".log"

namespace Invocation

/-- The facts that are shown, each with its label. -/
def facts (i : Invocation) (h : Host) (cwd : Text) : List (Text × Text) :=
  let tee : List (Text × Text) := (i.tee.map fun name => ("tee".toList, name)).toList
  let before : List (Text × Text) :=
    [("base", programName), ("cmd", Words.join i.words), ("directory", cwd), ("gid", Text.ofNat h.gid),
      ("host", h.hostname), ("numcpus", Text.ofNat h.cpus), ("os", h.platform), ("osver", h.system),
      ("pid", Text.ofNat h.pid), ("recipes", i.recipes), ("scripts", i.scripts)]
  let after : List (Text × Text) :=
    [("time", h.time), ("timestamp", h.timestamp), ("uid", Text.ofNat h.uid), ("user", h.user),
      ("version", programVersion)]
  before ++ tee ++ after

/-- Shows the facts. -/
def describe (i : Invocation) : Action Unit := do
  let w ← get
  Action.inform "context"
  (i.facts w.host w.files.cwd.toText).forM fun p => Action.inform ("   " ++ Text.padRight 9 p.1 ++ ": " ++ p.2)

/-- The facts that children are given, each with the name of its variable. -/
def environment (i : Invocation) (h : Host) (cwd : Text) : List (Text × Text) :=
  let named : List (Text × Text) :=
    [("BASE", programName), ("PID", Text.ofNat h.pid), ("PWD", cwd), ("RECIPES", i.recipes), ("SCRIPTS", i.scripts),
      ("TIMESTAMP", h.timestamp), ("USERNAME", h.user), ("VERSION", programVersion)]
  named.map fun p => (environmentHead ++ p.1, p.2)

/-- The environment of the children: that of the process, with the facts about the invocation. -/
def childEnvironment (i : Invocation) : Action Bindings := do
  let w ← get
  let added := i.environment w.host w.files.cwd.toText
  added.forM fun p => Action.inform ("built-in env var " ++ p.1 ++ "=" ++ p.2)
  return w.env.update added

end Invocation

end Runbook
