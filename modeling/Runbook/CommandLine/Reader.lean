import Runbook.CommandLine.Command

/-! # The program

The program does what its command line says. Who reads the command line is left open: a `Reader` says how the program is
set up and what is called with what, or replies by itself, be it with an error in the words or with help. -/

namespace Runbook.CommandLine

/-- How the program is set up: where recipes and scripts are, how much is shown, and whether a log is kept. -/
structure Settings where
  recipes : Text
  scripts : Text
  quiet : Bool
  verbose : Nat
  tee : Bool
deriving DecidableEq, Repr

/-- How much is shown: only errors if the program is to be quiet, else more with each `-v`. -/
def Settings.verbosity (s : Settings) : Verbosity :=
  if s.quiet then .quiet else min (Verbosity.normal + s.verbose) .debug

/-- What is written instead of doing what a command does, and the status for it. -/
structure Reply where
  events : List Event
  status : Nat
deriving DecidableEq, Repr

/-- Replies. That is not part of what the console says. -/
def Reply.give (r : Reply) : Action Nat := do
  modify fun w => { w with log := w.log ++ r.events }
  return r.status

/-- Who reads the command line. -/
structure Reader where
  /-- How the program is set up, and the words that are left, from the name of the command on. -/
  options : Host → Bindings → List Text → Except Reply (Settings × List Text)
  /-- The command that words name, with what it is called with. -/
  command : Host → Bindings → List Text → Except Reply Call
  /-- The reply to an interrupt that no command reports. -/
  aborted : Reply

/-- Opens the file that gets everything that is said. -/
def openTee (name : Text) : Action Unit := do
  if name.contains '\x00' then throw .nullCharacter
  let w ← get
  let p := Path.ofText name
  if w.files.isDenied p then throw (.file .denied name)
  match w.files.writePlace p with
  | .error e => throw (.file e name)
  | .ok place => set { w.withTree (w.files.tree.writeAt place []) with tee := some (.start place) }

/-- Makes the invocation that settings describe, and shows its facts. -/
def invoke (words : List Text) (s : Settings) : Action Invocation := do
  modify fun w => { w with verbosity := s.verbosity }
  let w ← get
  let tee := if s.tee then some w.host.teeName else none
  tee.forM openTee
  let i : Invocation := ⟨programName :: words, s.recipes, s.scripts, tee⟩
  i.describe
  return i

namespace Reader

/-- Does what the words say, an interrupt apart. -/
def dispatch (reader : Reader) (words : List Text) : Action Nat := do
  let w ← get
  match reader.options w.host w.env words with
  | .error reply => reply.give
  | .ok (settings, rest) =>
    let i ← invoke words settings
    match reader.command w.host w.env rest with
    | .error reply => reply.give
    | .ok call => call.perform i

/-- Does what the words say, and gives the status the program ends with. -/
def run (reader : Reader) (words : List Text) : Action Nat := fun w =>
  match reader.dispatch words w with
  | .error .interrupted w => reader.aborted.give w
  | r => r

end Reader

end Runbook.CommandLine
