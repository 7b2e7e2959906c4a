import Runbook.CommandLine
import Runbook.Rehearsal

/-! # The program

The program does what the words of its command line say, as a rehearsal: it says all that a run would say, but starts no
command and writes no file. The paths of the files it may see are read from the standard input, one a line. -/

namespace Runbook.Main

/-- The variables of the environment the program looks at. -/
def environmentNames : List String :=
  ["HOME", "PWD", "LOGNAME", "USER", "LNAME", "USERNAME", "COOKBOOK_RECIPES", "COOKBOOK_SCRIPTS"]

/-- The lines of a stream up to its end, without the line feeds. -/
partial def readLines (stream : IO.FS.Stream) : IO (List Text) := do
  let line ← stream.getLine
  if line.isEmpty then return []
  let lines ← readLines stream
  return line.toList.filter (· != '\n') :: lines

/-- A variable of the environment, if it is set. -/
def readVariable (name : String) : IO Bindings := do
  match ← IO.getEnv name with
  | none => return []
  | some value => return [(name.toList, value.toList)]

/-- The file at a path with its content, if it can be read. -/
def readFile (path : Text) : IO (List (Text × List UInt8)) := do
  try
    let content ← IO.FS.readBinFile (String.ofList path)
    return [(path, content.toList)]
  catch _ => return []

/-- Writes an event to the channel it is for. -/
def write (e : Event) : IO Unit :=
  match e.channel with
  | .out => IO.println (String.ofList e.text)
  | .err => IO.eprintln (String.ofList e.text)

/-- Writes what a run has said, and gives the status the program ends with; a fault that no command reports is
    shown. -/
def finish : EStateM.Result Fault World Nat → IO UInt32
  | .ok status w => do
    w.log.forM write
    return UInt32.ofNat status
  | .error e w => do
    w.log.forM write
    write (.err e.message)
    return 1

end Runbook.Main

section

open Runbook

/-- Rehearses what the words of the command line say. -/
def main (words : List String) : IO UInt32 := do
  let env : Bindings := (← Main.environmentNames.mapM Main.readVariable).flatten
  let files ← (← Main.readLines (← IO.getStdin)).mapM Main.readFile
  let world := Rehearsal.world ((env.get? "PWD").getD "/") env files.flatten
  Main.finish (CommandLine.run (words.map String.toList) world)

end
