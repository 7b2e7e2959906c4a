import Runbook.CommandLine.Help
import Runbook.CommandLine.Reader
import Runbook.Text.Alphanumeric

/-! # The command line

The reader the program is run with. The options of the program come before the command and are taken from the environment
where they are not given. An error in the words is shown with the usage of the command it belongs to and ends the program
with status 2. -/

namespace Runbook.CommandLine

/-- Whether the usage is shown with an error: not if an option lacks its value or has one too many. -/
def showsUsage : UsageError → Bool
  | .needsValue _ | .takesNoValue _ => false
  | _ => true

/-- The reply to an error in the words. -/
def Reply.usage (command : Option Command) (e : UsageError) : Reply where
  events := (if showsUsage e then
      [.err ("Usage: " ++ CommandLine.usage command ++ "\nTry '" ++ callName command ++ " -h' for help.\n")] else []) ++
    [.err ("Error: " ++ e.message)]
  status := 2

/-- The help page of the program or of a command. -/
def Reply.help (h : Host) (env : Bindings) (command : Option Command) : Reply where
  events := [.out ((Page.of h command (pageWidth env)).render (pageWidth env))]
  status := 0

/-- The version of the program. -/
def Reply.version : Reply := ⟨[.out (programName ++ ", version " ++ programVersion)], 0⟩

/-- A setting: the value of its option, else of its environment variable if that is not empty, else the default. -/
def setting (given : Given) (topic : Topic) (env : Bindings) (key default : Text) : Text :=
  match given.value? topic with
  | some value => value
  | none =>
    match env.get? (environmentHead ++ key) with
    | some value => if value.isEmpty then default else value
    | none => default

/-- How the program is set up by the options given. -/
def Given.settings (given : Given) (h : Host) (env : Bindings) : Settings where
  recipes := setting given .recipes env "RECIPES" h.recipes
  scripts := setting given .scripts env "SCRIPTS" h.scripts
  quiet := given.has .quiet
  verbose := given.count .verbose
  tee := given.has .tee

/-- Whether a word that is no command is taken for a question how to use the program: whether it begins with a
    character that is neither a letter nor a numeral. -/
def asksForHelp (word : Text) : Bool :=
  match word with
  | [] => false
  | c :: _ => !Text.isAlphanumeric c

namespace Reader

/-- Reads the options of the program. -/
def readOptions (h : Host) (env : Bindings) (words : List Text) : Except Reply (Settings × List Text) :=
  match mainGrammar.read words with
  | .error e => .error (.usage none e)
  | .ok given =>
    match given.options.find? fun p => p.1 == .version || p.1 == .help with
    | some (.version, _) => .error .version
    | some _ => .error (.help h env none)
    | none =>
      match given.arguments with
      | [] => .error (if words.isEmpty then .help h env none else .usage none .missingCommand)
      | name :: _ =>
        if (Command.ofName? name).isSome then .ok (given.settings h env, given.arguments)
        else .error (if asksForHelp name then .help h env none else .usage none (.unknownCommand name))

/-- Reads the words from the name of the command on. -/
def readCommand (h : Host) (env : Bindings) (words : List Text) : Except Reply Call :=
  match words with
  | [] => .error (.usage none .missingCommand)
  | name :: rest =>
    match Command.ofName? name with
    | none => .error (.usage none (.unknownCommand name))
    | some command =>
      match command.read rest with
      | .error e => .error (.usage (some command) e)
      | .ok given =>
        if given.has .help then .error (.help h env (some command))
        else match command.call? given with
          | some call => .ok call
          | none => .error (.usage (some command) (.missingArgument command.label))

/-- The reader of the program. -/
def standard : Reader := ⟨readOptions, readCommand, ⟨[.err "", .err "Aborted!"], 1⟩⟩

end Reader

/-- Does what the words say, and gives the status the program ends with. -/
def run (words : List Text) : Action Nat := Reader.standard.run words

end Runbook.CommandLine
