import Runbook.CommandLine.Syntax
import Runbook.Text.Wrap

/-! # Help

The options of the program itself, its usage lines and its help pages. A page has the usage line, what the program or
the command does, and tables of the options and the commands, each row with what it is about beside it. Pages are as
wide as the terminal, but no wider than eighty columns and no narrower than fifty-two, of which two stay free. -/

namespace Runbook.CommandLine

/-- The options that come before the command. -/
def mainGrammar : Grammar where
  options := [
    ⟨.recipes, some 'r', "--recipes", true⟩,
    ⟨.scripts, none, "--script-dir", true⟩,
    ⟨.quiet, some 'q', "--quiet", false⟩,
    ⟨.verbose, some 'v', "--verbose", false⟩,
    ⟨.tee, some 't', "--tee", false⟩,
    ⟨.debug, none, "--debug", false⟩,
    ⟨.version, none, "--version", false⟩,
    Command.helpFlag]
  passesOn := false
  mixes := false

/-- The usage line of the program or of a command. -/
def usage (command : Option Command) : Text :=
  match command with
  | none => programName ++ " [OPTIONS] COMMAND [ARGS]..."
  | some c => programName ++ " " ++ c.name ++ " " ++ c.synopsis

/-- The words that call the program or a command. -/
def callName (command : Option Command) : Text :=
  match command with
  | none => programName
  | some c => programName ++ " " ++ c.name

/-- What an option is about, with its value if it is not given. -/
def Topic.about (h : Host) : Topic → Text
  | .recipes => "Directory that contains the recipes  [default: " ++ h.recipes ++ "]"
  | .scripts => "Scratch directory for anonymous scripts  [default: " ++ h.scripts ++ "]"
  | .quiet => "Only report errors"
  | .verbose => "More output (-v info, -vv debug)"
  | .tee => "Mirror all output to a log file"
  | .debug => "Enable debug mode (show stack traces and detailed output)"
  | .version => "Show the version and exit."
  | .silent => "Do not echo the command output"
  | .help => "Show this message and exit."

/-- How an option is written. -/
def Flag.form (o : Flag) : Text :=
  let letter : Text := match o.letter with
    | none => []
    | some c => ['-', c] ++ ", "
  letter ++ o.name ++ (if o.takesValue then " TEXT" else "")

/-- What a command does, in paragraphs. -/
def Command.about : Command → List Text
  | .run => ["Run RECIPE, setting its variables with --<name> <value>."]
  | .list => ["List all recipes with their brief descriptions."]
  | .describe => ["Show the full description and the variables of RECIPE."]
  | .flatten => ["Print RECIPE with all includes expanded."]
  | .exec => [
    "Run a single command the way recipe steps run it.",
    "Example:     cb -v exec /bin/bash -c 'echo -e \"this is a \\ntest\"'"]

/-- What the program does. -/
def programAbout : Text := "cookbook - run recipes of build and operations steps."

/-- A table of a help page: its heading, and the rows, each with a name and what it is about. -/
structure Table where
  heading : Text
  rows : List (Text × Text)

/-- A help page. -/
structure Page where
  synopsis : Text
  paragraphs : List Text
  tables : List Table

/-- What stands before every line below the usage line and the headings. -/
def indent : Text := "  "

namespace Table

/-- The lines of a row in a table whose names are given `column` characters. -/
def rowLines (width column : Nat) (row : Text × Text) : List Text :=
  match Text.wrap (max (width - column - indent.length) 10) row.2 with
  | [] => [indent ++ row.1]
  | first :: rest =>
    (indent ++ Text.padRight column row.1 ++ first) ::
      rest.map fun line => indent ++ Text.padRight column [] ++ line

/-- The lines of a table. -/
def lines (width : Nat) (t : Table) : List Text :=
  let column := (t.rows.map (·.1.length)).foldl max 0 + 2
  (t.heading ++ ":") :: t.rows.flatMap (rowLines width column)

end Table

namespace Page

/-- The table of options. -/
def optionTable (h : Host) (options : List Flag) : Table := ⟨"Options", options.map fun o => (o.form, o.topic.about h)⟩

/-- The table of commands, in ascending order of their names, each with the first sentence about it. -/
def commandTable (width : Nat) : Table :=
  let longest := (Command.all.map (·.name.length)).foldl max 0
  let row := fun (c : Command) => (c.name, Text.abridge (width - 6 - longest) (Text.joinWith " " (c.about.take 1)))
  ⟨"Commands", Bindings.sorted (Command.all.map row)⟩

/-- The help page of the program or of a command, for the given width. -/
def of (h : Host) (command : Option Command) (width : Nat) : Page :=
  match command with
  | none => ⟨usage none, [programAbout], [optionTable h mainGrammar.options, commandTable width]⟩
  | some c => ⟨usage c, c.about, [optionTable h c.grammar.options]⟩

/-- The text of a page; a free line stands between its parts. -/
def render (width : Nat) (p : Page) : Text :=
  let paragraph := fun s => (Text.wrap (width - indent.length) s).map (indent ++ ·)
  let parts := ["Usage: " ++ p.synopsis] :: p.paragraphs.map paragraph ++ p.tables.map (Table.lines width)
  Text.joinWith "\n\n" (parts.map (Text.joinWith "\n"))

end Page

/-- The number a text writes in decimal digits, which may be grouped by underscores; blanks around it and a sign do not
    matter, but nothing is below zero. -/
def readColumns (s : Text) : Option Nat :=
  let s := Text.trim s
  let (negative, digits) := match s with
    | '-' :: rest => (true, rest)
    | '+' :: rest => (false, rest)
    | rest => (false, rest)
  let groups := Text.splitOn '_' digits
  if groups.all fun g => !g.isEmpty && g.all Char.isDigit then
    some (if negative then 0 else groups.flatten.foldl (fun n c => n * 10 + (c.toNat - '0'.toNat)) 0)
  else none

/-- The columns of the terminal, as the environment has them. -/
def columns (env : Bindings) : Nat :=
  match (env.get? "COLUMNS").bind readColumns with
  | none | some 0 => 80
  | some n => n

/-- How wide help pages are. -/
def pageWidth (env : Bindings) : Nat := max (min (columns env) 80 - 2) 50

end Runbook.CommandLine
