import Runbook.Text.Likeness
import Runbook.Text.Listing

/-! # Options

Reading the options of a command. A long option is written `--name`, or `--name=value` if it takes a value; short
options may stand together after one hyphen, and the last of them may take the rest, or the next word, as its value.
`--` ends the options. A command may pass on what it does not know, and may take its options only before its first
argument. -/

namespace Runbook.CommandLine

/-- What an option is about. -/
inductive Topic
  | recipes
  | scripts
  | quiet
  | verbose
  | tee
  | debug
  | version
  | silent
  | help
deriving DecidableEq, Repr

/-- An option: what it is about, its letter and its name, and whether it takes a value. -/
structure Flag where
  topic : Topic
  letter : Option Char
  name : Text
  takesValue : Bool

/-- How a command reads its words: the options it knows, whether it passes on those it does not know, and whether
    options may stand after arguments. -/
structure Grammar where
  options : List Flag
  passesOn : Bool
  mixes : Bool

/-- What is wrong with the words of a command. -/
inductive UsageError
  /-- An option is not known; `similar` are the names like it of options that are. -/
  | unknownOption (written : Text) (similar : List Text)
  | needsValue (written : Text)
  | takesNoValue (written : Text)
  | unknownCommand (name : Text)
  | missingCommand
  | missingArgument (label : Text)
  | extraArguments (words : List Text)
deriving DecidableEq, Repr

/-- What is said of the names that may have been meant. -/
def hint : List Text → Text
  | [] => []
  | [name] => " Did you mean " ++ name ++ "?"
  | names => " (Possible options: " ++ Text.joinWith ", " names ++ ")"

/-- The words about a usage error. -/
def UsageError.message : UsageError → Text
  | .unknownOption written similar => "No such option: " ++ written ++ hint similar
  | .needsValue written => "Option " ++ Text.Listing.showText written ++ " requires an argument."
  | .takesNoValue written => "Option " ++ Text.Listing.showText written ++ " does not take a value."
  | .unknownCommand name => "No such command " ++ Text.Listing.showText name ++ "."
  | .missingCommand => "Missing command."
  | .missingArgument label => "Missing argument '" ++ label ++ "'."
  | .extraArguments [word] => "Got unexpected extra argument (" ++ word ++ ")"
  | .extraArguments words => "Got unexpected extra arguments (" ++ Text.joinWith " " words ++ ")"

/-- What is known after some words: the options given, in order, each with its value, and the arguments. -/
structure Given where
  options : List (Topic × Text)
  arguments : List Text
deriving Repr

namespace Given

/-- With an option before the others. -/
def withOptions (options : List (Topic × Text)) (g : Given) : Given := { g with options := options ++ g.options }

/-- With arguments before the others. -/
def withArguments (arguments : List Text) (g : Given) : Given := { g with arguments := arguments ++ g.arguments }

/-- How often an option is given. -/
def count (g : Given) (topic : Topic) : Nat := g.options.countP fun p => p.1 == topic

/-- Whether an option is given. -/
def has (g : Given) (topic : Topic) : Bool := g.options.any fun p => p.1 == topic

/-- The last value of an option. -/
def value? (g : Given) (topic : Topic) : Option Text := (g.options.reverse.find? fun p => p.1 == topic).map Prod.snd

end Given

/-- What one word that looks like an option says: the options in it, the word that is passed on, and the option that
    still needs its value, as it is written. -/
structure WordParts where
  options : List (Topic × Text)
  passed : List Text
  pending : Option (Topic × Text)

namespace Grammar

/-- What a group of letters says. `unknown` are the letters met that are passed on. -/
def readLetters (g : Grammar) : (unknown : Text) → Text → Except UsageError WordParts
  | unknown, [] => .ok ⟨[], if unknown.isEmpty then [] else ['-' :: unknown], none⟩
  | unknown, c :: rest =>
    match g.options.find? fun o => o.letter == some c with
    | none => if g.passesOn then readLetters g (unknown ++ [c]) rest else .error (.unknownOption ['-', c] [])
    | some o =>
      let passed := if unknown.isEmpty then [] else ['-' :: unknown]
      if o.takesValue then
        if rest.isEmpty then .ok ⟨[], passed, some (o.topic, ['-', c])⟩ else .ok ⟨[(o.topic, rest)], passed, none⟩
      else (readLetters g unknown rest).map fun r => { r with options := (o.topic, []) :: r.options }

/-- What a word says that looks like an option. -/
def readWord (g : Grammar) (word : Text) : Except UsageError WordParts :=
  let (written, value?) := Text.cut '=' word
  match g.options.find? fun o => o.name == written, value? with
  | some o, some value =>
    if o.takesValue then .ok ⟨[(o.topic, value)], [], none⟩ else .error (.takesNoValue written)
  | some o, none => .ok (if o.takesValue then ⟨[], [], some (o.topic, written)⟩ else ⟨[(o.topic, [])], [], none⟩)
  | none, _ =>
    if !Text.startsWith "--" word then g.readLetters [] (word.drop 1)
    else if g.passesOn then .ok ⟨[], [word], none⟩
    else .error (.unknownOption written (Text.suggestions written (g.options.map Flag.name)))

/-- Whether a word looks like an option. -/
def looksLikeOption (word : Text) : Bool := Text.startsWith "-" word && 1 < word.length

/-- Reads the words of a command. -/
def read (g : Grammar) : List Text → Except UsageError Given
  | [] => .ok ⟨[], []⟩
  | word :: rest =>
    if word = "--".toList then .ok ⟨[], rest⟩
    else if looksLikeOption word then
      match g.readWord word with
      | .error e => .error e
      | .ok r =>
        match r.pending with
        | none => (read g rest).map fun given => (given.withOptions r.options).withArguments r.passed
        | some (topic, written) =>
          match rest with
          | [] => .error (.needsValue written)
          | value :: rest =>
            (read g rest).map fun given => (given.withOptions (r.options ++ [(topic, value)])).withArguments r.passed
    else if g.mixes then (read g rest).map (Given.withArguments [word])
    else .ok ⟨[], word :: rest⟩

end Grammar

end Runbook.CommandLine
