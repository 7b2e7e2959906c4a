import Runbook.Line
import Runbook.Text.Quoted
import Runbook.Text.Utf8
import Runbook.Words

/-! # Why a recipe does not load

Every cause for which the files of a recipe cannot be read or do not make a recipe, and the words about it. A cause
that belongs to a line carries the line. -/

namespace Runbook

/-- What is wrong with the text of a line. -/
inductive SyntaxError
  /-- The path of an include has a quote that is never closed. -/
  | includeQuote (e : Words.Unclosed)
  /-- An include does not name exactly one path. -/
  | includeArity
  | unknownSection (header : Text)
  /-- A line stands before the first section. -/
  | orphan (text : Text)
  | missingEquals (text : Text)
  /-- A section does not allow the key. -/
  | unexpectedKey (key sectionName : Text)
  | variableName (name : Text)
  | quotedValue (text : Text) (flaw : Text.Quoted.Flaw)
  | missingDirective
  | missingData (word : Text)
deriving DecidableEq, Repr

/-- The words about an error in a line. -/
def SyntaxError.message : SyntaxError → Text
  | .includeQuote e => "syntax error in include statement (" ++ e.message ++ ")"
  | .includeArity => "syntax error in include statement, expected exactly one path"
  | .unknownSection header => "invalid section found: " ++ header
  | .orphan text => "orphan declaration '" ++ text ++ "'"
  | .missingEquals text => "syntax error, missing '=' in '" ++ text ++ "'"
  | .unexpectedKey key sectionName =>
    "syntax error, found invalid declaration '" ++ key ++ "' in section '" ++ sectionName ++ "'"
  | .variableName name => "invalid variable name '" ++ name ++ "'"
  | .quotedValue text flaw => "invalid quoted string " ++ text ++ " (" ++ flaw.reason ++ ")"
  | .missingDirective => "step has no directive"
  | .missingData word => "step directive '" ++ word ++ "' has no data"

/-- What a recipe cannot do without. -/
inductive RecipePart
  | brief
  | full
  | steps
deriving DecidableEq, Repr

/-- Why a recipe does not load. -/
inductive LoadError
  | malformed (cause : SyntaxError) (line : Line)
  | unknownDirective (word : Text) (line : Line)
  /-- An `export` step sets nothing. -/
  | malformedExport (line : Line)
  /-- The block that a line opens is not closed. -/
  | openBlock (line : Line)
  | notUtf8 (flaw : Utf8.Flaw) (line : Line)
  | incomplete (part : RecipePart) (name : Text)
  | emptyReference
  | missingDirectory (path : Text)
  | missingFile (path : Text) (includedAt : Option Line)
  | unreadableFile (path : Text) (includedAt : Option Line)
  /-- A file is included while it is being read; the chain names the files from the first one on. -/
  | cycle (chain : List Text) (includedAt : Option Line)
deriving DecidableEq, Repr

namespace LoadError

/-- A message about a line. -/
def atLine (message : Text) (line : Line) : Text := message ++ " at " ++ line.position

/-- A message about a file, with the line that includes it. -/
def atInclude (message : Text) : Option Line → Text
  | none => message
  | some line => message ++ " (included at " ++ line.position ++ ")"

/-- The lines of a chain, numbered from zero. -/
def chainLines (chain : List Text) : List Text :=
  chain.mapIdx fun i path => "  " ++ Text.padLeft 3 (Text.ofNat i) ++ " " ++ path

/-- The words about an error. -/
def message : LoadError → Text
  | .malformed cause line => atLine cause.message line
  | .unknownDirective word line => atLine ("unknown step directive '" ++ word ++ "'") line
  | .malformedExport line => atLine "export is of the form VAR=VAL, could not find '='" line
  | .openBlock line => atLine "end of multi-line string not found, string starts" line
  | .notUtf8 flaw line => atLine ("recipe file is not valid UTF-8 (" ++ flaw.reason ++ ")") line
  | .incomplete .brief name => "[description] brief not set for " ++ name
  | .incomplete .full name => "[description] full not set for " ++ name
  | .incomplete .steps name => "no steps defined in the [step] section for " ++ name
  | .emptyReference => "null recipes not allowed: "
  | .missingDirectory path => "cannot read recipes directory: " ++ path
  | .missingFile path included => atInclude ("recipe file does not exist: " ++ path) included
  | .unreadableFile path included => atInclude ("cannot read recipe file (Permission denied): " ++ path) included
  | .cycle chain included =>
    let found : Text := "nested include found - infinite recursion"
    let head := match included with
      | none => found
      | some line => atLine found line
    Text.joinWith "\n" (head :: "include chain:".toList :: chainLines chain)

end LoadError

end Runbook
