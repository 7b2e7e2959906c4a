import Runbook.Bindings
import Runbook.Text.Listing
import Runbook.Text.Replace

/-! # Variables

A variable is referred to by its name in braces after a dollar sign. Before a recipe runs, its defaults are overridden
by the pairs `--name value` the user gives, every variable must have a value, and references between the values are
replaced in one pass in the order of declaration. While it runs, the references in the text of a step are replaced by
the values the variables have then; a reference to no variable stays. -/

namespace Runbook

/-- Why the variables of a recipe cannot be set. -/
inductive VariableError
  /-- An override names no variable; the flags that would are given in ascending order. -/
  | unknownFlag (flag : Text) (valid : List Text)
  /-- The last flag has no value. -/
  | missingValue (flag : Text)
  /-- Variables that have no value, in ascending order. -/
  | unset (names : List Text)
deriving DecidableEq, Repr

/-- The words about an error. -/
def VariableError.message : VariableError → Text
  | .unknownFlag flag [] => "invalid option specified '" ++ flag ++ "', there are no valid options"
  | .unknownFlag flag valid =>
    "invalid option specified '" ++ flag ++ "', valid options are " ++ Text.Listing.showList valid
  | .missingValue flag => "missing argument for '" ++ flag ++ "'"
  | .unset names =>
    "unset variables found, cannot continue: " ++ Text.joinWith ", " (names.map fun name => "--" ++ name)

namespace Variables

/-- The reference to a variable. -/
def reference (name : Text) : Text := ['$', '\x7b'] ++ name ++ ['\x7d']

/-- The flag that overrides a variable. -/
def flag (name : Text) : Text := "--" ++ name

/-- The variable a flag overrides. -/
def ofFlag? (values : Bindings) (opt : Text) : Option Text := values.names.find? fun name => flag name == opt

/-- Overrides values by the pairs of a flag and a value, from the left. -/
def override (values : Bindings) : List Text → Except VariableError Bindings
  | [] => .ok values
  | opt :: rest =>
    match ofFlag? values opt, rest with
    | none, _ => .error (.unknownFlag opt (Text.sort (values.names.map flag)))
    | some _, [] => .error (.missingValue opt)
    | some name, value :: rest => override (Bindings.set name value values) rest

/-- The names that have no value, in ascending order. -/
def unset (values : Bindings) : List Text := Text.sort ((values.filter fun p => p.2.isEmpty).map Prod.fst)

/-- Replaces the references to one variable in the values of all the others. -/
def pushInto (values : Bindings) (name : Text) : Bindings :=
  let value := (values.get? name).getD []
  values.map fun p => (p.1, if p.1 = name then p.2 else Text.replace (reference name) value p.2)

/-- Replaces the references between the values: each variable in turn, with the value it has then. -/
def substituteBetween (values : Bindings) : Bindings := values.names.foldl pushInto values

/-- The values of the declared variables with the overrides. -/
def resolve (declared : Bindings) (overrides : List Text) : Except VariableError Bindings :=
  match override declared overrides with
  | .error e => .error e
  | .ok values =>
    match unset values with
    | [] => .ok (substituteBetween values)
    | names => .error (.unset names)

/-- Replaces the references in a text, one variable after the other. -/
def substitute (text : Text) (values : Bindings) : Text :=
  values.foldl (fun text p => Text.replace (reference p.1) p.2 text) text

end Variables

end Runbook
