import Runbook.Bindings
import Runbook.Directive
import Runbook.Line

/-! # Recipes

A recipe is a description, variables with their defaults and the steps to run. A variable without a default is one the
user has to give. -/

namespace Runbook

/-- A step: what it does, the text it does it with, and the line it was written in, if it comes from a file. -/
structure Step where
  directive : Directive
  data : Text
  source : Option Line
deriving DecidableEq, Repr

/-- A recipe: its name, the absolute path of its file, a brief and a full description, the variables in the order of
    their declarations, and the steps. -/
structure Recipe where
  name : Text
  path : Text
  brief : Text
  full : Text
  defaults : Bindings
  steps : List Step
deriving DecidableEq, Repr

/-- The names of the variables that have no default, in ascending order. -/
def Recipe.required (r : Recipe) : List Text :=
  Text.sort ((r.defaults.filter fun p => p.2.isEmpty).map Prod.fst)

end Runbook
