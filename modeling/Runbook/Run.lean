import Runbook.Recipe.Lookup
import Runbook.Step

/-! # Running recipes

Running a recipe: its variables are set from the overrides, the context is made, and the steps are run in order up to
the first that fails. -/

namespace Runbook.Recipe

/-- Does in a session made for it what a run does, and keeps the world. -/
def inContext {α : Type} (context : Context) (act : Run α) : Action α := fun world =>
  match act { world, context } with
  | .ok a s => .ok a s.world
  | .error e s => .error e s.world

/-- Runs a recipe with overrides for its variables. -/
def run (r : Recipe) (overrides : List Text) (scriptDir : Text) (start : Option Text) (env : Bindings) :
    Action (List StepResult) := do
  match Variables.resolve r.defaults overrides with
  | .error e => throw (.unresolved e)
  | .ok values =>
    values.sorted.forM fun p => Action.say (.debug ("variable " ++ p.1 ++ " = " ++ p.2))
    let context ← Context.create values scriptDir start env
    Action.say (.recipeStarted r.name r.path r.steps.length)
    inContext context (Step.runAll r.steps)

end Runbook.Recipe
