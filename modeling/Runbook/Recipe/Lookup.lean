import Runbook.Include
import Runbook.Recipe.Parser
import Runbook.World

/-! # Finding and loading recipes

A recipe is referred to by the path of its file or by its name. The path of an existing file is taken as it is;
otherwise the suffix `.ini` is added if it is missing, and a relative reference is sought in the recipe directory unless
it begins with `./` or `../`. -/

namespace Runbook.Recipe

/-- What the name of a recipe file ends with. -/
def suffix : Text := ".ini"

/-- The files of a world; the opening of a file is said. -/
def view : View World := ⟨World.files, fun path w => w.say (.debug ("reading recipe file " ++ path))⟩

/-- Reads the logical lines of the file at a path, whose name in messages is `source`. -/
def readLines (source : Text) (p : Path) : Action (List Line) := do
  Include.read view [] source (← Action.expandHome p)

/-- The path of the file a reference means. -/
def locate (reference recipeDir : Text) : Action Path := do
  if reference.isEmpty then throw (.load .emptyReference)
  let p ← Action.expandHome (Path.ofText reference)
  if ← Action.orFault p ((← get).files.isFile p) then return p
  let name := p.toText
  let hasSuffix := Text.endsWith suffix name
  if !hasSuffix then Action.inform ("appending extension: '" ++ suffix ++ "'")
  let candidate := Path.ofText (if hasSuffix then name else name ++ suffix)
  if candidate.isAbsolute || Text.startsWith "./" reference || Text.startsWith "../" reference then return candidate
  Action.inform ("prepending directory path: '" ++ recipeDir ++ "'")
  return (Path.ofText recipeDir).join candidate

/-- The recipe of the file at a path. -/
def loadFile (p : Path) : Action Recipe := do
  let lines ← readLines p.toText p
  match Recipe.ofFile (← get).files.cwd p lines with
  | .ok r => return r
  | .error e => throw (.load e)

/-- The recipe a reference means. -/
def load (reference recipeDir : Text) : Action Recipe := do
  Action.inform ("loading recipe '" ++ reference ++ "'")
  let p ← locate reference recipeDir
  Action.inform ("recipe file '" ++ p.toText ++ "'")
  loadFile p

/-- The paths in a directory that end like recipe files, in ascending order of their names. -/
def pathsIn (files : Files) (directory : Path) : List Path :=
  (Text.sort ((files.list directory).filter (Text.endsWith suffix))).map directory.child

/-- The recipe of the file at a path, if there is a file. -/
def loadFile? (p : Path) : Action (Option Recipe) := do
  if ← Action.orFault p ((← get).files.isFile p) then return some (← loadFile p)
  return none

/-- The recipes of all the files in a directory. -/
def loadAll (recipeDir : Text) : Action (List Recipe) := do
  let directory := Path.ofText recipeDir
  let files := (← get).files
  if !(← Action.orFault directory (files.isDirectory directory)) then
    throw (.load (.missingDirectory directory.toText))
  let recipes ← (pathsIn files directory).mapM loadFile?
  return recipes.filterMap id

end Runbook.Recipe
