import Runbook.Path

/-! # Resolving links

The path a path stands for when every link on it is replaced by its target. Nothing need stand where the path leads: a
name that is no link is kept, and `..` takes back the name before it, without looking whether that is a directory. A
relative path stays relative while it is resolved, so `..` may pile up at its beginning. A link that is met a second
time leads where it led the first time; one that is met while its own target is being resolved ends the search, and what
was found so far is then followed by what is left, as it is written. -/

namespace Runbook.Path

/-- How the resolving of a path ends. -/
inductive Resolution
  /-- At a path without links. -/
  | done (p : Path)
  /-- In a circle of links: at what was found with what was left. -/
  | circle (written : Text)
  /-- At a link inside too many others. -/
  | tooDeep
deriving DecidableEq, Repr

/-- The links met so far, the latest first: the path each leads to, or nothing while it is being resolved. -/
abbrev Visited := List (Path × Option Path)

/-- The path one name further, or one name back for `..`. -/
def step (here : Path) (name : Text) : Path :=
  { here with names := collapseStep here.isAbsolute here.names name }

/-- Goes on from a path without links through the parts of a text between its slashes. `target?` gives the target of
    the link at a path, and `follow` resolves a target, seen from the path the link is in. -/
def resolveWith (target? : Path → Option Text) (follow : Visited → Path → Text → Visited × Resolution) :
    Visited → Path → List Text → Visited × Resolution
  | visited, here, [] => (visited, .done here)
  | visited, here, name :: rest =>
    if name.isEmpty || name = ['.'] then resolveWith target? follow visited here rest
    else
      let next := here.step name
      match if name = ['.', '.'] then none else target? next with
      | none => resolveWith target? follow visited next rest
      | some target =>
        let left := Text.joinWith "/" rest
        match List.lookup next visited with
        | some (some there) => resolveWith target? follow visited there rest
        | some none => (visited, .circle (joinText next.toText left))
        | none =>
          match follow ((next, none) :: visited) here target with
          | (visited, .done there) => resolveWith target? follow ((next, some there) :: visited) there rest
          | (visited, .circle written) => (visited, .circle (joinText written left))
          | (visited, .tooDeep) => (visited, .tooDeep)

/-- Resolves a text, seen from a path without links; `depth` bounds how many links can be inside one another. -/
def resolveFrom (target? : Path → Option Text) :
    (depth : Nat) → Visited → Path → Text → Visited × Resolution
  | 0, visited, _, _ => (visited, .tooDeep)
  | depth + 1, visited, here, text =>
    resolveWith target? (resolveFrom target? depth) visited
      (if Text.startsWith "/" text then ⟨.root, []⟩ else here) (Text.splitOn '/' text)

/-- How many links can be inside one another. -/
def maxDepth : Nat := 980

/-- Resolves a path; `target?` gives the target of the link at a path. -/
def resolve (target? : Path → Option Text) (p : Path) : Resolution :=
  (resolveFrom target? maxDepth [] ⟨.relative, []⟩ p.toText).2

end Runbook.Path
