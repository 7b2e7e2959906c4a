import Runbook.Text

/-! # Paths

A path is where it starts and the names it goes through. Reading a text as a path drops the empty names and the names
`.`, and keeps `..`; a path that begins with exactly two slashes keeps both, any other absolute path has one. Two
texts that differ only in this are the same path. `collapse` also takes `..` back with the name before it, without
looking at any file. -/

namespace Runbook

/-- Where a path starts. -/
inductive Anchor
  /-- The working directory. -/
  | relative
  /-- The root. -/
  | root
  /-- The root, written with two slashes. -/
  | doubled
deriving DecidableEq, Repr

/-- A path: where it starts, and its names. -/
structure Path where
  anchor : Anchor
  names : List Text
deriving DecidableEq, Repr

namespace Path

/-- What an absolute path begins with. -/
def Anchor.slashes : Anchor → Text
  | .relative => []
  | .root => "/"
  | .doubled => "//"

/-- Where a text starts as a path. -/
def anchorOf : Text → Anchor
  | '/' :: '/' :: '/' :: _ => .root
  | '/' :: '/' :: _ => .doubled
  | '/' :: _ => .root
  | _ => .relative

/-- The names in a text, without the empty ones and `.`. -/
def namesOf (s : Text) : List Text := (Text.splitOn '/' s).filter (fun n => !n.isEmpty && n != ['.'])

/-- The path a text denotes. -/
def ofText (s : Text) : Path := ⟨anchorOf s, namesOf s⟩

/-- The text of a path; the path without a name is `.`. -/
def toText (p : Path) : Text :=
  match p.anchor, p.names with
  | .relative, [] => "."
  | _, _ => Anchor.slashes p.anchor ++ Text.joinWith "/" p.names

/-- Whether a path starts at the root. -/
def isAbsolute (p : Path) : Bool := p.anchor != .relative

/-- The path `q`, seen from `p`. -/
def join (p q : Path) : Path := if q.isAbsolute then q else { p with names := p.names ++ q.names }

/-- The path one name further. -/
def child (p : Path) (name : Text) : Path := { p with names := p.names ++ [name] }

/-- The path one name shorter; a path without names is its own parent. -/
def parent (p : Path) : Path := { p with names := p.names.dropLast }

/-- The last name, or nothing. -/
def lastName (p : Path) : Text := p.names.getLast?.getD []

/-- The last name without its extension: without its last dot and what follows, unless the dot is the first or the last
    character. -/
def stem (p : Path) : Text :=
  let name := p.lastName
  match (name.reverse.dropWhile (· != '.')).reverse with
  | [] => name
  | upToDot => if upToDot.length = 1 || upToDot.length = name.length then name else upToDot.dropLast

/-- Adds a name to names in which `..` has been taken back: `..` takes the last name away, unless there is none or it
    is `..` itself. At the root `..` has no effect. -/
def collapseStep (absolute : Bool) (done : List Text) (name : Text) : List Text :=
  if name = ['.', '.'] then
    match done.getLast? with
    | none => if absolute then done else done ++ [name]
    | some last => if last = ['.', '.'] then done ++ [name] else done.dropLast
  else done ++ [name]

/-- The path with `..` taken back by name alone. -/
def collapse (p : Path) : Path := { p with names := p.names.foldl (collapseStep p.isAbsolute) [] }

/-- The path made absolute from the directory `cwd`, by name alone. -/
def absolute (p cwd : Path) : Path := (cwd.join p).collapse

/-- The directory part of an absolute path without `..`. -/
def directory (p : Path) : Path := p.parent

/-- The text of `reference` seen from the directory with text `base`: as it stands if it starts with a slash. -/
def joinText (base reference : Text) : Text :=
  if Text.startsWith "/" reference || base.isEmpty then reference
  else if Text.endsWith "/" base then base ++ reference
  else base ++ "/" ++ reference

end Path

/-- The homes `~` stands for: that of the process, as its environment names it, and those of the known accounts. An account
    without a home is one that may not even be asked for, as none may whose name holds U+0000. -/
structure Homes where
  own : Text
  accounts : List (Text × Option Text)
deriving Repr

namespace Homes

/-- Whether a text begins with an account that may not be asked for. -/
def refuses (homes : Homes) : Text → Bool
  | '~' :: rest =>
    let account := rest.takeWhile (· != '/')
    !account.isEmpty && List.lookup account homes.accounts == some none
  | _ => false

/-- Expands a `~` or `~account` at the beginning of a text up to the first slash; an unknown account stays as it is.
    Slashes at the end of the home are dropped, and a result without characters is the root. -/
def expandText (homes : Homes) (s : Text) : Text :=
  match s with
  | '~' :: rest =>
    let account := rest.takeWhile (· != '/')
    let after := rest.dropWhile (· != '/')
    let home? := if account.isEmpty then some homes.own else (List.lookup account homes.accounts).join
    match home? with
    | none => s
    | some home =>
      let whole := Text.dropEndWhile (· == '/') home ++ after
      if whole.isEmpty then "/" else whole
  | _ => s

/-- Whether a path begins with an account that may not be asked for. -/
def refusesPath (homes : Homes) (p : Path) : Bool :=
  match p.anchor, p.names with
  | .relative, first :: _ => homes.refuses first
  | _, _ => false

/-- Expands a `~` or `~account` that is the beginning of a path's first name. There is no result when no home is
    known. -/
def expand? (homes : Homes) (p : Path) : Option Path :=
  match p.anchor, p.names with
  | .relative, first :: rest =>
    if Text.startsWith "~" first then
      let home := homes.expandText first
      if Text.startsWith "~" home then none
      else some { Path.ofText home with names := (Path.ofText home).names ++ rest }
    else some p
  | _, _ => some p

end Homes

end Runbook
