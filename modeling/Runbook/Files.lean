import Runbook.Path.Resolution
import Runbook.Tree

/-! # Files as a process sees them

A process sees the file tree from its working directory and with its rights: some paths may be denied to it, which
keeps it from opening, listing, entering and taking away what is there but not from seeing that it exists; other paths,
through directories it may not search, it cannot look up. Whether a path is denied is decided by its text, made absolute
by name alone. A path that is too long is not looked up at all. -/

namespace Runbook

/-- What a process sees: the tree, the paths that are denied to it, its working directory, the homes, and the paths it may
    not look up. -/
structure Files where
  tree : Tree
  denied : List Text
  cwd : Path
  homes : Homes
  hidden : List Text := []
deriving Repr

/-- Why the links on a path cannot be replaced. -/
inductive LinkError
  /-- They lead in a circle, which is met at a path. -/
  | circle (p : Path)
  /-- Too many of them are inside one another. -/
  | tooDeep
deriving DecidableEq, Repr

namespace Files

/-- A path made absolute by name alone. -/
def absolute (files : Files) (p : Path) : Path := p.absolute files.cwd

/-- How many octets the text of a path may have. -/
def maxOctets : Nat := 4095

/-- The path from the root that is looked up for a path. Nothing stands at a path with the character U+0000. -/
def reach (files : Files) (p : Path) : Except FileError Path :=
  if p.toText.contains '\x00' then .error .missing
  else if maxOctets < (Utf8.encode p.toText).length then .error .nameTooLong
  else if files.hidden.contains (files.cwd.join p).toText then .error .denied
  else .ok (files.cwd.join p)

/-- What a path leads to. -/
def stat (files : Files) (p : Path) : Except FileError (Place × Node) :=
  match files.reach p with
  | .error e => .error e
  | .ok p => files.tree.stat p

/-- The place a path names; a link at its end is not followed, and nothing need stand there. -/
def locate (files : Files) (p : Path) : Except FileError Place :=
  match files.reach p with
  | .error e => .error e
  | .ok p => files.tree.locate p

/-- Whether a path leads to something that satisfies a test. A path that leads nowhere leads to nothing of the kind; one
    that may not be looked up, or is too long for it, is an error all the same. -/
def leadsTo (files : Files) (p : Path) (test : Node → Bool) : Except FileError Bool :=
  match files.stat p with
  | .ok (_, node) => .ok (test node)
  | .error .nameTooLong => .error .nameTooLong
  | .error .denied => .error .denied
  | .error _ => .ok false

/-- Whether a path leads to a regular file. -/
def isFile (files : Files) (p : Path) : Except FileError Bool := files.leadsTo p Node.isFile

/-- Whether a path leads to a directory. -/
def isDirectory (files : Files) (p : Path) : Except FileError Bool := files.leadsTo p (· == .directory)

/-- Whether a path is denied. -/
def isDenied (files : Files) (p : Path) : Bool := files.denied.contains (files.absolute p).toText

/-- The content of the regular file a path leads to; of anything else it is empty. -/
def content (files : Files) (p : Path) : List UInt8 :=
  match files.stat p with
  | .ok (_, .file content _) => content
  | _ => []

/-- The names in the directory a path leads to; none if it cannot be listed. -/
def list (files : Files) (p : Path) : List Text :=
  if files.isDenied p then []
  else match files.stat p with
    | .ok (place, .directory) => files.tree.children place
    | _ => []

/-- The files with a new directory at a path, or why there can be none. The working directory itself, the path without
    names, is never made: it is there, or what it should stand in is not. -/
def makeDirectory (files : Files) (p : Path) : Except FileError Files :=
  match files.reach p with
  | .error e => .error e
  | .ok q =>
    if p.names.isEmpty then
      match files.tree.directory [] q.names with
      | .error e => .error e
      | .ok _ => .error .exists
    else (files.tree.makeDirectory q).map fun tree => { files with tree }

/-- The place of the file that writing to a path changes or creates. -/
def writePlace (files : Files) (p : Path) : Except FileError Place :=
  match files.reach p with
  | .error e => .error e
  | .ok p => files.tree.writePlace Tree.maxLinks [] p.toText

/-- The tree without the file or link a path names, or why it cannot be taken away. What is not there is not denied
    either. -/
def unlink (files : Files) (p : Path) : Except FileError Tree :=
  match files.reach p with
  | .error e => .error e
  | .ok q =>
    match files.tree.unlink q with
    | .error .missing => .error .missing
    | left => if files.isDenied p then .error .denied else left

/-- The target of the link a path names, if a link stands there. -/
def target? (files : Files) (p : Path) : Option Text :=
  match files.locate p with
  | .error _ => none
  | .ok place =>
    match files.tree.node? place with
    | some (.link target) => some target
    | _ => none

/-- The absolute path without links a path stands for. What was found in a circle of links will do, unless it cannot be
    looked up either. -/
def resolve (files : Files) (p : Path) : Except LinkError Path :=
  let found : Option Path := match p.resolve files.target? with
    | .done p => some p
    | .circle written => some (Path.ofText written)
    | .tooDeep => none
  match found.map files.absolute with
  | none => .error .tooDeep
  | some p =>
    match files.stat p with
    | .error .linkLoop => .error (.circle p)
    | _ => .ok p

end Files

end Runbook
