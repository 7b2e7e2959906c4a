import Runbook.Path
import Runbook.Text.Utf8

/-! # File trees

A file tree says what stands at each place: a directory, a regular file with its content and permissions, or a
symbolic link with its target. A place is the list of names from the root; the root is always a directory. `walk`
follows a path through the tree, links included, as an operating system does: every name but the last must lead to a
directory, `..` goes to the directory above, no name may be too long, and at most forty links are followed. -/

namespace Runbook

/-- Where something stands: the names from the root. -/
abbrev Place := List Text

/-- What stands at a place. -/
inductive Node
  | directory
  | file (content : List UInt8) (mode : Nat)
  | link (target : Text)
deriving DecidableEq, Repr

/-- Whether a node is a regular file. -/
def Node.isFile : Node → Bool
  | .file _ _ => true
  | _ => false

/-- What an operation on files can fail with. -/
inductive FileError
  | missing
  | exists
  | notDirectory
  | isDirectory
  | denied
  | nameTooLong
  | linkLoop
deriving DecidableEq, Repr

namespace FileError

/-- The number of the error. -/
def code : FileError → Nat
  | .missing => 2
  | .denied => 13
  | .exists => 17
  | .notDirectory => 20
  | .isDirectory => 21
  | .nameTooLong => 36
  | .linkLoop => 40

/-- What the error is called. -/
def reason : FileError → Text
  | .missing => "No such file or directory"
  | .denied => "Permission denied"
  | .exists => "File exists"
  | .notDirectory => "Not a directory"
  | .isDirectory => "Is a directory"
  | .nameTooLong => "File name too long"
  | .linkLoop => "Too many levels of symbolic links"

end FileError

/-- A file tree: the places at which something stands. The first entry for a place counts. -/
structure Tree where
  entries : List (Place × Node)
deriving Repr

namespace Tree

/-- What stands at a place. -/
def node? (t : Tree) : Place → Option Node
  | [] => some .directory
  | place => List.lookup place t.entries

/-- The entries with a node at a place: instead of the one there, else at the end. -/
def setEntry (place : Place) (node : Node) : List (Place × Node) → List (Place × Node)
  | [] => [(place, node)]
  | (p, n) :: rest => if p = place then (p, node) :: rest else (p, n) :: setEntry place node rest

/-- Puts a node at a place. -/
def set (t : Tree) (place : Place) (node : Node) : Tree := ⟨setEntry place node t.entries⟩

/-- Takes away what stands at a place. -/
def erase (t : Tree) (place : Place) : Tree := ⟨t.entries.filter (fun e => e.1 != place)⟩

/-- Puts a directory at every place from the root to the given one at which nothing stands. -/
def makeDirectories (t : Tree) (place : Place) : Tree :=
  (List.range (place.length + 1)).foldl (fun t n =>
    if (t.node? (place.take n)).isNone then t.set (place.take n) .directory else t) t

/-- The names of what stands in a directory. -/
def children (t : Tree) (place : Place) : List Text :=
  (t.entries.filterMap fun e => if e.1.dropLast = place then e.1.getLast? else none).eraseDups

/-- How many octets a name may have. -/
def maxOctets : Nat := 255

/-- Whether a name has more octets than a name may have. -/
def isTooLong (name : Text) : Bool := maxOctets < (Utf8.encode name).length

/-- How many links a walk follows. -/
def maxLinks : Nat := 40

/-- Walks on from the place `here`. An empty name and `.` stay there, but only in a directory, so a slash at the end of
    a target means that a directory is wanted. At a link, `follow` goes on from the directory the link is in, with the
    names of its target before those that are left. -/
def walkWith (t : Tree) (follow : Place → List Text → Text → Except FileError Place) :
    Place → List Text → Except FileError Place
  | here, [] => .ok here
  | here, name :: rest =>
    match t.node? here with
    | some .directory =>
      if name.isEmpty || name = ['.'] then walkWith t follow here rest
      else if name = ['.', '.'] then walkWith t follow here.dropLast rest
      else if isTooLong name then .error .nameTooLong
      else
        match t.node? (here ++ [name]) with
        | none => .error .missing
        | some (.link target) => follow here rest target
        | some _ => walkWith t follow (here ++ [name]) rest
    | some _ => .error .notDirectory
    | none => .error .missing

/-- Where a text that names something starts, seen from a directory. -/
def startOf (here : Place) (text : Text) : Place := if Text.startsWith "/" text then [] else here

/-- Where a walk from the place `here` along the names arrives, when it may follow `links` links. -/
def walkFrom (t : Tree) : (links : Nat) → Place → List Text → Except FileError Place
  | 0 => walkWith t fun _ _ _ => .error .linkLoop
  | links + 1 => walkWith t fun here rest target =>
    walkFrom t links (startOf here target) (Text.splitOn '/' target ++ rest)

/-- Where an absolute path leads. -/
def walk (t : Tree) (p : Path) : Except FileError Place := walkFrom t maxLinks [] p.names

/-- What an absolute path leads to. -/
def stat (t : Tree) (p : Path) : Except FileError (Place × Node) :=
  match t.walk p with
  | .error e => .error e
  | .ok place =>
    match t.node? place with
    | none => .error .missing
    | some node => .ok (place, node)

/-- The directory at which a walk from the place `here` along the names arrives. -/
def directory (t : Tree) (here : Place) (names : List Text) : Except FileError Place :=
  match t.walkFrom maxLinks here names with
  | .error e => .error e
  | .ok place =>
    match t.node? place with
    | none => .error .missing
    | some .directory => .ok place
    | some _ => .error .notDirectory

/-- The place an absolute path names: its last name is not followed if a link stands there, and nothing need stand
    there at all. -/
def locate (t : Tree) (p : Path) : Except FileError Place :=
  match p.names.getLast? with
  | none => .ok []
  | some name =>
    match t.directory [] p.names.dropLast with
    | .error e => .error e
    | .ok here =>
      if isTooLong name then .error .nameTooLong
      else .ok (if name = ['.', '.'] then here.dropLast else here ++ [name])

/-- The tree with a new directory at an absolute path, or why there can be none. -/
def makeDirectory (t : Tree) (p : Path) : Except FileError Tree :=
  match t.locate p with
  | .error e => .error e
  | .ok place => if (t.node? place).isSome then .error .exists else .ok (t.set place .directory)

/-- The tree with the directories an absolute path goes through that are missing, the last one included. -/
def makePath (t : Tree) (p : Path) : Tree :=
  (List.range (p.names.length + 1)).foldl
    (fun t n => ((t.makeDirectory { p with names := p.names.take n }).toOption).getD t) t

/-- The place of the file that writing to what a text names, seen from a directory, changes or creates, following at
    most `links` links that stand where the text leads. A text that ends with a slash names no file. -/
def writePlace (t : Tree) : (links : Nat) → (here : Place) → Text → Except FileError Place
  | links, here, text =>
    let written := Text.splitOn '/' text
    let names := (written.reverse.dropWhile List.isEmpty).reverse
    match names.getLast? with
    | none => .error .isDirectory
    | some name =>
      match t.directory (startOf here text) names.dropLast with
      | .error e => .error e
      | .ok above =>
        if name = ['.'] || name = ['.', '.'] || names.length < written.length then .error .isDirectory
        else if isTooLong name then .error .nameTooLong
        else
          match t.node? (above ++ [name]) with
          | some .directory => .error .isDirectory
          | some (.link target) =>
            match links with
            | 0 => .error .linkLoop
            | links + 1 => writePlace t links above target
          | _ => .ok (above ++ [name])

/-- The permissions of a file that is created by writing to it. -/
def newFileMode : Nat := 0o644

/-- The tree with the file at a place holding the given content; a file that is there keeps its permissions. -/
def writeAt (t : Tree) (place : Place) (content : List UInt8) : Tree :=
  match t.node? place with
  | some (.file _ mode) => t.set place (.file content mode)
  | _ => t.set place (.file content newFileMode)

/-- The tree without the file or link at an absolute path, or why it cannot be taken away. -/
def unlink (t : Tree) (p : Path) : Except FileError Tree :=
  match t.locate p with
  | .error e => .error e
  | .ok place =>
    match t.node? place with
    | none => .error .missing
    | some .directory => .error .isDirectory
    | some _ => .ok (t.erase place)

end Tree

end Runbook
