import Runbook.Block
import Runbook.Fault
import Runbook.Files
import Runbook.Text.Lines

/-! # Includes

Reading the logical lines of a recipe file. Blank lines and comments are left out, blocks are assembled, and an
`include` line is replaced by the logical lines of the file it names, which is sought from the directory of the file
the line stands in. Lines are decoded one by one, so what is wrong in an earlier line is reported before what is wrong
in a later one. The absolute paths of the files that are being read form the stack; including one of them is an error.

Opening a file may change what the files hold, since whoever reads may write down, in a file that is read as well, which
files were opened. So the files are seen through a `View`, and at the end of a file one looks whether there is more. -/

namespace Runbook

/-- How files are seen while they are read: what they are in a state, and the state after the file with an absolute path
    has been opened. -/
structure View (σ : Type) where
  files : σ → Files
  opened : Text → σ → σ

/-- The view of files that do not change. -/
def View.still (files : Files) : View Unit := ⟨fun _ => files, fun _ _ => ()⟩

/-- Reading files seen in a state. -/
abbrev Reading (σ : Type) := EStateM Fault σ

namespace Include

variable {σ : Type}

/-- The word that includes a file. -/
def keyword : Text := "include"

/-- Whether a trimmed line includes a file: whether its first word is the keyword. -/
def isStatement (text : Text) : Bool :=
  Text.startsWith keyword text &&
    match text.drop keyword.length with
    | [] => true
    | c :: _ => Text.isBlank c

/-- Whether a trimmed line says nothing. -/
def isSilent (text : Text) : Bool := text.isEmpty || Text.startsWith "#" text

/-- The path an include line names, seen from the directory `base`. -/
def target (homes : Homes) (base : Text) (line : Line) : Except Fault Text :=
  match Words.split (Text.trim (line.text.drop keyword.length)) with
  | .error e => .error (.load (.malformed (.includeQuote e) line))
  | .ok [word] =>
    if word.isEmpty then .error (.load (.malformed .includeArity line))
    else if homes.refuses word then .error .nullCharacter
    else .ok (Path.joinText base (homes.expandText word))
  | .ok _ => .error (.load (.malformed .includeArity line))

/-- Decodes lines up to the first that is not UTF-8, whose flaw is given then. -/
def decodeLines : List (List UInt8) → List Text × Option Utf8.Flaw
  | [] => ([], none)
  | octets :: rest =>
    match Utf8.decode octets with
    | .error flaw => ([], some flaw)
    | .ok text =>
      let (lines, flaw) := decodeLines rest
      (Text.dropLineEnd text :: lines, flaw)

/-- The lines of a file without their ends, up to the first that is not UTF-8. -/
def rawLines (content : List UInt8) : List Text × Option Utf8.Flaw := decodeLines (cutAfter (· == 10) content)

/-- Where the reading of a file is: its assembler, and the number of the line that comes next. -/
structure Cursor where
  assembler : Assembler
  number : Int

/-- Reads one line, which makes some logical lines. `include?` reads the target of an include line, and `base` is the
    directory of the file. -/
def readLine (homes : Homes) (base : Text) (include? : Line → Text → Reading σ (List Line)) (c : Cursor)
    (raw : Text) : Reading σ (Cursor × List Line) := do
  let a := c.assembler
  let text := Text.trim raw
  if a.block.isNone && isSilent text then return (⟨a, c.number + 1⟩, [])
  if a.block.isNone && isStatement text then
    let here : Line := ⟨a.source, a.path, c.number, text, none⟩
    match target homes base here with
    | .error e => throw e
    | .ok path => return (⟨a, c.number + 1⟩, ← include? here path)
  let (a, line) := a.feed c.number raw
  return (⟨a, c.number + 1⟩, line.toList)

/-- Reads lines, one after the other. -/
def readLines (homes : Homes) (base : Text) (include? : Line → Text → Reading σ (List Line)) :
    Cursor → List Text → Reading σ (Cursor × List Line)
  | c, [] => return (c, [])
  | c, raw :: rest => do
    let (c, first) ← readLine homes base include? c raw
    let (c, lines) ← readLines homes base include? c rest
    return (c, first ++ lines)

/-- Ends the reading of a file, in which no block may be open any more. -/
def Cursor.finish (c : Cursor) : Reading σ (List Line) :=
  match c.assembler.finish.2 with
  | some start => throw (.load (.openBlock start))
  | none => return []

/-- Reads a file after its first `seen` octets: what is there now, and then what has been added meanwhile, which may
    happen `rounds` times. -/
def readOn (view : View σ) (p : Path) (readLines : Cursor → List Text → Reading σ (Cursor × List Line)) :
    (rounds : Nat) → (seen : Nat) → Cursor → Reading σ (List Line)
  | rounds, seen, c => do
    let content := (view.files (← get)).content p
    if content.length ≤ seen then return ← c.finish
    let (raws, flaw) := rawLines (content.drop seen)
    let (c, lines) ← readLines c raws
    match flaw with
    | some flaw => throw (.load (.notUtf8 flaw ⟨c.assembler.source, c.assembler.path, c.number, [], none⟩))
    | none =>
      match rounds with
      | 0 => throw (.endless c.assembler.path)
      | rounds + 1 => return lines ++ (← readOn view p readLines rounds content.length c)

/-- How often a file may have been added to while it is read. -/
def maxRounds : Nat := 1000

/-- Reads the file a path leads to. `source` is the file as it was named, `includedAt` the line that includes it, and
    `fuel` bounds how deeply includes nest. -/
def expand (view : View σ) : (fuel : Nat) → (stack : List Text) → (includedAt : Option Line) → (source : Text) →
    Path → Reading σ (List Line)
  | 0, _, _, source, _ => throw (.includesTooDeep source)
  | fuel + 1, stack, includedAt, source, p => do
    let files := view.files (← get)
    let here := files.absolute p
    let path := here.toText
    match files.isFile p with
    | .error e => throw (.file e p.toText)
    | .ok false => throw (.load (.missingFile source includedAt))
    | .ok true =>
      if stack.contains path then throw (.load (.cycle (stack ++ [path]) includedAt))
      modify (view.opened path)
      if files.isDenied p then throw (.load (.unreadableFile source includedAt))
      let include? := fun line target => expand view fuel (stack ++ [path]) (some line) target (Path.ofText target)
      readOn view p (readLines files.homes here.directory.toText include?) maxRounds 0 ⟨.ofFile source path, 1⟩

/-- How deeply includes can nest: the files on the stack have different absolute paths. Without links a file has two,
    for it may be written with one slash or with two. With links a path goes through at most forty of them, and from
    one to the next it cannot be longer than the tree is deep; so this many paths lead to a file at most. -/
def depth (files : Files) : Nat :=
  let n := files.tree.entries.length
  if files.tree.entries.any (fun e => match e.2 with | .link _ => true | _ => false) then
    Nat.pow (n + 2) ((Tree.maxLinks + 1) * (n + 2)) + 1
  else 2 * n + 1

/-- Reads the file a path leads to while the files on the stack are being read. -/
def read (view : View σ) (stack : List Text) (source : Text) (p : Path) : Reading σ (List Line) := do
  expand view (depth (view.files (← get))) stack none source p

end Include

end Runbook
