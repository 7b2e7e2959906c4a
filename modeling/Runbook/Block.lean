import Runbook.Directive
import Runbook.Line
import Runbook.Text.Blank

/-! # Blocks

A value between fences of three double quotes may span lines. A line opens a block when it assigns, to a key without
blanks, a fence, with the keyword `script` or `info` before the fence if the block is the text of such a step. When the
line also ends with a fence the block is complete; otherwise the lines that follow belong to it as they stand, up to the
first one that, trimmed, ends with a fence. The `Assembler` takes lines one at a time and gives a logical line whenever
one is complete. -/

namespace Runbook

namespace Block

/-- What stands before and after a block. -/
def fence : Text := ['"', '"', '"']

/-- Whether a text ends with a fence. -/
def closes (text : Text) : Bool := Text.endsWith fence text

/-- A text without the fence it ends with. -/
def dropFence (text : Text) : Text := text.take (text.length - fence.length)

/-- The beginning of a block: the keyword of the step it is the text of, if any, and what follows the fence. -/
structure Opening where
  word : Option Directive
  rest : Text
deriving DecidableEq, Repr

/-- What follows the fence at the beginning of a text. A line feed may not follow. -/
def afterFence? (text : Text) : Option Text :=
  if Text.startsWith fence text && !text.contains '\n' then some (text.drop fence.length) else none

/-- What follows a keyword and the blanks after it, at the beginning of a text. -/
def afterWord? (word text : Text) : Option Text :=
  if Text.startsWith word text then
    match text.drop word.length with
    | c :: rest => if Text.isBlank c then some (Text.trimLeft rest) else none
    | [] => none
  else none

/-- The beginning of a block in the text of a value. -/
def openingOfValue? (value : Text) : Option Opening :=
  match afterFence? value with
  | some rest => some ⟨none, rest⟩
  | none =>
    [Directive.script, Directive.info].findSome? fun d =>
      (afterWord? d.keyword value).bind fun text => (afterFence? text).map fun rest => ⟨some d, rest⟩

/-- The beginning of a block in a trimmed line. -/
def opening? (text : Text) : Option Opening :=
  let key := text.takeWhile fun c => !Text.isBlank c && c != '='
  match Text.trimLeft (text.drop key.length) with
  | '=' :: value => if key.isEmpty then none else openingOfValue? (Text.trimLeft value)
  | _ => none

/-- The value of a block with the given keyword and body. -/
def value (word : Option Directive) (body : Text) : Text :=
  match word with
  | none => body
  | some d => if body.isEmpty then d.keyword else d.keyword ++ " " ++ body

/-- A block that is not complete yet: the logical line that opened it, its keyword, the lines it spans so far, and the
    parts of its body. -/
structure Open where
  start : Line
  word : Option Directive
  raw : List Text
  body : List Text
deriving DecidableEq, Repr

/-- The block with one more line that does not end it. -/
def Open.push (b : Open) (raw : Text) : Open := { b with raw := b.raw ++ [raw], body := b.body ++ [raw] }

/-- The logical line the block makes when `raw` ends it. -/
def Open.close (b : Open) (raw : Text) : Line :=
  let body := Text.joinWith "\n" (b.body ++ [dropFence (Text.trimRight raw)])
  { b.start with
    text := Text.joinWith "\n" (b.raw ++ [raw])
    value := some (value b.word (Text.trim body)) }

end Block

/-- Takes the lines of one file and gives its logical lines. A block may be open. -/
structure Assembler where
  source : Text
  path : Text
  block : Option Block.Open
deriving DecidableEq, Repr

namespace Assembler

/-- An assembler for a file, with no block open. -/
def ofFile (source path : Text) : Assembler := ⟨source, path, none⟩

/-- Takes a line; a logical line comes out when one is complete. -/
def feed (a : Assembler) (number : Int) (raw : Text) : Assembler × Option Line :=
  match a.block with
  | some b =>
    if Block.closes (Text.trim raw) then ({ a with block := none }, some (b.close raw))
    else ({ a with block := some (b.push raw) }, none)
  | none =>
    let text := Text.trim raw
    let line : Line := ⟨a.source, a.path, number, text, none⟩
    match Block.opening? text with
    | none => (a, some line)
    | some o =>
      if Block.closes o.rest then
        (a, some { line with value := some (Block.value o.word (Text.trim (Block.dropFence o.rest))) })
      else ({ a with block := some ⟨line, o.word, [raw], [o.rest]⟩ }, none)

/-- Ends the file. The line that opened a block comes out if the block is still open; it is dropped. -/
def finish (a : Assembler) : Assembler × Option Line := ({ a with block := none }, a.block.map (·.start))

end Assembler

end Runbook
