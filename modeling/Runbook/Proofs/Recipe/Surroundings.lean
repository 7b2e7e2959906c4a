import Runbook.Proofs.Include.Rereading
import Runbook.Proofs.Recipe.Loading
import Runbook.Proofs.Text.Margins

/-! # Lines among others in a recipe file

Some lines may stand anywhere in a recipe file, among lines that read well (`Recipe.Surroundings`). When they are read, what
they read to is found between what the lines before and after them read to (`Surroundings.readLines_eq`); when they
cannot be read, neither can the file (`Surroundings.readLines_error`). -/

namespace Runbook

open Effect Include Text

/-- A recipe file in which a text of so many lines stands among lines that read well: the path of the file, what is before
    the text and after it in the file, what the lines before and after it read to, and the worlds in between and at the
    end. The file is read to its end, where nothing has been added. -/
structure Recipe.Surroundings (w : World) (p : Path) (text : Text) (count : Nat) where
  file : Path
  head : List UInt8
  tail : List UInt8
  before : List Line
  after : List Line
  between : World
  last : World
  expands : w.files.homes.expand? p = some file
  isFile : w.files.isFile file = .ok true
  allowed : w.files.isDenied file = false
  content : (view.opened (w.files.absolute file).toText w).files.content file = head ++ (Utf8.encode text ++ tail)
  starts : AtLineStart head
  ends : AtLineEnd tail
  headText : (rawLines head).2 = none
  tailText : (rawLines tail.tail).2 = none
  readHead : takeWith view (depth w.files - 1) [] w.files file
      ⟨.ofFile p.toText (w.files.absolute file).toText, 1⟩ (rawLines head).1
      (view.opened (w.files.absolute file).toText w) =
    .ok (⟨.ofFile p.toText (w.files.absolute file).toText, 1 + (rawLines head).1.length⟩, before) between
  readTail : takeWith view (depth w.files - 1) [] w.files file
      ⟨.ofFile p.toText (w.files.absolute file).toText, 1 + (rawLines head).1.length + count⟩ (rawLines tail.tail).1
      between =
    .ok (⟨.ofFile p.toText (w.files.absolute file).toText,
      1 + (rawLines head).1.length + count + (rawLines tail.tail).1.length⟩, after) last
  unchanged : last.files.content file = head ++ (Utf8.encode text ++ tail)

namespace Recipe.Surroundings

variable {w w' : World} {p : Path} {text : Text} {count : Nat} (i : Surroundings w p text count) {raws : List Text}
  {lines : List Line} {e : Fault}

/-- Where the reading of the file is before the lines. -/
def cursor : Cursor := ⟨.ofFile p.toText (w.files.absolute i.file).toText, 1 + (rawLines i.head).1.length⟩

/-- The directory from which an include line of the file seeks files. -/
def base : Text := (w.files.absolute i.file).directory.toText

/-- How a file that one of the lines includes is read. -/
def include? (line : Line) (target : Text) : Reading World (List Line) :=
  expand view (depth w.files - 1) [(w.files.absolute i.file).toText] (some line) target (Path.ofText target)

theorem readHead_eq : Include.readLines w.files.homes i.base i.include?
      ⟨.ofFile p.toText (w.files.absolute i.file).toText, 1⟩ (rawLines i.head).1
      (view.opened (w.files.absolute i.file).toText w) = .ok (i.cursor, i.before) i.between :=
  i.readHead

/-- Whether these are the lines of the text, with the lines of the file before and after them. -/
def Has (raws : List Text) : Prop := rawLines (i.head ++ (Utf8.encode text ++ i.tail)) =
  ((rawLines i.head).1 ++ (raws ++ (rawLines i.tail.tail).1), none)

/-- What the lines read to is found between what the lines before and after them read to. -/
theorem readLines_eq (hraws : i.Has raws) (h : Include.readLines w.files.homes i.base i.include? i.cursor raws i.between =
      .ok (⟨i.cursor.assembler, i.cursor.number + count⟩, lines) i.between) :
    readLines p.toText p w = .ok (i.before ++ (lines ++ i.after)) i.last := by
  have htail : Include.readLines w.files.homes i.base i.include? ⟨i.cursor.assembler, i.cursor.number + count⟩
      (rawLines i.tail.tail).1 i.between = _ := i.readTail
  have hread := (readLines_append i.readHead_eq).trans (bind_of_ok ((readLines_append h).trans (bind_of_ok htail)))
  exact readLines_of_takeWith i.expands i.isFile i.allowed i.content (by rw [hraws]) (by rw [hraws]; exact hread)
    i.unchanged

/-- Reading the file ends at the first of the lines if it cannot be read. -/
theorem readLines_error {raw : Text} (hraws : i.Has (raw :: raws))
    (h : readLine w.files.homes i.base i.include? i.cursor raw i.between = .error e w') :
    readLines p.toText p w = .error e w' := by
  have hcons : Include.readLines w.files.homes i.base i.include? i.cursor (raw :: (raws ++ (rawLines i.tail.tail).1))
      i.between = .error e w' := by
    rw [Include.readLines]
    exact bind_of_error h
  refine readLines_of_takeWith_error i.expands i.isFile i.allowed i.content ?_
  rw [hraws]
  exact (readLines_append i.readHead_eq).trans (bind_of_error hcons)

/-- A line of the file, alone. -/
theorem has_line {raw : Text} (i : Surroundings w p raw 1) (hne : raw ≠ []) (hfeed : '\n' ∉ raw) :
    i.Has [dropLineEnd raw] := by
  have hhead : rawLines i.head = ((rawLines i.head).1, none) := Prod.ext rfl i.headText
  have hoctets : 10 ∉ Utf8.encode raw := fun hmem => hfeed (Utf8.feed_mem_encode.mp hmem)
  have hnil : Utf8.encode raw ++ i.tail ≠ [] := by
    intro hnil
    have hdecode := Utf8.decode_encode raw
    rw [(List.append_eq_nil_iff.mp hnil).1] at hdecode
    exact hne (Except.ok.inj hdecode).symm
  rw [Has, rawLines_append i.starts hhead, rawLines_of_decode hoctets i.ends hnil (Utf8.decode_encode raw), i.tailText]
  rfl

end Recipe.Surroundings

end Runbook
