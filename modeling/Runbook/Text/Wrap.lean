import Runbook.Text

/-! # Filling lines

A text is put into lines of a given width at its spaces. A line takes as many words as it can hold; the spaces inside a
line stay as they are, and those where a line ends are dropped. A word that is longer than a line goes on in the line it
would begin in and is cut where lines end. -/

namespace Runbook.Text

/-- Lines that are being filled: those that are full, and the current one. -/
structure Filling where
  full : List Text
  current : Text
deriving DecidableEq, Repr

namespace Filling

/-- No line yet. -/
def start : Filling := ⟨[], []⟩

/-- Ends the current line, without the spaces at its end. There is no line without anything else. -/
def flush (f : Filling) : Filling :=
  let line := dropEndWhile (· == ' ') f.current
  ⟨if line.isEmpty then f.full else f.full ++ [line], []⟩

/-- Adds to the current line. -/
def push (f : Filling) (run : Text) : Filling := { f with current := f.current ++ run }

/-- Adds a word, cut where lines end; even a full line takes one more character of it. `cuts` bounds how often. -/
def pushCut (width : Nat) : (cuts : Nat) → Filling → Text → Filling
  | 0, f, word => f.push word
  | cuts + 1, f, word =>
    if f.current.length + word.length ≤ width then f.push word
    else
      let room := max (width - f.current.length) 1
      pushCut width cuts (f.push (word.take room)).flush (word.drop room)

/-- Adds a word, or the spaces between two words. -/
def add (width : Nat) (f : Filling) (run : Text) : Filling :=
  let isGap := run.all (· == ' ')
  if isGap && f.current.isEmpty && !f.full.isEmpty then f
  else if f.current.length + run.length ≤ width then f.push run
  else if isGap then f.flush
  else if run.length ≤ width then f.flush.push run
  else pushCut width run.length f run

end Filling

/-- The lines of at most the given width that a text fills. -/
def wrap (width : Nat) (s : Text) : List Text :=
  ((s.splitBy fun a b => (a == ' ') == (b == ' ')).foldl (Filling.add width) .start).flush.full

/-- The first sentence of a text, or if that is too long, as many of its words as fit before three dots. -/
def abridge (limit : Nat) (s : Text) : Text :=
  let words := (splitOn ' ' s).filter (!·.isEmpty)
  let sentence := joinWith " " (words.take (words.findIdx (endsWith ".") + 1))
  if sentence.length ≤ limit then sentence
  else
    let heads := (List.range (words.length + 1)).map fun n => joinWith " " (words.take n)
    ((heads.reverse.find? fun head => head.length + 3 ≤ limit).getD []) ++ "..."

end Runbook.Text
