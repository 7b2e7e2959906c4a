import Runbook.Text

/-! # Lines

Cutting a sequence after each of its terminators, for the lines of a file, which end at a line feed, and for the lines
a child prints, which may end in a line feed, a carriage return or both. -/

namespace Runbook

/-- The pieces of a sequence, each ending at its first element that satisfies `ends`; only the last piece may lack
    such an element, and no piece is empty. -/
def cutAfter {α : Type} (ends : α → Bool) : List α → List (List α)
  | [] => []
  | a :: s =>
    if ends a then [a] :: cutAfter ends s
    else match cutAfter ends s with
      | [] => [[a]]
      | piece :: pieces => (a :: piece) :: pieces

namespace Text

/-- A text in which a carriage return, with or without a line feed after it, has become one line feed. -/
def unifyLineEnds : Text → Text
  | [] => []
  | '\r' :: '\n' :: s => '\n' :: unifyLineEnds s
  | c :: s => (if c = '\r' then '\n' else c) :: unifyLineEnds s

/-- A line without the line feeds at its end. -/
def dropLineFeed (s : Text) : Text := dropEndWhile (· == '\n') s

/-- A line without the carriage returns and line feeds at its end. -/
def dropLineEnd (s : Text) : Text := dropEndWhile (fun c => c == '\r' || c == '\n') s

/-- The lines of a text, whichever of the three line ends it uses. -/
def lines (s : Text) : List Text := (cutAfter (· == '\n') (unifyLineEnds s)).map dropLineFeed

end Text

end Runbook
