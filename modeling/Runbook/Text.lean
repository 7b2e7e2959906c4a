/-! # Texts

A text is the list of its characters, so that lengths, offsets and widths count code points. Here are the few
operations every other module needs: decimal numbers, padding, joining, cutting at a character, and the order of
texts by code point. -/

namespace Runbook

/-- A text is the list of its characters. -/
abbrev Text := List Char

/-- A string literal may stand where a text is expected. -/
instance textOfString : Coe String Text := ⟨String.toList⟩

namespace Text

/-- The decimal digits of a number. -/
def ofNat (n : Nat) : Text := Nat.toDigits 10 n

/-- The decimal digits of a number, after a minus sign if it is negative. -/
def ofInt : Int → Text
  | .ofNat n => ofNat n
  | .negSucc n => '-' :: ofNat (n + 1)

/-- `s` with blanks before it up to the given width. -/
def padLeft (width : Nat) (s : Text) : Text := List.replicate (width - s.length) ' ' ++ s

/-- `s` with blanks after it up to the given width. -/
def padRight (width : Nat) (s : Text) : Text := s ++ List.replicate (width - s.length) ' '

/-- The texts one after the other, with `sep` between two of them. -/
def joinWith (sep : Text) : List Text → Text
  | [] => []
  | [s] => s
  | s :: t :: rest => s ++ sep ++ joinWith sep (t :: rest)

/-- Whether `s` begins with `head`. -/
def startsWith (head s : Text) : Bool := head.isPrefixOf s

/-- Whether `s` ends with `tail`. -/
def endsWith (tail s : Text) : Bool := tail.isSuffixOf s

/-- `s` without the characters at its end that satisfy `p`. -/
def dropEndWhile (p : Char → Bool) (s : Text) : Text := (s.reverse.dropWhile p).reverse

/-- What stands before the first `c`, and what stands after it if there is one. -/
def cut (c : Char) (s : Text) : Text × Option Text :=
  match s.dropWhile (· != c) with
  | [] => (s, none)
  | _ :: after => (s.takeWhile (· != c), some after)

/-- The order of texts: the first difference decides, by code point. -/
def le : Text → Text → Bool
  | [], _ => true
  | _ :: _, [] => false
  | a :: s, b :: t => a < b || (a == b && le s t)

/-- The texts in ascending order. -/
def sort (ts : List Text) : List Text := ts.mergeSort le

/-- The parts of a text between its occurrences of `c`; there is one more part than there are occurrences. -/
def splitOn (c : Char) : Text → List Text
  | [] => [[]]
  | a :: s =>
    if a = c then [] :: splitOn c s
    else match splitOn c s with
      | [] => [[a]]
      | part :: parts => (a :: part) :: parts

end Text

end Runbook
