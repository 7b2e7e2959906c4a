import Runbook.Text.Blank

/-! # Words

A command line is a text of words. White space separates words; single and double quotes group characters and keep
the white space between them; a backslash takes the next character as it is, inside quotes too, and stands for itself
at the very end. A word may be empty when it is quoted. `split` reads the words of a text and `join` writes words so
that they can be read back. -/

namespace Runbook.Words

/-- Whether a character opens and closes a group. -/
def isQuote (c : Char) : Bool := c == '\'' || c == '"'

/-- A quote that is never closed: which one, at what offset, in which text. -/
structure Unclosed where
  quote : Char
  offset : Nat
  text : Text
deriving DecidableEq, Repr

/-- The words about an unclosed quote. -/
def Unclosed.message (e : Unclosed) : Text :=
  "unterminated " ++ [e.quote] ++ " quote starting at offset " ++ Text.ofNat e.offset ++ ": " ++ e.text

/-- The word begun so far, if there is one, with one more character. -/
def extend (word : Option Text) (c : Char) : Option Text := some (word.getD [] ++ [c])

/-- Reads the words of what follows offset `at`. `word` is the word begun, `group` the open quote and its offset;
    an open quote at the end is the error. -/
def scan : (offset : Nat) → (word : Option Text) → (group : Option (Char × Nat)) → Text →
    Except (Char × Nat) (List Text)
  | _, _, some open_, [] => .error open_
  | _, word, none, [] => .ok word.toList
  | offset, word, group, c :: rest =>
    if c = '\\' then
      match rest with
      | [] => scan (offset + 1) (extend word '\\') group []
      | d :: rest => scan (offset + 2) (extend word d) group rest
    else
      match group with
      | some (q, opened) =>
        if c = q then scan (offset + 1) word none rest
        else scan (offset + 1) (extend word c) (some (q, opened)) rest
      | none =>
        if isQuote c then scan (offset + 1) (some (word.getD [])) (some (c, offset)) rest
        else if Text.isBlank c then
          match word with
          | none => scan (offset + 1) none none rest
          | some w => (w :: ·) <$> scan (offset + 1) none none rest
        else scan (offset + 1) (extend word c) none rest

/-- The words of a text. -/
def split (text : Text) : Except Unclosed (List Text) :=
  match scan 0 none none text with
  | .ok words => .ok words
  | .error (quote, offset) => .error ⟨quote, offset, text⟩

/-- A character as it is written in a word. -/
def escape (c : Char) : Text := if isQuote c || c == '\\' then ['\\', c] else [c]

/-- A word as it is written in a text: between double quotes if it is empty or holds white space. -/
def quote (word : Text) : Text :=
  let body := word.flatMap escape
  if word.isEmpty || word.any Text.isBlank then "\"" ++ body ++ "\"" else body

/-- The words written one after the other. -/
def join (words : List Text) : Text := Text.joinWith " " (words.map quote)

end Runbook.Words
