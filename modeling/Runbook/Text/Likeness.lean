import Runbook.Text

/-! # Likeness of texts

How much of one text is found again in another. The longest stretch that both have counts first; then the texts before
it are compared with each other, and so are the texts after it. Two texts are alike if at least six tenths of their
characters are matched in this way. -/

namespace Runbook.Text

/-- A stretch that two texts have in common: where it begins in the first and in the second, and how long it is. -/
structure Stretch where
  first : Nat
  second : Nat
  length : Nat
deriving DecidableEq, Repr

/-- How many characters two texts have in common at their beginning. -/
def commonStart : Text → Text → Nat
  | a :: s, b :: t => if a = b then commonStart s t + 1 else 0
  | _, _ => 0

/-- The common stretch that begins at a place in the first text and at one in the second. -/
def stretchAt (s t : Text) (i j : Nat) : Stretch := ⟨i, j, commonStart (s.drop i) (t.drop j)⟩

/-- The longest common stretch: of several, the one that begins first in the first text, and of those the one that
    begins first in the second. -/
def longestStretch (s t : Text) : Stretch :=
  ((List.range s.length).flatMap fun i => (List.range t.length).map (stretchAt s t i)).foldl
    (fun best next => if best.length < next.length then next else best) ⟨0, 0, 0⟩

/-- How many characters of two texts are matched. `fuel` bounds how often they are divided. -/
def matchedWith : (fuel : Nat) → Text → Text → Nat
  | 0, _, _ => 0
  | fuel + 1, s, t =>
    let common := longestStretch s t
    if common.length = 0 then 0
    else
      matchedWith fuel (s.take common.first) (t.take common.second) + common.length +
        matchedWith fuel (s.drop (common.first + common.length)) (t.drop (common.second + common.length))

/-- How many characters of two texts are matched. Every division takes a character of the first text away. -/
def matched (s t : Text) : Nat := matchedWith (s.length + 1) s t

/-- Whether two texts are alike. -/
def isLike (s t : Text) : Bool := 3 * (s.length + t.length) ≤ 10 * matched s t

/-- Whether `s` is at least as like to `word` as `t` is; of two that are equally like to it, the greater one is. -/
def likerThan (word s t : Text) : Bool :=
  let here := matched s word * (t.length + word.length)
  let there := matched t word * (s.length + word.length)
  there < here || (there == here && le t s)

/-- The texts that are like `word`, at most three of them, in ascending order. -/
def suggestions (word : Text) (known : List Text) : List Text :=
  sort (((known.filter (isLike · word)).mergeSort (likerThan word)).take 3)

end Runbook.Text
