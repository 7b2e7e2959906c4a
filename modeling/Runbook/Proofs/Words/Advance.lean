import Runbook.Words
import Mathlib.Tactic.Common

/-! # How the reader of words goes on

There is one equation of the reader for each kind of character. What it does with the beginning of a text does not
depend on what follows: it completes some words and comes to another state (`Advances`), and such stretches are put one
after the other by `Advances.trans`. -/

namespace Runbook.Words

variable {c q : Char} {s t rest : Text} {ws read read' : List Text} {word word' word'' : Option Text}
  {group group' group'' : Option (Char × Nat)} {offset opened : Nat}

/-! ### Character by character -/

theorem ne_backslash_of_isQuote (hquote : isQuote c = true) : c ≠ '\\' := by
  rintro rfl
  cases hquote

theorem isQuote_of_isBlank (hblank : Text.isBlank c = true) : isQuote c = false := by
  refine eq_false_of_ne_true fun hquote => ?_
  obtain rfl | rfl : c = '\'' ∨ c = '"' := by simpa [isQuote] using hquote
  all_goals cases hblank

theorem scan_backslash : scan offset word group ('\\' :: c :: rest) = scan (offset + 2) (extend word c) group rest := by
  rw [scan.eq_def]
  simp

theorem scan_bare (hc : c ≠ '\\') (hquote : isQuote c = false) (hblank : Text.isBlank c = false) :
    scan offset word none (c :: rest) = scan (offset + 1) (extend word c) none rest := by
  rw [scan.eq_def]
  simp [hc, hquote, hblank]

theorem scan_grouped (hc : c ≠ '\\') (hq : c ≠ q) :
    scan offset word (some (q, opened)) (c :: rest) = scan (offset + 1) (extend word c) (some (q, opened)) rest := by
  rw [scan.eq_def]
  simp [hc, hq]

theorem scan_open (hquote : isQuote c = true) :
    scan offset word none (c :: rest) = scan (offset + 1) (some (word.getD [])) (some (c, offset)) rest := by
  rw [scan.eq_def]
  simp [ne_backslash_of_isQuote hquote, hquote]

theorem scan_close (hc : c ≠ '\\') :
    scan offset word (some (c, opened)) (c :: rest) = scan (offset + 1) word none rest := by
  rw [scan.eq_def]
  simp [hc]

/-- A blank ends the word that is begun, if there is one. -/
theorem scan_blank (hblank : Text.isBlank c = true) :
    scan offset word none (c :: rest) = (word.toList ++ ·) <$> scan (offset + 1) none none rest := by
  have hquote : isQuote c = false := isQuote_of_isBlank hblank
  have hc : c ≠ '\\' := by
    rintro rfl
    cases hblank
  rw [scan.eq_def]
  cases word <;> simp [hc, hquote, hblank]

/-! ### From state to state -/

/-- Over `s` the reader comes from one state to another and completes the words `read`, whatever follows. -/
def Advances (offset : Nat) (word : Option Text) (group : Option (Char × Nat)) (s : Text) (read : List Text)
    (word' : Option Text) (group' : Option (Char × Nat)) : Prop :=
  ∀ rest, scan offset word group (s ++ rest) = (read ++ ·) <$> scan (offset + s.length) word' group' rest

namespace Advances

theorem refl : Advances offset word group [] [] word group := fun rest => by simp

theorem trans (hs : Advances offset word group s read word' group')
    (ht : Advances (offset + s.length) word' group' t read' word'' group'') :
    Advances offset word group (s ++ t) (read ++ read') word'' group'' := by
  intro rest
  rw [List.append_assoc, hs, ht, List.length_append, Nat.add_assoc]
  simp

theorem of_scan (h : ∀ rest, scan offset word group (s ++ rest) = scan (offset + s.length) word' group' rest) :
    Advances offset word group s [] word' group' := fun rest => by simp [h]

theorem scan_eq_ok (h : Advances offset word group s read word' group')
    (ht : scan (offset + s.length) word' group' t = .ok ws) :
    scan offset word group (s ++ t) = .ok (read ++ ws) := by
  rw [h, ht]
  rfl

theorem scan_eq_error_iff (h : Advances offset word group s read word' group') {e : Char × Nat} :
    scan offset word group (s ++ t) = .error e ↔ scan (offset + s.length) word' group' t = .error e := by
  rw [h]
  cases scan (offset + s.length) word' group' t <;> simp

end Advances

theorem advances_backslash : Advances offset word group ['\\', c] [] (extend word c) group :=
  .of_scan fun _ => scan_backslash

theorem advances_bare (hc : c ≠ '\\') (hquote : isQuote c = false) (hblank : Text.isBlank c = false) :
    Advances offset word none [c] [] (extend word c) none :=
  .of_scan fun _ => scan_bare hc hquote hblank

theorem advances_grouped (hc : c ≠ '\\') (hq : c ≠ q) :
    Advances offset word (some (q, opened)) [c] [] (extend word c) (some (q, opened)) :=
  .of_scan fun _ => scan_grouped hc hq

theorem advances_open (hquote : isQuote c = true) :
    Advances offset word none [c] [] (some (word.getD [])) (some (c, offset)) :=
  .of_scan fun _ => scan_open hquote

theorem advances_close (hq : q ≠ '\\') : Advances offset word (some (q, opened)) [q] [] word none :=
  .of_scan fun _ => scan_close hq

theorem advances_blank (hblank : Text.isBlank c = true) : Advances offset word none [c] word.toList none none :=
  fun _ => scan_blank hblank

end Runbook.Words
