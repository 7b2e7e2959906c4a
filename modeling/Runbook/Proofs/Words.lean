import Runbook.Words
import Mathlib.Tactic.Common

/-! # The characters of words

A character that neither separates nor groups nor escapes is in some word of a text exactly if it is in the text
(`mem_split_iff`). -/

namespace Runbook.Words

variable {c : Char} {text : Text} {words : List Text} {word : Option Text} {group : Option (Char × Nat)} {offset : Nat}

/-- A character that has no meaning of its own in a text of words. -/
structure IsPlain (c : Char) : Prop where
  blank : Text.isBlank c = false
  quote : isQuote c = false
  escape : c ≠ '\\'

theorem mem_extend {d : Char} : (∃ w ∈ extend word d, c ∈ w) ↔ (∃ w ∈ word, c ∈ w) ∨ c = d := by
  cases word <;> simp [extend]

theorem exists_of_cons_eq_ok {ε : Type} {w : Text} {x : Except ε (List Text)} (h : (w :: ·) <$> x = .ok words) :
    ∃ ws, x = .ok ws ∧ w :: ws = words := by
  cases x with
  | error e => cases h
  | ok ws =>
    cases h
    exact ⟨ws, rfl, rfl⟩

theorem cons_eq_error_iff {ε : Type} {w : Text} {x : Except ε (List Text)} {e : ε} :
    (w :: ·) <$> x = .error e ↔ x = .error e := by
  cases x <;> simp

/-- What is read and what has been begun holds the character exactly if the words do. -/
theorem mem_scan_iff (hc : IsPlain c) (hgroup : ∀ q o, group = some (q, o) → isQuote q = true)
    (h : scan offset word group text = .ok words) : (∃ w ∈ words, c ∈ w) ↔ (∃ w ∈ word, c ∈ w) ∨ c ∈ text := by
  -- One case for each branch of the reader; only an escape, a quote and a separating blank are left out of the words.
  fun_induction scan offset word group text generalizing words with
  | case1 => cases h
  | case2 offset word =>
    cases h
    cases word <;> simp
  | case3 offset word group ih =>
    rw [ih hgroup h, mem_extend]
    simp [hc.escape]
  | case4 offset word group d rest ih =>
    rw [ih hgroup h, mem_extend]
    simp [hc.escape, or_assoc]
  | case5 offset word rest q opened hescape ih =>
    have hq : c ≠ q := fun e => by simpa [hc.quote, e.symm] using hgroup q opened rfl
    rw [ih (by simp) h]
    simp [hq]
  | case6 offset word d rest hescape q opened hne ih =>
    rw [ih hgroup h, mem_extend]
    simp [or_assoc]
  | case7 offset word d rest hescape hquote ih =>
    have hd : c ≠ d := fun e => by simp [hc.quote, e.symm] at hquote
    rw [ih (by simpa using hquote) h]
    cases word <;> simp [hd]
  | case8 offset d rest hescape hquote hblank ih =>
    have hd : c ≠ d := fun e => by simp [hc.blank, e.symm] at hblank
    rw [ih (by simp) h]
    simp [hd]
  | case9 offset d rest hescape hquote hblank w ih =>
    have hd : c ≠ d := fun e => by simp [hc.blank, e.symm] at hblank
    obtain ⟨ws, hws, rfl⟩ := exists_of_cons_eq_ok h
    have hmem : (∃ v ∈ ws, c ∈ v) ↔ c ∈ rest := by simpa using ih (by simp) hws
    simp [hmem, hd]
  | case10 offset word d rest hescape hquote hblank ih =>
    rw [ih (by simp) h, mem_extend]
    simp [or_assoc]

theorem split_eq_ok : split text = .ok words ↔ scan 0 none none text = .ok words := by
  unfold split
  cases scan 0 none none text <;> simp

theorem split_eq_error {e : Unclosed} :
    split text = .error e ↔ scan 0 none none text = .error (e.quote, e.offset) ∧ e.text = text := by
  obtain ⟨quote, offset, text'⟩ := e
  unfold split
  cases scan 0 none none text with
  | ok words => simp
  | error e => simp [Prod.ext_iff, and_assoc, eq_comm]

theorem mem_split_iff (hc : IsPlain c) (h : split text = .ok words) : (∃ w ∈ words, c ∈ w) ↔ c ∈ text := by
  simpa using mem_scan_iff hc (by simp) (split_eq_ok.1 h)

end Runbook.Words
