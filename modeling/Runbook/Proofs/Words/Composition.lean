import Runbook.Proofs.Words
import Runbook.Proofs.Words.Advance
import Mathlib.Algebra.Group.Nat.Even
import Mathlib.Data.List.DropRight

/-! # Texts of words one after the other

A text whose words are complete leaves the reader outside of groups (`advances_of_scan`). A blank after it ends the
last of the words, and the reader goes on as if it began there (`scan_append`): what it returns and what it reports are
those of the second text, with the offsets moved (`scan_shift`). The first text is complete unless its last backslash is
still to take a character, which the number of the backslashes at its end tells (`even_trailing_escape`).

Main statement: `split_append`. -/

namespace Runbook.Words

variable {a b text : Text} {c d : Char} {ws : List Text} {word : Option Text} {group : Option (Char × Nat)}
  {offset : Nat}

/-! ### Offsets -/

/-- An open quote and its offset, `k` characters further on. -/
def shift (k : Nat) (open_ : Char × Nat) : Char × Nat := (open_.1, k + open_.2)

/-- Offsets only count: a reader that starts further on reads the same words and reports the same quote. -/
theorem scan_shift (k offset : Nat) (word : Option Text) (group : Option (Char × Nat)) (text : Text) :
    scan (k + offset) word (group.map (shift k)) text = (scan offset word group text).mapError (shift k) := by
  fun_induction scan offset word group text with
  | case1 offset word open_ => simp [scan, Except.mapError]
  | case2 offset word => simp [scan, Except.mapError]
  | case3 offset word group ih => rw [← ih, scan.eq_def]; simp [Nat.add_assoc]
  | case4 offset word group d rest ih => rw [← ih, scan_backslash, Nat.add_assoc]
  | case5 offset word rest q opened hescape ih => rw [← ih, scan.eq_def]; simp [shift, hescape, Nat.add_assoc]
  | case6 offset word d rest hescape q opened hne ih =>
    rw [← ih, Option.map_some, shift, scan_grouped hescape hne, Nat.add_assoc]
  | case7 offset word d rest hescape hquote ih => rw [← ih, Option.map_none, scan_open hquote, Nat.add_assoc]; rfl
  | case8 offset d rest hescape hquote hblank ih =>
    rw [Option.map_none] at ih ⊢
    rw [scan_blank hblank, Nat.add_assoc, ih]
    cases scan (offset + 1) none none rest <;> rfl
  | case9 offset d rest hescape hquote hblank w ih =>
    rw [Option.map_none] at ih ⊢
    rw [scan_blank hblank, Nat.add_assoc, ih]
    cases scan (offset + 1) none none rest <;> rfl
  | case10 offset word d rest hescape hquote hblank ih =>
    rw [← ih, Option.map_none, scan_bare hescape (eq_false_of_ne_true hquote)
      (eq_false_of_ne_true hblank), Nat.add_assoc]

/-! ### Backslashes at the end -/

/-- How many backslashes a text ends with. -/
def trailing (text : Text) : Nat := (text.rtakeWhile (· == '\\')).length

theorem trailing_le_length : trailing text ≤ text.length := (List.rtakeWhile_suffix _ _).length_le

theorem trailing_cons :
    trailing (c :: text) = trailing text + if c = '\\' ∧ trailing text = text.length then 1 else 0 := by
  simp only [trailing, List.rtakeWhile, List.reverse_cons, List.takeWhile_append, List.length_reverse]
  by_cases hall : (text.reverse.takeWhile (· == '\\')).length = text.length
  · by_cases hc : c = '\\' <;> simp [hall, hc]
  · simp [hall]

theorem trailing_cons_of_ne (hc : c ≠ '\\') : trailing (c :: text) = trailing text := by
  simp [trailing_cons, hc]

/-- A backslash and the character that it takes leave it as it was whether the backslashes at the end pair up. -/
theorem even_trailing_escape : Even (trailing ('\\' :: d :: text)) ↔ Even (trailing text) := by
  have hle : trailing text ≤ text.length := trailing_le_length
  rw [trailing_cons, trailing_cons, List.length_cons]
  by_cases hd : d = '\\' ∧ trailing text = text.length
  · simp [hd, Nat.even_add_one]
  · have hne : trailing text ≠ text.length + 1 := by omega
    simp [hd, hne]

/-! ### The two texts -/

/-- A text whose words are complete leaves the reader between words or in a word, but in no group. -/
theorem advances_of_scan (heven : Even (trailing a)) (h : scan offset word group a = .ok ws) :
    ∃ read begun, read ++ begun.toList = ws ∧ Advances offset word group a read begun none := by
  fun_induction scan offset word group a generalizing ws with
  | case1 => cases h
  | case2 offset word =>
    cases h
    exact ⟨[], word, rfl, .refl⟩
  | case3 offset word group ih => exact absurd heven (by decide)
  | case4 offset word group d rest ih =>
    obtain ⟨read, begun, hws, hrest⟩ := ih (even_trailing_escape.1 heven) h
    exact ⟨read, begun, hws, advances_backslash.trans hrest⟩
  | case5 offset word rest q opened hescape ih =>
    rw [trailing_cons_of_ne hescape] at heven
    obtain ⟨read, begun, hws, hrest⟩ := ih heven h
    exact ⟨read, begun, hws, (advances_close hescape).trans hrest⟩
  | case6 offset word d rest hescape q opened hne ih =>
    rw [trailing_cons_of_ne hescape] at heven
    obtain ⟨read, begun, hws, hrest⟩ := ih heven h
    exact ⟨read, begun, hws, (advances_grouped hescape hne).trans hrest⟩
  | case7 offset word d rest hescape hquote ih =>
    rw [trailing_cons_of_ne hescape] at heven
    obtain ⟨read, begun, hws, hrest⟩ := ih heven h
    exact ⟨read, begun, hws, (advances_open hquote).trans hrest⟩
  | case8 offset d rest hescape hquote hblank ih =>
    rw [trailing_cons_of_ne hescape] at heven
    obtain ⟨read, begun, hws, hrest⟩ := ih heven h
    exact ⟨read, begun, hws, (advances_blank hblank).trans hrest⟩
  | case9 offset d rest hescape hquote hblank w ih =>
    rw [trailing_cons_of_ne hescape] at heven
    obtain ⟨vs, hvs, rfl⟩ := exists_of_cons_eq_ok h
    obtain ⟨read, begun, rfl, hrest⟩ := ih heven hvs
    exact ⟨w :: read, begun, rfl, (advances_blank hblank).trans hrest⟩
  | case10 offset word d rest hescape hquote hblank ih =>
    rw [trailing_cons_of_ne hescape] at heven
    obtain ⟨read, begun, hws, hrest⟩ := ih heven h
    exact ⟨read, begun, hws,
      (advances_bare hescape (eq_false_of_ne_true hquote) (eq_false_of_ne_true hblank)).trans hrest⟩

/-- A blank after a text whose words are complete leaves nothing begun: what follows is read as if the reader began
    there. -/
theorem scan_append (hc : Text.isBlank c = true) (heven : Even (trailing a))
    (h : scan offset word group a = .ok ws) :
    scan offset word group (a ++ c :: b) = (ws ++ ·) <$> scan (offset + a.length + 1) none none b := by
  obtain ⟨read, begun, rfl, ha⟩ := advances_of_scan heven h
  rw [ha, scan_blank hc]
  simp

/-- A blank separates a text whose words are complete, and whose backslashes at the end pair up, from any other text:
    the words are those of the one and then those of the other, and a quote that the other leaves open is reported where
    it stands in the whole. -/
theorem split_append (ha : split a = .ok ws) (heven : Even (trailing a)) (hc : Text.isBlank c = true) :
    (∀ vs, split b = .ok vs → split (a ++ c :: b) = .ok (ws ++ vs)) ∧
      ∀ e, split b = .error e → split (a ++ c :: b) = .error ⟨e.quote, a.length + 1 + e.offset, a ++ c :: b⟩ := by
  have hwhole : scan 0 none none (a ++ c :: b) =
      (ws ++ ·) <$> (scan 0 none none b).mapError (shift (a.length + 1)) := by
    rw [scan_append hc heven (split_eq_ok.1 ha), ← scan_shift, Nat.zero_add]
    rfl
  refine ⟨fun vs hb => ?_, fun e hb => ?_⟩
  · rw [split_eq_ok.1 hb] at hwhole
    exact split_eq_ok.2 hwhole
  · rw [(split_eq_error.1 hb).1] at hwhole
    exact split_eq_error.2 ⟨hwhole, rfl⟩

/-- A first text that ends with an escaped backslash, before words and before a quote that is left open. -/
theorem split_append_of_escaped_end :
    split ("a 'b'\\\\" : Text) = .ok ["a", "b\\"] ∧ Even (trailing "a 'b'\\\\") ∧ Text.isBlank '\t' = true ∧
      split ("a 'b'\\\\" ++ '\t' :: ("'' c" : Text)) = .ok (["a", "b\\"] ++ ["", "c"]) ∧
      split ("a 'b'\\\\" ++ '\t' :: ("c \"d" : Text)) =
        .error ⟨'"', 7 + 1 + 2, "a 'b'\\\\" ++ '\t' :: ("c \"d" : Text)⟩ := by
  have ha : split ("a 'b'\\\\" : Text) = .ok ["a", "b\\"] := by decide +kernel
  have heven : Even (trailing "a 'b'\\\\") := by decide +kernel
  have hc : Text.isBlank '\t' = true := rfl
  exact ⟨ha, heven, hc, (split_append ha heven hc).1 _ (by decide +kernel),
    (split_append ha heven hc).2 _ (show split _ = .error ⟨'"', 2, "c \"d"⟩ by decide +kernel)⟩

end Runbook.Words
