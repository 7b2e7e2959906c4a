import Runbook.Proofs.Words.Advance

/-! # Written words are read back

Each character of a written word puts itself into the word that is being read, escaped or not, inside quotes or not
(`advances_escape`). So a written word reads to itself whatever follows (`advances_quote`), and words written one after
the other read to the same words (`split_join`). -/

namespace Runbook.Words

variable {c : Char} {w v : Text} {word : Option Text} {group : Option (Char × Nat)} {offset : Nat}

/-- A character as it is written goes into the word, except a blank outside of quotes. -/
theorem advances_escape (hgroup : ∀ q opened, group = some (q, opened) → isQuote q = true)
    (hblank : group = none → Text.isBlank c = false) :
    Advances offset word group (escape c) [] (extend word c) group := by
  unfold escape
  by_cases hspecial : (isQuote c || c == '\\') = true
  · rw [if_pos hspecial]
    exact advances_backslash
  · rw [if_neg hspecial]
    obtain ⟨hquote, hc⟩ : isQuote c = false ∧ c ≠ '\\' := by simpa using hspecial
    cases group with
    | none => exact advances_bare hc hquote (hblank rfl)
    | some open_ =>
      -- A quote would have been escaped, so the character does not close the group.
      refine advances_grouped hc ?_
      rintro rfl
      simp [hgroup open_.1 open_.2 rfl] at hquote

theorem advances_flatMap_escape (hgroup : ∀ q opened, group = some (q, opened) → isQuote q = true)
    (hblank : group = none → ∀ c ∈ w, Text.isBlank c = false) :
    Advances offset (some v) group (w.flatMap escape) [] (some (v ++ w)) group := by
  induction w generalizing offset v with
  | nil =>
    rw [List.append_nil]
    exact .refl
  | cons c w ih =>
    rw [List.flatMap_cons, List.append_cons v]
    exact (advances_escape hgroup fun h => hblank h c List.mem_cons_self).trans
      (ih fun h d hd => hblank h d (List.mem_cons_of_mem _ hd))

/-- A written word reads to itself, whatever follows it. -/
theorem advances_quote (w : Text) (offset : Nat) : Advances offset none none (quote w) [] (some w) none := by
  unfold quote
  dsimp only
  by_cases hneeds : (w.isEmpty || w.any Text.isBlank) = true
  · rw [if_pos hneeds]
    have hgroup : ∀ q opened, some ('"', offset) = some (q, opened) → isQuote q = true := by
      rintro q opened ⟨⟩
      rfl
    have hbody : Advances (offset + 1) (some []) (some ('"', offset)) (w.flatMap escape ++ ['"']) [] (some w) none :=
      (advances_flatMap_escape hgroup fun h => by cases h).trans (advances_close (by decide))
    exact (advances_open rfl).trans hbody
  · rw [if_neg hneeds]
    obtain ⟨hne, hblank⟩ : w ≠ [] ∧ ∀ c ∈ w, Text.isBlank c = false := by simpa using hneeds
    -- The first character begins the word, so that the rest finds one begun.
    obtain ⟨c, w, rfl⟩ := List.exists_cons_of_ne_nil hne
    exact (advances_escape (fun _ _ h => by cases h) fun _ => hblank c List.mem_cons_self).trans
      (advances_flatMap_escape (fun _ _ h => by cases h) fun _ d hd => hblank d (List.mem_cons_of_mem _ hd))

theorem scan_join (words : List Text) (offset : Nat) : scan offset none none (join words) = .ok words := by
  induction words generalizing offset with
  | nil => simp [join, Text.joinWith, scan]
  | cons w words ih =>
    cases words with
    | nil => simpa [join, Text.joinWith] using (advances_quote w offset).scan_eq_ok (t := []) rfl
    | cons w' words =>
      have hjoin : join (w :: w' :: words) = quote w ++ [' '] ++ join (w' :: words) := by
        simp [join, Text.joinWith]
      rw [hjoin]
      exact ((advances_quote w offset).trans (advances_blank rfl)).scan_eq_ok (ih _)

/-- Words of any characters, written one after the other, are read back. -/
theorem split_join (words : List Text) : split (join words) = .ok words := by
  rw [split, scan_join]

end Runbook.Words
