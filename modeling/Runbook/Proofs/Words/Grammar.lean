import Runbook.Proofs.Words
import Runbook.Proofs.Words.Advance

/-! # The grammar of words

A word is written as pieces: plain characters, characters after a backslash, and groups between two quotes. White
space separates words and may stand around them, and a backslash that is the last character of a text is a piece too.
A text that is written so is read to the values of its words (`scan_series`). Conversely, what the reader accepts is
written so: in whatever state it is, the text that it accepts completes what is begun (`resumes_of_scan`).

Main statement: `split_eq_ok_iff`. -/

namespace Runbook.Words

/-- `Inside q s v`: inside a group that `q` closes, `s` stands for `v`. -/
inductive Inside (q : Char) : Text → Text → Prop
  | nil : Inside q [] []
  | char {c : Char} {s v : Text} : c ≠ q → c ≠ '\\' → Inside q s v → Inside q (c :: s) (c :: v)
  | pair {c : Char} {s v : Text} : Inside q s v → Inside q ('\\' :: c :: s) (c :: v)

/-- `Piece s v`: `s` is a piece of a word and stands for `v`. -/
inductive Piece : Text → Text → Prop
  | plain {c : Char} : IsPlain c → Piece [c] [c]
  | pair {c : Char} : Piece ['\\', c] [c]
  | group {q : Char} {s v : Text} : isQuote q = true → Inside q s v → Piece (q :: s ++ [q]) v

/-- Pieces one after the other. -/
inductive Pieces : Text → Text → Prop
  | nil : Pieces [] []
  | cons {s t v u : Text} : Piece s v → Pieces t u → Pieces (s ++ t) (v ++ u)

/-- White space, which may be empty. -/
def IsGap (gap : Text) : Prop := ∀ c ∈ gap, Text.isBlank c = true

/-- `Series s words`: the words one after the other, with white space after each. Only the last may have none after
    it, and only then may a backslash be its last piece. -/
inductive Series : Text → List Text → Prop
  | nil : Series [] []
  | last {s v : Text} : Pieces s v → s ≠ [] → Series s [v]
  | lone {s v : Text} : Pieces s v → Series (s ++ ['\\']) [v ++ ['\\']]
  | cons {s v gap t : Text} {words : List Text} : Pieces s v → s ≠ [] → IsGap gap → gap ≠ [] → Series t words →
      Series (s ++ gap ++ t) (v :: words)

/-- `Spells text words`: white space, and then the words. -/
def Spells (text : Text) (words : List Text) : Prop :=
  ∃ gap rest, IsGap gap ∧ Series rest words ∧ text = gap ++ rest

variable {c q : Char} {s t u v gap rest text : Text} {words : List Text} {word : Option Text}
  {group : Option (Char × Nat)} {offset opened : Nat}

/-! ### What is written so is read -/

theorem advances_inside (h : Inside q s v) (offset : Nat) (u : Text) :
    Advances offset (some u) (some (q, opened)) s [] (some (u ++ v)) (some (q, opened)) := by
  induction h generalizing offset u with
  | nil =>
    rw [List.append_nil]
    exact .refl
  | @char c s v hne hc _ ih =>
    rw [List.append_cons u]
    exact (advances_grouped hc hne).trans (ih (offset + 1) (u ++ [c]))
  | @pair c s v _ ih =>
    rw [List.append_cons u]
    exact advances_backslash.trans (ih (offset + 2) (u ++ [c]))

theorem advances_piece (h : Piece s v) (offset : Nat) (word : Option Text) :
    Advances offset word none s [] (some (word.getD [] ++ v)) none := by
  cases h with
  | plain hc => exact advances_bare hc.escape hc.quote hc.blank
  | pair => exact advances_backslash
  | @group q s _ hq h =>
    have hgroup : Advances (offset + 1) (some (word.getD [])) (some (q, offset)) (s ++ [q]) []
        (some (word.getD [] ++ v)) none :=
      (advances_inside h (offset + 1) (word.getD [])).trans (advances_close (ne_backslash_of_isQuote hq))
    exact (advances_open hq).trans hgroup

theorem advances_pieces (h : Pieces s v) (offset : Nat) (u : Text) :
    Advances offset (some u) none s [] (some (u ++ v)) none := by
  induction h generalizing offset u with
  | nil =>
    rw [List.append_nil]
    exact .refl
  | @cons s t v w hs _ ih =>
    rw [← List.append_assoc]
    exact (advances_piece hs offset (some u)).trans (ih (offset + s.length) (u ++ v))

theorem Piece.ne_nil (h : Piece s v) : s ≠ [] := by
  cases h <;> exact List.cons_ne_nil _ _

theorem Pieces.eq_nil (h : Pieces s v) (hs : s = []) : v = [] := by
  cases h with
  | nil => rfl
  | cons hp _ => exact absurd (List.append_eq_nil_iff.1 hs).1 hp.ne_nil

/-- Pieces that are not nothing begin a word. -/
theorem advances_word (h : Pieces s v) (hne : s ≠ []) (offset : Nat) :
    Advances offset none none s [] (some v) none := by
  cases h with
  | nil => exact absurd rfl hne
  | @cons s t v w hs ht =>
    exact (advances_piece hs offset none).trans (advances_pieces ht (offset + s.length) v)

theorem advances_gap (h : IsGap gap) (offset : Nat) : Advances offset none none gap [] none none := by
  induction gap generalizing offset with
  | nil => exact .refl
  | cons c gap ih =>
    obtain ⟨hc, hgap⟩ := List.forall_mem_cons.1 h
    exact (advances_blank hc).trans (ih hgap (offset + 1))

theorem scan_series (h : Series s words) (offset : Nat) : scan offset none none s = .ok words := by
  induction h generalizing offset with
  | nil => rfl
  | @last s v hs hne => simpa using (advances_word hs hne offset).scan_eq_ok (t := []) rfl
  | @lone s v hs =>
    by_cases hne : s = []
    · rw [hne, hs.eq_nil hne]
      rfl
    · exact (advances_word hs hne offset).scan_eq_ok rfl
  | @cons s v gap t words hs hne hgap hgap' _ ih =>
    obtain ⟨c, gap, rfl⟩ := List.exists_cons_of_ne_nil hgap'
    obtain ⟨hc, hgap⟩ := List.forall_mem_cons.1 hgap
    have hgaps : Advances (offset + s.length) (some v) none (c :: gap) [v] none none :=
      (advances_blank hc).trans (advances_gap hgap (offset + s.length + 1))
    exact ((advances_word hs hne offset).trans hgaps).scan_eq_ok (ih _)

theorem split_of_spells (h : Spells text words) : split text = .ok words := by
  obtain ⟨gap, rest, hgap, hrest, rfl⟩ := h
  exact split_eq_ok.2 ((advances_gap hgap 0).scan_eq_ok (scan_series hrest _))

/-! ### What is read is written so -/

/-- What may stand after the pieces of the word `v`: the end, a last backslash, or white space and more words. -/
inductive Ends (v : Text) : Text → List Text → Prop
  | nil : Ends v [] [v]
  | lone : Ends v ['\\'] [v ++ ['\\']]
  | blank {c : Char} {t : Text} {words : List Text} : Text.isBlank c = true → Spells t words →
      Ends v (c :: t) (v :: words)

/-- In the middle of a word, of which `u` is read: more pieces, and then the end of the word. -/
def Continues (u t : Text) (words : List Text) : Prop :=
  ∃ s v rest, Pieces s v ∧ Ends (u ++ v) rest words ∧ t = s ++ rest

/-- What the reader accepts in each of its states. -/
def Resumes (text : Text) (words : List Text) : Option (Char × Nat) → Option Text → Prop
  | none, none => Spells text words
  | none, some u => Continues u text words
  | some (q, _), word => ∃ s v rest, Inside q s v ∧ Continues (word.getD [] ++ v) rest words ∧ text = s ++ q :: rest

theorem continues_piece (hs : Piece s v) (ht : Continues (u ++ v) t words) : Continues u (s ++ t) words := by
  obtain ⟨s', v', rest, hs', hend, rfl⟩ := ht
  rw [List.append_assoc] at hend
  exact ⟨s ++ s', v ++ v', rest, .cons hs hs', hend, (List.append_assoc ..).symm⟩

theorem spells_piece (hs : Piece s v) (ht : Continues v t words) : Spells (s ++ t) words := by
  obtain ⟨s', v', rest, hs', hend, rfl⟩ := ht
  have hpieces : Pieces (s ++ s') (v ++ v') := .cons hs hs'
  have hne : s ++ s' ≠ [] := List.append_ne_nil_of_left_ne_nil hs.ne_nil s'
  refine ⟨[], s ++ s' ++ rest, List.forall_mem_nil _, ?_, (List.append_assoc ..).symm⟩
  generalize v ++ v' = value at hend hpieces
  cases hend with
  | nil =>
    rw [List.append_nil]
    exact .last hpieces hne
  | lone => exact .lone hpieces
  | @blank c t words hc ht =>
    obtain ⟨gap, rest, hgap, hrest, rfl⟩ := ht
    rw [← List.cons_append, ← List.append_assoc]
    exact .cons hpieces hne (List.forall_mem_cons.2 ⟨hc, hgap⟩) (List.cons_ne_nil c gap) hrest

theorem resumes_piece (hs : Piece s v) (ht : Continues (word.getD [] ++ v) t words) :
    Resumes (s ++ t) words none word := by
  cases word with
  | none => exact spells_piece hs ht
  | some u => exact continues_piece hs ht

theorem Spells.cons_blank (hc : Text.isBlank c = true) (h : Spells text words) : Spells (c :: text) words := by
  obtain ⟨gap, rest, hgap, hrest, rfl⟩ := h
  exact ⟨c :: gap, rest, List.forall_mem_cons.2 ⟨hc, hgap⟩, hrest, rfl⟩

theorem resumes_of_scan (hword : group.isSome → word.isSome) (h : scan offset word group text = .ok words) :
    Resumes text words group word := by
  -- One case for each branch of the reader: a piece goes before what is accepted after it.
  fun_induction scan offset word group text generalizing words with
  | case1 => cases h
  | case2 offset word =>
    cases h
    cases word with
    | none => exact ⟨[], [], List.forall_mem_nil _, .nil, rfl⟩
    | some u => exact ⟨[], [], [], .nil, by simpa using Ends.nil, rfl⟩
  | case3 offset word group ih =>
    cases group with
    | some open_ => cases h
    | none =>
      cases h
      cases word with
      | none => exact ⟨[], ['\\'], List.forall_mem_nil _, .lone .nil, rfl⟩
      | some u => exact ⟨[], [], ['\\'], .nil, by simpa [extend] using Ends.lone, rfl⟩
  | case4 offset word group d rest ih =>
    have hrest := ih (fun _ => rfl) h
    cases group with
    | none => exact resumes_piece .pair hrest
    | some open_ =>
      obtain ⟨s, v, rest, hs, ht, rfl⟩ := hrest
      exact ⟨'\\' :: d :: s, d :: v, rest, .pair hs, by simpa [extend] using ht, rfl⟩
  | case5 offset word rest q opened hescape ih =>
    obtain ⟨u, rfl⟩ := Option.isSome_iff_exists.1 (hword rfl)
    have hrest : Continues u rest words := ih (by simp) h
    exact ⟨[], [], rest, .nil, by simpa using hrest, rfl⟩
  | case6 offset word d rest hescape q opened hne ih =>
    obtain ⟨s, v, rest, hs, ht, rfl⟩ := ih (fun _ => rfl) h
    exact ⟨d :: s, d :: v, rest, .char hne hescape hs, by simpa [extend] using ht, rfl⟩
  | case7 offset word d rest hescape hquote ih =>
    obtain ⟨s, v, rest, hs, ht, rfl⟩ := ih (fun _ => rfl) h
    have hpiece : Piece (d :: s ++ [d]) v := .group hquote hs
    rw [List.append_cons s, ← List.cons_append]
    exact resumes_piece hpiece ht
  | case8 offset d rest hescape hquote hblank ih => exact Spells.cons_blank hblank (ih (by simp) h)
  | case9 offset d rest hescape hquote hblank w ih =>
    obtain ⟨ws, hws, rfl⟩ := exists_of_cons_eq_ok h
    exact ⟨[], [], d :: rest, .nil, by simpa using Ends.blank hblank (ih (by simp) hws), rfl⟩
  | case10 offset word d rest hescape hquote hblank ih =>
    have hplain : IsPlain d := ⟨eq_false_of_ne_true hblank, eq_false_of_ne_true hquote, hescape⟩
    exact resumes_piece (.plain hplain) (ih (by simp) h)

/-- A text of white space alone is the only one without words. -/
theorem Spells.ne_nil (h : Spells text words) (hmem : c ∈ text) (hc : Text.isBlank c = false) : words ≠ [] := by
  rintro rfl
  obtain ⟨gap, rest, hgap, hrest, rfl⟩ := h
  cases hrest
  rw [List.append_nil] at hmem
  rw [hgap c hmem] at hc
  cases hc

/-- The reader accepts exactly the texts that the grammar spells, and returns the values of their words. -/
theorem split_eq_ok_iff : split text = .ok words ↔ Spells text words :=
  ⟨fun h => resumes_of_scan (by simp) (split_eq_ok.1 h), split_of_spells⟩

end Runbook.Words
