import Runbook.Proofs.Words.Composition
import Runbook.Proofs.Words.Grammar
import Mathlib.Algebra.Ring.Parity

/-! # Quotes that are left open

In a group a quote of the same kind closes it unless a backslash takes it, and whether one does is told by the number of
backslashes before the quote: it is taken if that number is odd (`Spares`). The reader reports the quote that stands
after an accepted text and that no later one closes (`leaves_of_scan`), so it reports at most one. One more quote closes
it, unless a backslash at the end takes that one too.

Main statement: `split_unclosed`. -/

namespace Runbook.Words

variable {a b s t text : Text} {c d q : Char} {ws read : List Text} {word word' : Option Text}
  {group group' : Option (Char × Nat)} {offset opened o : Nat}

/-! ### Quotes that backslashes take -/

/-- No `q` in the text closes a group: the last of the backslashes before it takes it. -/
def Spares (q : Char) (text : Text) : Prop := ∀ s t, text = s ++ q :: t → Odd (trailing s)

theorem odd_trailing_escape : Odd (trailing ('\\' :: d :: text)) ↔ Odd (trailing text) := by
  rw [← Nat.not_even_iff_odd, even_trailing_escape, Nat.not_even_iff_odd]

theorem spares_nil : Spares q [] := fun s t h => by cases s <;> cases h

theorem spares_lone (hq : q ≠ '\\') : Spares q ['\\'] := by
  intro s t hs
  rcases s with _ | ⟨d, s⟩
  · exact absurd (List.cons.inj hs).1.symm hq
  · cases s <;> cases (List.cons.inj hs).2

theorem spares_cons (hc : c ≠ '\\') : Spares q (c :: text) ↔ c ≠ q ∧ Spares q text := by
  constructor
  · intro h
    refine ⟨?_, fun s t hs => ?_⟩
    · rintro rfl
      exact absurd (h [] text rfl) (by decide)
    · have hodd := h (c :: s) t (congrArg (c :: ·) hs)
      rwa [trailing_cons_of_ne hc] at hodd
  · rintro ⟨hne, h⟩ s t hs
    cases s with
    | nil => exact absurd (List.cons.inj hs).1 hne
    | cons d s =>
      obtain ⟨rfl, htext⟩ := List.cons.inj hs
      rw [trailing_cons_of_ne hc]
      exact h s t htext

theorem spares_escape (hq : q ≠ '\\') : Spares q ('\\' :: c :: text) ↔ Spares q text := by
  constructor
  · intro h s t hs
    exact odd_trailing_escape.1 (h ('\\' :: c :: s) t (by rw [hs]; rfl))
  · intro h s t hs
    rcases s with _ | ⟨d, _ | ⟨e, s⟩⟩
    · exact absurd (List.cons.inj hs).1.symm hq
    · cases hs
      decide
    · cases hs
      exact odd_trailing_escape.2 (h s t rfl)

/-- A quote that is put at the end is taken like the others if the backslashes before it do not pair up. -/
theorem Spares.concat (h : Spares q text) (hodd : Odd (trailing text)) : Spares q (text ++ [q]) := by
  intro s t hs
  rcases List.eq_nil_or_concat t with rfl | ⟨t, d, rfl⟩
  · rwa [← (List.append_inj' hs rfl).1]
  · have hs : text ++ [q] = s ++ q :: t ++ [d] := by simpa using hs
    exact h s t (List.append_inj' hs rfl).1

/-- A text that closes no group is the inside of one, up to a last backslash that has nothing to take. -/
theorem Spares.exists_inside (hq : q ≠ '\\') : ∀ {text : Text}, Spares q text → ∃ s v, Inside q s v ∧
    (text = s ∧ Even (trailing text) ∨ text = s ++ ['\\'] ∧ Odd (trailing text))
  | [], _ => ⟨[], [], .nil, .inl ⟨rfl, by decide⟩⟩
  | c :: text, h => by
    by_cases hc : c = '\\'
    · subst hc
      rcases text with _ | ⟨d, text⟩
      · exact ⟨[], [], .nil, .inr ⟨rfl, by decide⟩⟩
      · obtain ⟨s, v, hs, hend⟩ := exists_inside hq ((spares_escape hq).1 h)
        refine ⟨'\\' :: d :: s, d :: v, .pair hs, ?_⟩
        rw [even_trailing_escape, odd_trailing_escape]
        simpa using hend
    · obtain ⟨hne, h⟩ := (spares_cons hc).1 h
      obtain ⟨s, v, hs, hend⟩ := exists_inside hq h
      refine ⟨c :: s, c :: v, .char hne hc hs, ?_⟩
      rw [trailing_cons_of_ne hc]
      simpa using hend

theorem scan_of_spares (hq : q ≠ '\\') (h : Spares q text) {u : Text} :
    scan offset (some u) (some (q, opened)) text = .error (q, opened) := by
  obtain ⟨s, v, hs, ⟨rfl, -⟩ | ⟨rfl, -⟩⟩ := h.exists_inside hq
  · simpa using ((advances_inside hs offset u).scan_eq_error_iff (t := [])).2 rfl
  · exact (advances_inside hs offset u).scan_eq_error_iff.2 rfl

/-! ### The quote that is reported -/

/-- `Leaves offset word group text q o`: the reader, which is in some state before `text`, ends in the group that `q`
    opens at `o`. Either it is in that group already, or it comes out of every group before `o`. -/
def Leaves (offset : Nat) (word : Option Text) (group : Option (Char × Nat)) (text : Text) (q : Char) (o : Nat) :
    Prop :=
  (group = some (q, o) ∧ Spares q text) ∨
    ∃ a b ws, text = a ++ q :: b ∧ o = offset + a.length ∧ isQuote q = true ∧
      scan offset word group a = .ok ws ∧ Even (trailing a) ∧ Spares q b

/-- What is left open after the reader has gone on over whole pieces is left open before them. -/
theorem Leaves.of_advances (hs : Advances offset word group s read word' group')
    (heven : ∀ a, Even (trailing a) → Even (trailing (s ++ a)))
    (hgroup : group' = some (q, o) → Spares q text → Leaves offset word group (s ++ text) q o)
    (h : Leaves (offset + s.length) word' group' text q o) : Leaves offset word group (s ++ text) q o := by
  rcases h with ⟨hopen, hspares⟩ | ⟨a, b, ws, rfl, rfl, hquote, ha, htrailing, hspares⟩
  · exact hgroup hopen hspares
  · exact .inr ⟨s ++ a, b, read ++ ws, by simp, by simp [Nat.add_assoc], hquote, hs.scan_eq_ok ha,
      heven a htrailing, hspares⟩

theorem Leaves.cons (hc : c ≠ '\\') (hs : Advances offset word group [c] read word' group')
    (hgroup : group' = some (q, o) → Spares q text → Leaves offset word group (c :: text) q o)
    (h : Leaves (offset + 1) word' group' text q o) : Leaves offset word group (c :: text) q o :=
  .of_advances hs (fun a ha => by rwa [List.singleton_append, trailing_cons_of_ne hc]) hgroup h

theorem leaves_of_scan (hgroup : ∀ q o, group = some (q, o) → isQuote q = true)
    (h : scan offset word group text = .error (q, o)) : Leaves offset word group text q o := by
  -- One case for each branch of the reader; only an opening quote can be the one that is left open.
  fun_induction scan offset word group text with
  | case1 offset word open_ =>
    cases h
    exact .inl ⟨rfl, spares_nil⟩
  | case2 => cases h
  | case3 offset word group ih =>
    cases group with
    | none => cases h
    | some open_ =>
      cases h
      exact .inl ⟨rfl, spares_lone (ne_backslash_of_isQuote (hgroup q o rfl))⟩
  | case4 offset word group d rest ih =>
    refine .of_advances advances_backslash (fun a => even_trailing_escape.2) (fun hopen hspares => ?_) (ih hgroup h)
    exact .inl ⟨hopen, (spares_escape (ne_backslash_of_isQuote (hgroup q o hopen))).2 hspares⟩
  | case5 offset word rest q' opened hescape ih =>
    exact .cons hescape (advances_close hescape) (by simp) (ih (by simp) h)
  | case6 offset word d rest hescape q' opened hne ih =>
    refine .cons hescape (advances_grouped hescape hne) (fun hopen hspares => ?_) (ih hgroup h)
    cases hopen
    exact .inl ⟨rfl, (spares_cons hescape).2 ⟨hne, hspares⟩⟩
  | case7 offset word d rest hescape hquote ih =>
    refine .cons hescape (advances_open hquote) (fun hopen hspares => ?_) (ih (by simpa using hquote) h)
    cases hopen
    exact .inr ⟨[], rest, word.toList, rfl, rfl, hquote, rfl, by decide, hspares⟩
  | case8 offset d rest hescape hquote hblank ih =>
    exact .cons hescape (advances_blank hblank) (by simp) (ih (by simp) h)
  | case9 offset d rest hescape hquote hblank w ih =>
    exact .cons hescape (advances_blank hblank) (by simp) (ih (by simp) (cons_eq_error_iff.1 h))
  | case10 offset word d rest hescape hquote hblank ih =>
    refine .cons hescape (advances_bare hescape ?_ ?_) (by simp) (ih (by simp) h)
    · exact eq_false_of_ne_true hquote
    · exact eq_false_of_ne_true hblank

/-- The quote `q` at `o` is left open: the text before it is complete, and no later one closes it. -/
structure LeftOpen (text : Text) (q : Char) (o : Nat) : Prop where
  quote : isQuote q = true
  stands : text[o]? = some q
  accepted : ∃ ws, split (text.take o) = .ok ws
  untaken : Even (trailing (text.take o))
  unclosed : ∀ p, o < p → text[p]? = some q → Odd (trailing ((text.take p).drop (o + 1)))

theorem getElem?_eq_some_iff_append : text[o]? = some c ↔ ∃ a b, text = a ++ c :: b ∧ o = a.length := by
  constructor
  · intro h
    obtain ⟨ho, rfl⟩ := List.getElem?_eq_some_iff.1 h
    refine ⟨text.take o, text.drop (o + 1), ?_, by simp; omega⟩
    rw [← List.drop_eq_getElem_cons ho, List.take_append_drop]
  · rintro ⟨a, b, rfl, rfl⟩
    simp

theorem spares_iff : Spares q b ↔ ∀ k, b[k]? = some q → Odd (trailing (b.take k)) := by
  constructor
  · intro h k hk
    obtain ⟨s, t, rfl, rfl⟩ := getElem?_eq_some_iff_append.1 hk
    rw [List.take_left]
    exact h s t rfl
  · rintro h s t rfl
    simpa using h s.length (by simp)

theorem leftOpen_iff : LeftOpen text q o ↔ ∃ a b, text = a ++ q :: b ∧ o = a.length ∧ isQuote q = true ∧
    (∃ ws, split a = .ok ws) ∧ Even (trailing a) ∧ Spares q b := by
  -- What stands after the quote, by its own offsets.
  have after (a b : Text) (k : Nat) : (a ++ q :: b)[a.length + 1 + k]? = b[k]? ∧
      ((a ++ q :: b).take (a.length + 1 + k)).drop (a.length + 1) = b.take k := by
    rw [← List.getElem?_drop, List.drop_take]
    simp
  constructor
  · rintro ⟨hquote, hstands, haccepted, huntaken, hunclosed⟩
    obtain ⟨a, b, rfl, rfl⟩ := getElem?_eq_some_iff_append.1 hstands
    rw [List.take_left] at haccepted huntaken
    refine ⟨a, b, rfl, rfl, hquote, haccepted, huntaken, spares_iff.2 fun k hk => ?_⟩
    have hodd := hunclosed (a.length + 1 + k) (by omega) ((after a b k).1.trans hk)
    rwa [(after a b k).2] at hodd
  · rintro ⟨a, b, rfl, rfl, hquote, haccepted, huntaken, hspares⟩
    refine ⟨hquote, by simp, by rwa [List.take_left], by rwa [List.take_left], fun p hp hstands => ?_⟩
    obtain ⟨k, rfl⟩ := Nat.exists_eq_add_of_lt hp
    rw [Nat.add_right_comm] at hstands ⊢
    rw [(after a b k).1] at hstands
    rw [(after a b k).2]
    exact spares_iff.1 hspares k hstands

theorem split_eq_error_iff {e : Unclosed} :
    split text = .error e ↔ e.text = text ∧ LeftOpen text e.quote e.offset := by
  rw [split_eq_error, and_comm, leftOpen_iff]
  refine and_congr_right fun _ => ⟨fun h => ?_, ?_⟩
  · rcases leaves_of_scan (by simp) h with ⟨hopen, -⟩ | ⟨a, b, ws, htext, ho, hquote, ha, heven, hspares⟩
    · cases hopen
    · exact ⟨a, b, htext, by rw [ho, Nat.zero_add], hquote, ⟨ws, split_eq_ok.2 ha⟩, heven, hspares⟩
  · rintro ⟨a, b, rfl, ho, hquote, ⟨ws, ha⟩, heven, hspares⟩
    obtain ⟨read, begun, -, hadv⟩ := advances_of_scan heven (split_eq_ok.1 ha)
    rw [hadv.scan_eq_error_iff, scan_open hquote, ho, Nat.zero_add]
    exact scan_of_spares (ne_backslash_of_isQuote hquote) hspares

/-- One more quote closes the one that is left open, unless a backslash takes it. -/
theorem LeftOpen.split_concat (h : LeftOpen text q o) :
    (Even (trailing (text.drop (o + 1))) → ∃ ws, split (text ++ [q]) = .ok ws) ∧
      (Odd (trailing (text.drop (o + 1))) → LeftOpen (text ++ [q]) q o) := by
  obtain ⟨a, b, rfl, rfl, hquote, ⟨ws, ha⟩, heven, hspares⟩ := leftOpen_iff.1 h
  have hq : q ≠ '\\' := ne_backslash_of_isQuote hquote
  have hdrop : (a ++ q :: b).drop (a.length + 1) = b := by simp
  rw [hdrop]
  constructor
  · intro hb
    obtain ⟨read, begun, -, hadv⟩ := advances_of_scan heven (split_eq_ok.1 ha)
    obtain ⟨s, v, hs, ⟨rfl, -⟩ | ⟨-, hodd⟩⟩ := hspares.exists_inside hq
    · have hword := hadv.trans (advances_piece (.group hquote hs) _ begun)
      exact ⟨_, split_eq_ok.2 (by simpa using hword.scan_eq_ok (t := []) rfl)⟩
    · exact absurd hb (Nat.not_even_iff_odd.2 hodd)
  · intro hb
    exact leftOpen_iff.2 ⟨a, b ++ [q], by simp, rfl, hquote, ⟨ws, ha⟩, heven, hspares.concat hb⟩

theorem LeftOpen.split_eq_error (h : LeftOpen text q o) : split text = .error ⟨q, o, text⟩ :=
  split_eq_error_iff.2 ⟨rfl, h⟩

/-- The reader fails exactly for a quote that is left open, and reports that one. There is at most one in a text. One
    more quote of the kind at the end closes it if the backslashes there pair up, and else it is left open as before. -/
theorem split_unclosed (text : Text) :
    (∀ e, split text = .error e ↔ e.text = text ∧ LeftOpen text e.quote e.offset) ∧
      (∀ q q' o o', LeftOpen text q o → LeftOpen text q' o' → o = o' ∧ q = q') ∧
      ∀ q o, LeftOpen text q o →
        (Even (trailing (text.drop (o + 1))) → ∃ ws, split (text ++ [q]) = .ok ws) ∧
          (¬ Even (trailing (text.drop (o + 1))) → split (text ++ [q]) = .error ⟨q, o, text ++ [q]⟩) := by
  refine ⟨fun e => split_eq_error_iff, fun q q' o o' h h' => ?_, fun q o h => ⟨h.split_concat.1, fun hodd => ?_⟩⟩
  · have heq : Except.error (⟨q, o, text⟩ : Unclosed) = .error ⟨q', o', text⟩ :=
      h.split_eq_error.symm.trans h'.split_eq_error
    cases heq
    exact ⟨rfl, rfl⟩
  · exact (h.split_concat.2 (Nat.not_even_iff_odd.1 hodd)).split_eq_error

/-- Two groups are closed, one of them after an escaped quote, and a backslash at the end takes one more quote. -/
theorem split_unclosed_after_groups :
    LeftOpen "'a\\'b' \"c'd\" 'e\\" '\'' 13 ∧ ¬ Even (trailing (List.drop 14 "'a\\'b' \"c'd\" 'e\\")) ∧
      split ("'a\\'b' \"c'd\" 'e\\" ++ ['\'']) = .error ⟨'\'', 13, "'a\\'b' \"c'd\" 'e\\" ++ ['\'']⟩ := by
  obtain ⟨hreport, -, hmore⟩ := split_unclosed "'a\\'b' \"c'd\" 'e\\"
  have hopen := ((hreport ⟨'\'', 13, "'a\\'b' \"c'd\" 'e\\"⟩).1 (by decide +kernel)).2
  have hodd : ¬ Even (trailing (List.drop 14 "'a\\'b' \"c'd\" 'e\\")) := by decide +kernel
  exact ⟨hopen, hodd, (hmore _ _ hopen).2 hodd⟩

end Runbook.Words
