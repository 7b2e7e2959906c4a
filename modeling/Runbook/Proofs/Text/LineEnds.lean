import Runbook.Proofs.Text.Lines

/-! # Printed lines

A child may end its lines in any of three ways. As long as it keeps to one of them, its lines are found again, whichever
it is and whether or not one stands after the last line (`lines_write`); other characters that separate lines elsewhere do
not cut. Whatever is printed, no line of it holds a line end (`unbroken_of_mem_lines`). What is decoded leniently is the
text where there is one (`decodeLenient_encode`). -/

namespace Runbook

/-! ### Lenient decoding -/

namespace Utf8

variable {open? : Option Pending} {bs : List UInt8} {s : Text}

/-- Where the strict decoder gives a text, the lenient one gives the same. -/
theorem decodeLenientFrom_of_ok (h : decodeFrom open? bs = .ok s) : decodeLenientFrom open? bs = s := by
  induction bs generalizing open? s with
  | nil =>
    cases open? with
    | none =>
      cases h
      rfl
    | some p => cases h
  | cons b bs ih =>
    cases open? with
    | none =>
      rw [decodeLenientFrom]
      cases hmove : lead b with
      | char c =>
        rw [decodeFrom_char hmove] at h
        obtain ⟨t, ht, rfl⟩ := map_cons_eq_ok h
        exact congrArg (c :: ·) (ih ht)
      | more p =>
        rw [decodeFrom_more hmove] at h
        exact ih h
      | bad =>
        rw [decodeFrom_bad hmove] at h
        cases h
    | some p =>
      rw [decodeLenientFrom]
      cases hmove : p.follow b with
      | char c =>
        rw [decodeFrom_follow_char hmove] at h
        obtain ⟨t, ht, rfl⟩ := map_cons_eq_ok h
        exact congrArg (c :: ·) (ih ht)
      | more q =>
        rw [decodeFrom_follow_more hmove] at h
        exact ih h
      | bad =>
        rw [decodeFrom_follow_bad hmove] at h
        cases h

theorem decodeLenient_encode (s : Text) : decodeLenient (encode s) = s := decodeLenientFrom_of_ok (decode_encode s)

end Utf8

/-! ### Pieces -/

section
variable {α : Type} {ends : α → Bool} {a : α} {s piece : List α}

theorem flatten_cutAfter (ends : α → Bool) (s : List α) : (cutAfter ends s).flatten = s := by
  induction s with
  | nil => rfl
  | cons a s ih =>
    by_cases ha : ends a = true
    · rw [cutAfter_cons_end ha, List.flatten_cons, ih]
      rfl
    · have ha : ends a = false := by simpa using ha
      cases hs : cutAfter ends s with
      | nil =>
        rw [hs] at ih
        rw [cutAfter_cons_nil ha hs, ← ih]
        rfl
      | cons piece pieces =>
        rw [hs] at ih
        rw [cutAfter_cons_cons ha hs, ← ih]
        rfl

theorem mem_of_mem_cutAfter (hpiece : piece ∈ cutAfter ends s) (ha : a ∈ piece) : a ∈ s := by
  rw [← flatten_cutAfter ends s]
  exact List.mem_flatten.mpr ⟨piece, hpiece, ha⟩

end

/-- The three ways to end a line. -/
inductive LineEnd
  | lf
  | crlf
  | cr
deriving DecidableEq, Repr

namespace LineEnd

/-- The characters of a line end. -/
def text : LineEnd → Text
  | .lf => "\n"
  | .crlf => "\r\n"
  | .cr => "\r"

/-- Lines that all end in the same way. A closed text has a line end after the last line as well. -/
def write (e : LineEnd) (closed : Bool) (lines : List Text) : Text :=
  if closed then lines.flatMap (· ++ e.text) else Text.joinWith e.text lines

end LineEnd

namespace Text

variable {c : Char} {s t line : Text} {lines : List Text} {e : LineEnd} {closed : Bool}

/-- A line within which there is no line end. -/
structure Unbroken (line : Text) : Prop where
  noReturn : '\r' ∉ line
  noFeed : '\n' ∉ line

instance (line : Text) : Decidable (Unbroken line) :=
  decidable_of_iff ('\r' ∉ line ∧ '\n' ∉ line) ⟨fun h => ⟨h.1, h.2⟩, fun h => ⟨h.noReturn, h.noFeed⟩⟩

/-! ### One line end for the three -/

theorem unifyLineEnds_cons (hc : c ≠ '\r') (s : Text) : unifyLineEnds (c :: s) = c :: unifyLineEnds s := by
  rw [unifyLineEnds, if_neg hc]
  exact fun _ h => absurd h hc

theorem unifyLineEnds_return (h : '\n' ∉ s) : unifyLineEnds ('\r' :: s) = '\n' :: unifyLineEnds s := by
  rw [unifyLineEnds, if_pos rfl]
  rintro t - rfl
  exact h List.mem_cons_self

theorem unifyLineEnds_append (h : '\r' ∉ s) (t : Text) : unifyLineEnds (s ++ t) = s ++ unifyLineEnds t := by
  induction s with
  | nil => rfl
  | cons c s ih =>
    have hc : c ≠ '\r' := fun heq => h (heq ▸ List.mem_cons_self)
    rw [List.cons_append, unifyLineEnds_cons hc, ih fun hmem => h (List.mem_cons_of_mem c hmem), List.cons_append]

/-- A carriage return is a line end by itself if no line feed stands after it. -/
theorem unifyLineEnds_text_append (h : e = .cr → '\n' ∉ t) : unifyLineEnds (e.text ++ t) = '\n' :: unifyLineEnds t := by
  cases e with
  | lf => exact unifyLineEnds_cons (by decide) t
  | crlf => rfl
  | cr => exact unifyLineEnds_return (h rfl)

theorem return_not_mem_unifyLineEnds (s : Text) : '\r' ∉ unifyLineEnds s := by
  induction s using unifyLineEnds.induct with
  | case1 => exact List.not_mem_nil
  | case2 s ih => exact List.not_mem_cons_of_ne_of_not_mem (by decide) ih
  | case3 c s hpair ih =>
    rw [unifyLineEnds]
    · refine List.not_mem_cons_of_ne_of_not_mem ?_ ih
      split
      · decide
      · exact Ne.symm ‹_›
    · exact hpair

/-! ### Lines written and found again -/

theorem write_cons (h : closed = true ∨ lines ≠ []) (e : LineEnd) (line : Text) :
    e.write closed (line :: lines) = line ++ (e.text ++ e.write closed lines) := by
  cases closed with
  | true => exact List.append_assoc line e.text _
  | false =>
    have hne : lines ≠ [] := h.resolve_left (by decide)
    exact (joinWith_cons_of_ne_nil e.text line hne).trans (List.append_assoc line e.text _)

theorem mem_write (h : c ∈ e.write closed lines) : c ∈ e.text ∨ ∃ line ∈ lines, c ∈ line := by
  induction lines with
  | nil => cases closed <;> cases h
  | cons line lines ih =>
    by_cases hmore : closed = true ∨ lines ≠ []
    · rw [write_cons hmore, List.mem_append, List.mem_append] at h
      rcases h with h | h | h
      · exact Or.inr ⟨line, List.mem_cons_self, h⟩
      · exact Or.inl h
      · exact (ih h).imp_right fun ⟨line, hline, hc⟩ => ⟨line, List.mem_cons_of_mem _ hline, hc⟩
    · obtain ⟨rfl, rfl⟩ : closed = false ∧ lines = [] := by simpa using hmore
      exact Or.inr ⟨line, List.mem_cons_self, h⟩

theorem unifyLineEnds_write (h : ∀ line ∈ lines, Unbroken line) (e : LineEnd) (closed : Bool) :
    unifyLineEnds (e.write closed lines) = LineEnd.lf.write closed lines := by
  induction lines with
  | nil => cases closed <;> rfl
  | cons line lines ih =>
    have hline := h line List.mem_cons_self
    have hlines : ∀ line ∈ lines, Unbroken line := fun line hmem => h line (List.mem_cons_of_mem _ hmem)
    by_cases hmore : closed = true ∨ lines ≠ []
    · have hrest : e = .cr → '\n' ∉ e.write closed lines := by
        rintro rfl hmem
        rcases mem_write hmem with hmem | ⟨line, hmem, hfeed⟩
        · exact absurd hmem (by decide)
        · exact (hlines line hmem).noFeed hfeed
      rw [write_cons hmore, write_cons hmore, unifyLineEnds_append hline.noReturn, unifyLineEnds_text_append hrest,
        ih hlines]
      rfl
    · obtain ⟨rfl, rfl⟩ : closed = false ∧ lines = [] := by simpa using hmore
      have hone := unifyLineEnds_append hline.noReturn []
      rwa [List.append_nil, unifyLineEnds, List.append_nil] at hone

theorem dropLineFeed_of_not_mem (h : '\n' ∉ s) : dropLineFeed s = s := by
  refine List.rdropWhile_eq_self_iff.mpr fun hne hlast => h ?_
  rw [← beq_iff_eq.mp hlast]
  exact List.getLast_mem hne

theorem dropLineFeed_concat (s : Text) : dropLineFeed (s ++ ['\n']) = dropLineFeed s :=
  List.rdropWhile_concat_pos _ s '\n' rfl

theorem cutAfter_written (h : ∀ line ∈ lines, '\n' ∉ line) :
    cutAfter (· == '\n') (written lines) = lines.map (· ++ ['\n']) := by
  induction lines with
  | nil => rfl
  | cons line lines ih =>
    have hends := beq_eq_false_of_not_mem (h line List.mem_cons_self)
    rw [written_cons, cutAfter_append hends rfl, ih fun line hmem => h line (List.mem_cons_of_mem _ hmem), List.map_cons]

theorem getLast?_written : ∀ c ∈ (written lines).getLast?, c = '\n' := by
  intro c hc
  by_cases hnil : lines = []
  · subst hnil
    cases hc
  · rw [← joinWith_append_feed hnil, List.getLast?_append_of_ne_nil _ (by decide)] at hc
    exact (Option.mem_some_iff.mp hc).symm

/-- Lines that are written are found again, whichever line end they have. -/
theorem lines_write (h : ∀ line ∈ lines, Unbroken line) (hlast : ∀ line ∈ lines.getLast?, line ≠ []) (e : LineEnd)
    (closed : Bool) : Text.lines (e.write closed lines) = lines := by
  have hdrop : ∀ {ls : List Text}, (∀ line ∈ ls, Unbroken line) →
      (cutAfter (· == '\n') (written ls)).map dropLineFeed = ls := by
    intro ls hls
    rw [cutAfter_written fun line hline => (hls line hline).noFeed, List.map_map]
    refine (List.map_congr_left fun line hline => ?_).trans (List.map_id ls)
    exact (dropLineFeed_concat line).trans (dropLineFeed_of_not_mem (hls line hline).noFeed)
  rw [Text.lines, unifyLineEnds_write h]
  cases closed with
  | true => exact hdrop h
  | false =>
    rcases List.eq_nil_or_concat lines with rfl | ⟨before, last, rfl⟩
    · rfl
    · -- The last line has no line end.
      rw [List.concat_eq_append] at h hlast ⊢
      have hbefore : ∀ line ∈ before, Unbroken line := fun line hline => h line (List.mem_append_left _ hline)
      have hfeed : '\n' ∉ last := (h last List.mem_concat_self).noFeed
      have hjoin : LineEnd.lf.write false (before ++ [last]) = written before ++ last :=
        Include.joinWith_concat_eq_written before last
      rw [hjoin, cutAfter_append_of_ends fun c hc => beq_iff_eq.mpr (getLast?_written c hc),
        cutAfter_eq_singleton (beq_eq_false_of_not_mem hfeed) (hlast last (by simp)), List.map_append, hdrop hbefore,
        List.map_singleton, dropLineFeed_of_not_mem hfeed]

theorem unbroken_of_mem_lines (h : line ∈ Text.lines s) : Unbroken line := by
  obtain ⟨piece, hpiece, rfl⟩ := List.mem_map.mp h
  refine ⟨fun hmem => ?_, not_mem_dropEndWhile rfl fun hmem => ?_⟩
  · have hreturn : '\r' ∈ piece := (dropEndWhile_isPrefix _ piece).subset hmem
    exact return_not_mem_unifyLineEnds s (mem_of_mem_cutAfter hpiece hreturn)
  · have hends := ends_of_mem_dropLast hpiece '\n' hmem
    simp at hends

end Text

end Runbook
