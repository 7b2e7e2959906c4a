import Runbook.Proofs.Effect
import Runbook.Proofs.Text.Margins

/-! # The first octets that encode nothing

Octets are an encoding, or an encoding and octets after it that begin with the encoding of no character
(`Utf8.exists_encode_append`). A file is decoded line by line, and a line that ends inside a sequence decodes no further
than the file as a whole, for a line feed goes on with no sequence (`Utf8.decodeFrom_append_feed`). So the lines of a file
are those of its text (`Include.rawLines_encode`), or those before the line in which its first ill-formed octets begin
(`Include.rawLines_of_illFormed`). -/

namespace Runbook

namespace Utf8

variable {b : UInt8} {bs bad : List UInt8} {s : Text} {p q : Pending} {open? : Option Pending} {flaw : Flaw}

/-- Octets with which an ill-formed sequence begins: there are some, and they begin with the encoding of no character. -/
def IllFormed (bs : List UInt8) : Prop := bs ≠ [] ∧ ∀ c, ¬ String.utf8EncodeChar c <+: bs

/-- Octets are an encoding, up to the end or to the first ill-formed sequence. -/
theorem exists_encode_append (bs : List UInt8) :
    (∃ s, encode s = bs) ∨ ∃ s bad, bs = encode s ++ bad ∧ IllFormed bad := by
  induction hn : bs.length using Nat.strong_induction_on generalizing bs with
  | _ n ih =>
    subst hn
    by_cases hnil : bs = []
    · exact Or.inl ⟨[], hnil.symm⟩
    by_cases hchar : ∃ c, String.utf8EncodeChar c <+: bs
    · obtain ⟨c, rest, rfl⟩ := hchar
      have hencode : ∀ s, encode (c :: s) = String.utf8EncodeChar c ++ encode s := fun s => List.flatMap_cons
      have hlt : rest.length < (String.utf8EncodeChar c ++ rest).length := by
        obtain ⟨b, bs', hc, -⟩ := encodeChar_eq_cons c
        rw [hc, List.length_append, List.length_cons]
        omega
      rcases ih _ hlt rest rfl with ⟨s, rfl⟩ | ⟨s, bad, rfl, hbad⟩
      · exact Or.inl ⟨c :: s, hencode s⟩
      · exact Or.inr ⟨c :: s, bad, by rw [hencode, List.append_assoc], hbad⟩
    · exact Or.inr ⟨[], bs, rfl, hnil, fun c hc => hchar ⟨c, hc⟩⟩

theorem decode_of_illFormed (h : IllFormed bad) : ∃ flaw, decode bad = .error flaw := by
  cases hdecode : decode bad with
  | error flaw => exact ⟨flaw, rfl⟩
  | ok s =>
    have hs : encode s = bad := decode_eq_ok_iff.mp hdecode
    cases s with
    | nil => exact absurd hs.symm h.1
    | cons c s => exact absurd ⟨encode s, hs⟩ (h.2 c)

/-- Ill-formed octets are known by their first four, for no encoding of a character is longer. -/
theorem illFormed_iff : IllFormed bs ↔ bs ≠ [] ∧ ∀ n ≤ 4, ∀ s ∈ (decode (bs.take n)).toOption, s.length ≠ 1 := by
  constructor
  · rintro ⟨hne, hbad⟩
    refine ⟨hne, fun n _ s hs hlength => ?_⟩
    obtain ⟨c, rfl⟩ := List.length_eq_one_iff.mp hlength
    have hencode : encode [c] = bs.take n := decode_eq_ok_iff.mp (Effect.mem_toOption.mp hs)
    rw [encode, List.flatMap_singleton] at hencode
    exact hbad c (hencode ▸ List.take_prefix n bs)
  · rintro ⟨hne, hchar⟩
    refine ⟨hne, fun c hc => ?_⟩
    have hle : (String.utf8EncodeChar c).length ≤ 4 := by
      rw [String.length_utf8EncodeChar]
      exact c.utf8Size_le_four
    have hdecode : decode (bs.take (String.utf8EncodeChar c).length) = .ok [c] := by
      rw [← List.prefix_iff_eq_take.mp hc, decode_eq_ok_iff, encode, List.flatMap_singleton]
    exact hchar _ hle [c] (Effect.mem_toOption.mpr hdecode) rfl

instance (bs : List UInt8) : Decidable (IllFormed bs) := decidable_of_iff _ illFormed_iff.symm

theorem decode_encode_append_eq_error (h : decode bad = .error flaw) (s : Text) :
    decode (encode s ++ bad) = .error flaw := by
  rw [decode_encode_append, h]
  rfl

theorem IllFormed.of_prefix (h : IllFormed bs) (hbad : bad <+: bs) (hne : bad ≠ []) : IllFormed bad :=
  ⟨hne, fun c hc => h.2 c (hc.trans hbad)⟩

/-! ### A line feed in a sequence -/

theorem low_of_lead (h : lead b = .more p) : 0x80 ≤ p.low := by
  unfold lead at h
  repeat' split at h
  all_goals cases h
  all_goals
    dsimp only
    decide

theorem low_of_follow (h : p.follow b = .more q) : 0x80 ≤ q.low := by
  unfold Pending.follow at h
  dsimp only at h
  repeat' split at h
  all_goals cases h
  dsimp only
  decide

theorem follow_feed (h : 0x80 ≤ p.low) : p.follow 10 = .bad := by
  refine follow_bad fun hrange => ?_
  have hlow : (0x80 : UInt8).toNat ≤ p.low.toNat := h
  have hten : (10 : UInt8).toNat < (0x80 : UInt8).toNat := by decide
  omega

theorem map_eq_error {f : Text → Text} {x : Except Flaw Text} (h : f <$> x = .error flaw) : x = .error flaw := by
  cases x with
  | ok s => cases h
  | error e => exact h

/-- What keeps octets from being decoded before a line feed ends keeps them from it whatever stands after that. -/
theorem decodeFrom_append_feed (hlow : ∀ p ∈ open?, 0x80 ≤ p.low) (h : decodeFrom open? (bs ++ [10]) = .error flaw)
    (rest : List UInt8) : decodeFrom open? (bs ++ 10 :: rest) = .error flaw := by
  induction bs generalizing open? with
  | nil =>
    cases open? with
    | none => cases h
    | some p =>
      rw [List.nil_append, decodeFrom_follow_bad (follow_feed (hlow p rfl))] at h ⊢
      exact h
  | cons b bs ih =>
    have hnone : decodeFrom none (bs ++ [10]) = .error flaw → decodeFrom none (bs ++ 10 :: rest) = .error flaw :=
      ih fun p hp => (Option.not_mem_none p hp).elim
    have hsome : ∀ q : Pending, 0x80 ≤ q.low → decodeFrom (some q) (bs ++ [10]) = .error flaw →
        decodeFrom (some q) (bs ++ 10 :: rest) = .error flaw :=
      fun q hq => ih fun p hp => Option.mem_some_iff.mp hp ▸ hq
    rw [List.cons_append] at h ⊢
    cases open? with
    | none =>
      cases hmove : lead b with
      | char c =>
        rw [decodeFrom_char hmove] at h ⊢
        rw [hnone (map_eq_error h)]
        rfl
      | more q =>
        rw [decodeFrom_more hmove] at h ⊢
        exact hsome q (low_of_lead hmove) h
      | bad =>
        rw [decodeFrom_bad hmove] at h ⊢
        exact h
    | some p =>
      cases hmove : p.follow b with
      | char c =>
        rw [decodeFrom_follow_char hmove] at h ⊢
        rw [hnone (map_eq_error h)]
        rfl
      | more q =>
        rw [decodeFrom_follow_more hmove] at h ⊢
        exact hsome q (low_of_follow hmove) h
      | bad =>
        rw [decodeFrom_follow_bad hmove] at h ⊢
        exact h

end Utf8

/-! ### The lines of a text -/

namespace Text

variable {c : Char} {s last : Text} {before : List Text}

theorem length_splitOn (c : Char) (s : Text) : (splitOn c s).length = s.count c + 1 := by
  induction s with
  | nil => rfl
  | cons a s ih =>
    rw [splitOn]
    by_cases ha : a = c
    · rw [if_pos ha, List.length_cons, ih, ha, List.count_cons_self]
    · rw [if_neg ha, List.count_cons_of_ne (by simpa using ha), ← ih]
      cases hs : splitOn c s with
      | nil => simp [hs] at ih
      | cons part parts => rfl

/-- A text is whole lines, and a last one without a line feed after it. -/
theorem exists_written (s : Text) : ∃ before last, splitOn '\n' s = before ++ [last] ∧ s = written before ++ last ∧
    (∀ line ∈ before, '\n' ∉ line) ∧ '\n' ∉ last := by
  have hne : splitOn '\n' s ≠ [] := fun hnil => by simpa [hnil] using length_splitOn '\n' s
  obtain ⟨before, last, hsplit⟩ := (List.eq_nil_or_concat (splitOn '\n' s)).resolve_left hne
  rw [List.concat_eq_append] at hsplit
  have hnot : ∀ line ∈ before ++ [last], '\n' ∉ line := fun line hline =>
    not_mem_of_mem_splitOn (hsplit ▸ hline)
  refine ⟨before, last, hsplit, ?_, fun line hline => hnot line (List.mem_append_left _ hline),
    hnot last List.mem_concat_self⟩
  rw [← Include.joinWith_concat_eq_written, ← hsplit]
  exact (joinWith_splitOn '\n' s).symm

/-- A text cut at its line feeds, with no line after a line feed at its end. -/
def feedLines (s : Text) : List Text :=
  let parts := splitOn '\n' s
  if parts.getLast? = some [] then parts.dropLast else parts

theorem feedLines_of_splitOn (h : splitOn '\n' s = before ++ [last]) :
    feedLines s = if last = [] then before else before ++ [last] := by
  simp only [feedLines, h, List.getLast?_concat, Option.some.injEq, List.dropLast_concat]

end Text

/-! ### The lines of a file -/

namespace Include

open Text Utf8

variable {bad : List UInt8} {text : Text} {flaw : Flaw}

theorem rawLines_encode (text : Text) : rawLines (encode text) = ((feedLines text).map dropLineEnd, none) := by
  obtain ⟨before, last, hsplit, htext, hbefore, hlast⟩ := exists_written text
  rw [feedLines_of_splitOn hsplit, htext, encode_append]
  by_cases hnil : last = []
  · subst hnil
    rw [if_pos rfl, show encode [] = [] from rfl, List.append_nil, rawLines_written hbefore]
  · rw [if_neg hnil, rawLines_append getLast?_encode_written (rawLines_written hbefore), rawLines_line hlast hnil,
      List.map_append]
    rfl

/-- A line whose octets are ill formed from some place on has the flaw that these have in the whole file. -/
theorem rawLines_line_of_illFormed {last : Text} (hlast : '\n' ∉ last) (hbad : IllFormed bad)
    (hflaw : decode bad = .error flaw) : rawLines (encode last ++ bad) = ([], some flaw) := by
  obtain ⟨line, rest, rfl, hline, hrest⟩ := exists_atLineEnd bad
  have hnofeed : 10 ∉ encode last ++ line := fun hmem => (List.mem_append.mp hmem).elim (hlast ∘ feed_mem_encode.mp) hline
  -- A line feed is the encoding of a character, so it does not begin an ill-formed sequence.
  have hne : line ≠ [] := by
    rintro rfl
    cases rest with
    | nil => exact hbad.1 rfl
    | cons b rest =>
      obtain rfl : b = 10 := hrest b rfl
      exact hbad.2 '\n' ⟨rest, rfl⟩
  have hfirst : decode (line ++ rest.take 1) = .error flaw := by
    cases rest with
    | nil => exact hflaw
    | cons b rest =>
      obtain rfl : b = 10 := hrest b rfl
      have hill : IllFormed (line ++ [10]) := hbad.of_prefix ⟨rest, by simp⟩ (List.concat_ne_nil _ _)
      obtain ⟨flaw', hflaw'⟩ := decode_of_illFormed hill
      have hwhole : decode (line ++ 10 :: rest) = .error flaw' :=
        decodeFrom_append_feed (fun p hp => (Option.not_mem_none p hp).elim) hflaw' rest
      rw [hflaw] at hwhole
      cases hwhole
      exact hflaw'
  have hcut := cutAfter_line hnofeed hrest (by simp [hne])
  rw [← List.append_assoc, rawLines, hcut, decodeLines, List.append_assoc, decode_encode_append_eq_error hfirst]

/-- The lines of a file that is an encoding up to an ill-formed sequence are those before the line in which it begins. -/
theorem rawLines_of_illFormed (text : Text) (hbad : IllFormed bad) (hflaw : decode bad = .error flaw) :
    rawLines (encode text ++ bad) = ((splitOn '\n' text).dropLast.map dropLineEnd, some flaw) := by
  obtain ⟨before, last, hsplit, htext, hbefore, hlast⟩ := exists_written text
  rw [hsplit, htext, List.dropLast_concat, encode_append, List.append_assoc,
    rawLines_append getLast?_encode_written (rawLines_written hbefore), rawLines_line_of_illFormed hlast hbad hflaw,
    List.append_nil]

end Include

end Runbook
