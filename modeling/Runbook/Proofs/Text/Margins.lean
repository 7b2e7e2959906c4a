import Runbook.Proofs.Text.Lines

/-! # White space at the ends of a line

White space at either end of a line makes no difference to what the line is when it is trimmed, and none to whether it can
be decoded: no character begins inside another one, so octets that end with an encoding are one only if what stands
before it is one (`Utf8.decode_append_encode`). -/

namespace Runbook

namespace Utf8

variable {b : UInt8} {c d : Char} {s t : Text} {bs : List UInt8}

/-! ### Where characters begin -/

/-- Whether an octet goes on with a character that an earlier one has begun. -/
def IsContinuation (b : UInt8) : Prop := 0x80 ≤ b.toNat ∧ b.toNat < 0xC0

theorem encodeChar_eq_cons (c : Char) : ∃ b bs, String.utf8EncodeChar c = b :: bs ∧ ¬ IsContinuation b ∧
    ∀ b ∈ bs, IsContinuation b := by
  have hmax := toNat_lt_max c
  have hof : ∀ n, n < 64 → IsContinuation (UInt8.ofNat (n + 0x80)) := by
    intro n hn
    rw [IsContinuation, ofNat_toNat (by omega)]
    omega
  by_cases h₁ : c.toNat < 0x80
  · refine ⟨_, [], encodeChar_one h₁, ?_, by simp⟩
    rw [IsContinuation, ofNat_toNat (by omega)]
    omega
  by_cases h₂ : c.toNat < 0x800
  · refine ⟨_, _, encodeChar_two (by omega) h₂, ?_, ?_⟩
    · rw [IsContinuation, ofNat_toNat (by omega)]
      omega
    · simp only [List.mem_singleton, forall_eq]
      exact hof _ (Nat.mod_lt _ (by decide))
  by_cases h₃ : c.toNat < 0x10000
  · refine ⟨_, _, encodeChar_three (by omega) h₃, ?_, ?_⟩
    · rw [IsContinuation, ofNat_toNat (by omega)]
      omega
    · simp only [List.mem_cons, List.not_mem_nil, or_false, forall_eq_or_imp, forall_eq]
      exact ⟨hof _ (Nat.mod_lt _ (by decide)), hof _ (Nat.mod_lt _ (by decide))⟩
  · refine ⟨_, _, encodeChar_four (by omega), ?_, ?_⟩
    · rw [IsContinuation, ofNat_toNat (by omega)]
      omega
    · simp only [List.mem_cons, List.not_mem_nil, or_false, forall_eq_or_imp, forall_eq]
      exact ⟨hof _ (Nat.mod_lt _ (by decide)), hof _ (Nat.mod_lt _ (by decide)), hof _ (Nat.mod_lt _ (by decide))⟩

/-- The encoding of a character ends with that of no other one. -/
theorem encodeChar_eq_of_suffix (h : String.utf8EncodeChar c <:+ String.utf8EncodeChar d) :
    String.utf8EncodeChar c = String.utf8EncodeChar d := by
  obtain ⟨b, bs, hc, hb, -⟩ := encodeChar_eq_cons c
  obtain ⟨b', bs', hd, -, hbs'⟩ := encodeChar_eq_cons d
  rw [hc, hd] at h ⊢
  rcases List.suffix_cons_iff.mp h with h | h
  · exact h
  · exact absurd (hbs' b (h.subset List.mem_cons_self)) hb

theorem encodeChar_inj (h : String.utf8EncodeChar c = String.utf8EncodeChar d) : c = d := by
  have hc := decode_encode [c]
  have hd := decode_encode [d]
  simp only [encode, List.flatMap_singleton] at hc hd
  rw [h, hd] at hc
  exact ((List.cons.inj (Except.ok.inj hc)).1).symm

/-- What stands before a character in an encoding is one. -/
theorem eq_of_encode_eq_append (h : encode t = bs ++ String.utf8EncodeChar c) :
    ∃ s, encode s = bs ∧ t = s ++ [c] := by
  rcases List.eq_nil_or_concat t with rfl | ⟨s, d, rfl⟩
  · obtain ⟨b, bs', hc, -⟩ := encodeChar_eq_cons c
    rw [hc] at h
    exact absurd h.symm (by simp [encode])
  · rw [List.concat_eq_append, encode_append] at h
    have hd : encode [d] = String.utf8EncodeChar d := by simp [encode]
    rw [hd] at h
    have hsame : String.utf8EncodeChar c = String.utf8EncodeChar d := by
      rcases List.suffix_or_suffix_of_suffix ⟨bs, rfl⟩ ⟨encode s, h⟩ with hsuffix | hsuffix
      · exact encodeChar_eq_of_suffix hsuffix
      · exact (encodeChar_eq_of_suffix hsuffix).symm
    rw [← hsame] at h
    exact ⟨s, List.append_cancel_right h, by rw [List.concat_eq_append, encodeChar_inj hsame]⟩

/-- Octets before an encoding decode if all of them do. -/
theorem decode_append_encode : decode (bs ++ encode s) = .ok t ↔ ∃ u, decode bs = .ok u ∧ t = u ++ s := by
  constructor
  · intro h
    rw [decode_eq_ok_iff] at h
    induction s using List.reverseRecOn generalizing t with
    | nil =>
      have hnil : encode [] = [] := rfl
      rw [hnil, List.append_nil] at h
      exact ⟨t, decode_eq_ok_iff.mpr h, (List.append_nil t).symm⟩
    | append_singleton s c ih =>
      have hc : encode [c] = String.utf8EncodeChar c := by simp [encode]
      rw [encode_append, hc, ← List.append_assoc] at h
      obtain ⟨v, hv, rfl⟩ := eq_of_encode_eq_append h
      obtain ⟨u, hu, rfl⟩ := ih hv
      exact ⟨u, hu, List.append_assoc u s [c]⟩
  · rintro ⟨u, hu, rfl⟩
    rw [decode_eq_ok_iff, encode_append, decode_eq_ok_iff.mp hu]

/-- Octets after an encoding decode if all of them do. -/
theorem decode_encode_append_eq_ok : decode (encode s ++ bs) = .ok t ↔ ∃ u, decode bs = .ok u ∧ t = s ++ u := by
  rw [decode_encode_append]
  cases decode bs with
  | error flaw => simp [Functor.map, Except.map]
  | ok u => simp [Functor.map, Except.map, eq_comm]

end Utf8

/-! ### Trimming -/

namespace Text

variable {p : Char → Bool} {c : Char} {s t : Text}

theorem exists_dropEndWhile_append (hp : ∀ c, p c = true → isBlank c = true) (s : Text) :
    ∃ blanks, s = dropEndWhile p s ++ blanks ∧ ∀ c ∈ blanks, isBlank c = true := by
  refine ⟨(s.reverse.takeWhile p).reverse, ?_, fun c hc => hp c (List.mem_takeWhile_imp (List.mem_reverse.mp hc))⟩
  show s = (s.reverse.dropWhile p).reverse ++ (s.reverse.takeWhile p).reverse
  rw [← List.reverse_append, List.takeWhile_append_dropWhile, List.reverse_reverse]

theorem exists_trim (s : Text) : ∃ lead blanks, s = lead ++ trim s ++ blanks ∧ (∀ c ∈ lead, isBlank c = true) ∧
    ∀ c ∈ blanks, isBlank c = true := by
  obtain ⟨blanks, hs, hblanks⟩ := exists_dropEndWhile_append (p := isBlank) (fun _ => id) (trimLeft s)
  refine ⟨s.takeWhile isBlank, blanks, ?_, fun c hc => List.mem_takeWhile_imp hc, hblanks⟩
  have htrim : trim s ++ blanks = trimLeft s := hs.symm
  rw [List.append_assoc, htrim]
  exact (List.takeWhile_append_dropWhile).symm

theorem exists_dropLineEnd (s : Text) : ∃ blanks, s = dropLineEnd s ++ blanks ∧ ∀ c ∈ blanks, isBlank c = true :=
  exists_dropEndWhile_append (fun _ => isBlank_of_lineEnd) s

theorem trim_dropLineEnd (s : Text) : trim (dropLineEnd s) = trim s := by
  obtain ⟨blanks, hs, hblanks⟩ := exists_dropLineEnd s
  conv_rhs => rw [hs]
  exact (trim_append_blanks hblanks _).symm

theorem trimRight_dropLineEnd (s : Text) : trimRight (dropLineEnd s) = trimRight s := by
  obtain ⟨blanks, hs, hblanks⟩ := exists_dropLineEnd s
  conv_rhs => rw [hs]
  exact (trimRight_append_blanks hblanks _).symm

theorem trim_trimRight (s : Text) : trim (trimRight s) = trim s := by
  obtain ⟨blanks, hs, hblanks⟩ := exists_dropEndWhile_append (p := isBlank) (fun _ => id) s
  conv_rhs => rw [hs]
  exact (trim_append_blanks hblanks _).symm

theorem trim_eq_of_trimRight_eq (h : trimRight s = trimRight t) : trim s = trim t := by
  rw [← trim_trimRight s, h, trim_trimRight]

theorem dropLineEnd_append_return (s : Text) : dropLineEnd (s ++ ['\r']) = dropLineEnd s :=
  List.rdropWhile_concat_pos _ s '\r' rfl

/-- Neither the first nor the last character is a blank. -/
structure IsTrimmed (s : Text) : Prop where
  first : ∀ c ∈ s.head?, isBlank c = false
  last : ∀ c ∈ s.getLast?, isBlank c = false

theorem isTrimmed_trim (s : Text) : IsTrimmed (trim s) where
  first c hc := by
    have hhead := List.head?_dropWhile_not isBlank (trim s)
    have htrimmed : (trim s).dropWhile isBlank = trim s := trimLeft_trim s
    rw [htrimmed, hc] at hhead
    simpa using hhead
  last c hc := by
    have hne : (trimLeft s).rdropWhile isBlank ≠ [] := List.ne_nil_of_mem (List.mem_of_getLast? hc)
    have hlast := List.rdropWhile_last_not isBlank (trimLeft s) hne
    rw [show c = ((trimLeft s).rdropWhile isBlank).getLast hne from
      (Option.some.inj ((List.getLast?_eq_getLast_of_ne_nil hne).symm.trans hc)).symm]
    simpa using hlast

/-- A text of which something is left from the left is not made of blanks alone. -/
theorem trim_ne_nil (h : trimLeft s ≠ []) : trim s ≠ [] := by
  intro hnil
  have hall : ∀ c ∈ trimLeft s, isBlank c = true := List.rdropWhile_eq_nil_iff.mp hnil
  have hblank := hall _ (List.head_mem h)
  rw [head_trimLeft h] at hblank
  cases hblank

theorem mem_trimLeft (hmem : c ∈ s) (hc : isBlank c = false) : c ∈ trimLeft s := by
  rw [← List.takeWhile_append_dropWhile (p := isBlank) (l := s)] at hmem
  refine (List.mem_append.mp hmem).resolve_left fun htaken => ?_
  rw [List.mem_takeWhile_imp htaken] at hc
  cases hc

/-- Trimming keeps what is no blank. -/
theorem mem_trim (hmem : c ∈ s) (hc : isBlank c = false) : c ∈ trim s :=
  List.mem_reverse.mpr (mem_trimLeft (List.mem_reverse.mpr (mem_trimLeft hmem hc)) hc)

end Text

/-! ### The line at a place in a file -/

namespace Include

open Text Utf8

variable {head line rest : List UInt8} {t : Text}

/-- A line begins where some octets of a file end. -/
def AtLineStart (head : List UInt8) : Prop := ∀ b ∈ head.getLast?, b = 10

/-- A line ends where some octets of a file begin. -/
def AtLineEnd (rest : List UInt8) : Prop := ∀ b ∈ rest.head?, b = 10

instance (head : List UInt8) : Decidable (AtLineStart head) :=
  decidable_of_iff (head.getLast?.all (· == 10) = true) (by unfold AtLineStart; cases head.getLast? <;> simp)

instance (rest : List UInt8) : Decidable (AtLineEnd rest) :=
  decidable_of_iff (rest.head?.all (· == 10) = true) (by unfold AtLineEnd; cases rest.head? <;> simp)

theorem exists_atLineStart (bs : List UInt8) : ∃ head line, bs = head ++ line ∧ AtLineStart head ∧ 10 ∉ line := by
  induction bs using List.reverseRecOn with
  | nil => exact ⟨[], [], rfl, fun _ h => (Option.not_mem_none _ h).elim, List.not_mem_nil⟩
  | append_singleton bs b ih =>
    by_cases hb : b = 10
    · refine ⟨bs ++ [b], [], (List.append_nil _).symm, fun b' h => ?_, List.not_mem_nil⟩
      rw [List.getLast?_concat, Option.mem_some_iff] at h
      exact h ▸ hb
    · obtain ⟨head, line, rfl, hstart, hline⟩ := ih
      refine ⟨head, line ++ [b], List.append_assoc _ _ _, hstart, fun h => ?_⟩
      rcases List.mem_append.mp h with h | h
      · exact hline h
      · exact hb (List.mem_singleton.mp h).symm

theorem exists_atLineEnd (bs : List UInt8) : ∃ line rest, bs = line ++ rest ∧ 10 ∉ line ∧ AtLineEnd rest := by
  induction bs with
  | nil => exact ⟨[], [], rfl, List.not_mem_nil, fun _ h => (Option.not_mem_none _ h).elim⟩
  | cons b bs ih =>
    by_cases hb : b = 10
    · refine ⟨[], b :: bs, rfl, List.not_mem_nil, fun b' h => ?_⟩
      rw [List.head?_cons, Option.mem_some_iff] at h
      exact h ▸ hb
    · obtain ⟨line, rest, rfl, hline, hend⟩ := ih
      exact ⟨b :: line, rest, rfl, fun h => (List.mem_cons.mp h).elim (Ne.symm hb) hline, hend⟩

theorem cutAfter_line (hline : 10 ∉ line) (hrest : AtLineEnd rest) (hne : line ++ rest ≠ []) :
    cutAfter (· == 10) (line ++ rest) = (line ++ rest.take 1) :: cutAfter (· == 10) rest.tail := by
  have hends : ∀ b ∈ line, (b == 10) = false := beq_eq_false_of_not_mem hline
  cases rest with
  | nil =>
    rw [List.append_nil] at hne
    rw [List.append_nil, cutAfter_eq_singleton hends hne]
    simp [cutAfter]
  | cons b rest =>
    obtain rfl : b = 10 := hrest b rfl
    exact cutAfter_append hends rfl rest

/-- A line that decodes is the first one, whether or not a line feed stands after it. -/
theorem rawLines_of_decode (hline : 10 ∉ line) (hrest : AtLineEnd rest) (hne : line ++ rest ≠ [])
    (h : decode line = .ok t) :
    rawLines (line ++ rest) = (dropLineEnd t :: (rawLines rest.tail).1, (rawLines rest.tail).2) := by
  have hfirst : ∃ t', decode (line ++ rest.take 1) = .ok t' ∧ dropLineEnd t' = dropLineEnd t := by
    cases rest with
    | nil => exact ⟨t, by rwa [List.take_nil, List.append_nil], rfl⟩
    | cons b rest =>
      obtain rfl : b = 10 := hrest b rfl
      exact ⟨t ++ ['\n'], (decode_append_encode (s := ['\n'])).mpr ⟨t, h, rfl⟩, dropLineEnd_concat t⟩
  obtain ⟨t', hdecode, ht'⟩ := hfirst
  rw [rawLines, cutAfter_line hline hrest hne, decodeLines, hdecode, ← ht']
  rfl

/-- Nothing is read from a line that does not decode on. -/
theorem rawLines_of_flaw (hline : 10 ∉ line) (hrest : AtLineEnd rest) (h : ∀ t, decode line ≠ .ok t) :
    ∃ flaw, rawLines (line ++ rest) = ([], some flaw) := by
  have hne : line ++ rest ≠ [] := by
    intro hnil
    obtain ⟨rfl, -⟩ := List.append_eq_nil_iff.mp hnil
    exact h [] rfl
  have hfirst : ∀ t, decode (line ++ rest.take 1) ≠ .ok t := by
    cases rest with
    | nil => simpa using h
    | cons b rest =>
      obtain rfl : b = 10 := hrest b rfl
      intro t ht
      obtain ⟨u, hu, -⟩ := decode_append_encode (s := ['\n']).mp ht
      exact h u hu
  rw [rawLines, cutAfter_line hline hrest hne, decodeLines]
  cases hdecode : decode (line ++ rest.take 1) with
  | ok t => exact absurd hdecode (hfirst t)
  | error flaw => exact ⟨flaw, rfl⟩

theorem decodeLines_append_of_flaw {pieces : List (List UInt8)} {flaw : Flaw} (h : (decodeLines pieces).2 = some flaw)
    (pieces' : List (List UInt8)) : decodeLines (pieces ++ pieces') = decodeLines pieces := by
  induction pieces with
  | nil => cases h
  | cons piece pieces ih =>
    rw [List.cons_append, decodeLines, decodeLines]
    rw [decodeLines] at h
    cases hd : Utf8.decode piece with
    | error flaw => rfl
    | ok text =>
      simp only [hd] at h
      dsimp only
      rw [ih h]

/-- What stands after a line that does not decode makes no difference. -/
theorem rawLines_append_of_flaw {flaw : Flaw} (hstart : AtLineStart head) (h : (rawLines head).2 = some flaw)
    (rest : List UInt8) : rawLines (head ++ rest) = rawLines head := by
  rw [rawLines, cutAfter_append_of_ends (fun b hb => beq_iff_eq.mpr (hstart b hb))]
  exact decodeLines_append_of_flaw h _

end Include

end Runbook
