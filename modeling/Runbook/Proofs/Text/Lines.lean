import Runbook.Include
import Runbook.Proofs.Text.Utf8
import Mathlib.Data.List.DropRight

/-! # Lines written and read back

The lines read from a file hold no line feed and end in no line end (`isLine_of_mem_rawLines`); lines that hold no line
feed, written one after the other each with a line feed after it, are read back up to the line ends they end in
(`rawLines_written`). -/

namespace Runbook

/-! ### Trimming -/

namespace Text

variable {p q : Char → Bool} {c : Char} {s t : Text} {lines : List Text}

theorem dropEndWhile_eq_rdropWhile (p : Char → Bool) (s : Text) : dropEndWhile p s = s.rdropWhile p := rfl

theorem dropEndWhile_isPrefix (p : Char → Bool) (s : Text) : dropEndWhile p s <+: s := List.rdropWhile_prefix p s

theorem dropEndWhile_idem (p : Char → Bool) (s : Text) : dropEndWhile p (dropEndWhile p s) = dropEndWhile p s :=
  List.rdropWhile_idempotent p s

theorem dropEndWhile_of_imp (hpq : ∀ c, q c → p c) (s : Text) :
    dropEndWhile q (dropEndWhile p s) = dropEndWhile p s := by
  rw [dropEndWhile_eq_rdropWhile, List.rdropWhile_eq_self_iff]
  intro hne hlast
  exact List.rdropWhile_last_not p s hne (hpq _ hlast)

/-- A character that is dropped at the end and stands nowhere else is gone. -/
theorem not_mem_dropEndWhile (hp : p c = true) (h : c ∉ s.dropLast) : c ∉ dropEndWhile p s := by
  rcases List.eq_nil_or_concat s with rfl | ⟨body, a, rfl⟩
  · exact List.not_mem_nil
  · rw [List.concat_eq_append] at h ⊢
    rw [List.dropLast_concat] at h
    intro hmem
    by_cases ha : p a = true
    · rw [dropEndWhile_eq_rdropWhile, List.rdropWhile_concat_pos _ _ _ ha] at hmem
      exact h ((dropEndWhile_isPrefix p body).subset hmem)
    · rcases List.mem_append.mp ((dropEndWhile_isPrefix p _).subset hmem) with hmem | hmem
      · exact h hmem
      · exact ha (List.mem_singleton.mp hmem ▸ hp)

theorem isBlank_of_lineEnd (h : (c == '\r' || c == '\n') = true) : isBlank c = true := by
  simp only [Bool.or_eq_true, beq_iff_eq] at h
  rcases h with rfl | rfl <;> rfl

theorem dropLineEnd_trim (s : Text) : dropLineEnd (trim s) = trim s :=
  dropEndWhile_of_imp (fun _ => isBlank_of_lineEnd) _

theorem head_trimLeft (hs : trimLeft s ≠ []) : isBlank ((trimLeft s).head hs) = false :=
  List.head_dropWhile_not isBlank hs

theorem trimLeft_of_head (h : ∀ hs : s ≠ [], isBlank (s.head hs) = false) : trimLeft s = s := by
  cases s with
  | nil => rfl
  | cons c s => simp [trimLeft, show isBlank c = false from h (List.cons_ne_nil c s)]

theorem trimLeft_trim (s : Text) : trimLeft (trim s) = trim s := by
  refine trimLeft_of_head fun hne => ?_
  have hpre : trim s <+: trimLeft s := dropEndWhile_isPrefix _ _
  rw [hpre.head hne]
  exact head_trimLeft _

theorem trim_trim (s : Text) : trim (trim s) = trim s := by
  rw [trim, trimLeft_trim]
  exact dropEndWhile_idem _ _

theorem trim_isPrefix (s : Text) : trim s <+: trimLeft s := dropEndWhile_isPrefix _ _

theorem mem_of_mem_trim (h : c ∈ trim s) : c ∈ s :=
  (List.dropWhile_sublist isBlank).subset ((trim_isPrefix s).subset h)

theorem dropLineEnd_concat (s : Text) : dropLineEnd (s ++ "\n".toList) = dropLineEnd s :=
  List.rdropWhile_concat_pos _ s '\n' rfl

theorem trimLeft_append (h : trimLeft t = t) (s : Text) : trimLeft (s ++ t) = trimLeft s ++ t := by
  rw [trimLeft, List.dropWhile_append]
  split
  · rename_i hempty
    rw [trimLeft, List.isEmpty_iff.mp hempty]
    exact h
  · rfl

theorem trimRight_append (h : trimRight s = s) (t : Text) : trimRight (s ++ t) = s ++ trimRight t := by
  have hleft : trimLeft s.reverse = s.reverse := by
    rw [← List.reverse_eq_iff]
    exact h
  show (trimLeft (s ++ t).reverse).reverse = s ++ (trimLeft t.reverse).reverse
  rw [List.reverse_append, trimLeft_append hleft, List.reverse_append, List.reverse_reverse]

theorem trimRight_append_self (h : trimRight t = t) (ht : t ≠ []) (s : Text) : trimRight (s ++ t) = s ++ t := by
  have hlast : ∀ hne : t ≠ [], ¬ isBlank (t.getLast hne) = true := List.rdropWhile_eq_self_iff.mp h
  refine List.rdropWhile_eq_self_iff.mpr fun hne => ?_
  rw [List.getLast_append_of_ne_nil hne ht]
  exact hlast ht

theorem trimRight_append_blanks {blanks : Text} (h : ∀ c ∈ blanks, isBlank c = true) (s : Text) :
    trimRight (s ++ blanks) = trimRight s := by
  induction blanks using List.reverseRecOn with
  | nil => rw [List.append_nil]
  | append_singleton blanks c ih =>
    rw [← List.append_assoc, trimRight, dropEndWhile_eq_rdropWhile,
      List.rdropWhile_concat_pos _ _ _ (h c List.mem_concat_self)]
    exact ih fun c hc => h c (List.mem_append_left _ hc)

theorem trim_append_blanks {blanks : Text} (h : ∀ c ∈ blanks, isBlank c = true) (s : Text) :
    trim (s ++ blanks) = trim s := by
  rw [trim, trimLeft, List.dropWhile_append]
  split
  · rename_i hempty
    rw [List.dropWhile_eq_nil_iff.mpr h, trim, trimLeft, List.isEmpty_iff.mp hempty]
  · exact trimRight_append_blanks h _

theorem trim_blanks_append {blanks : Text} (h : ∀ c ∈ blanks, isBlank c = true) (s : Text) :
    trim (blanks ++ s) = trim s := by
  rw [trim, trimLeft, List.dropWhile_append_of_pos h]
  rfl

theorem trim_of_noBlank (h : ∀ c ∈ s, isBlank c = false) : trim s = s := by
  have hleft : trimLeft s = s := trimLeft_of_head fun hs => h _ (List.head_mem hs)
  rw [trim, hleft, trimRight, dropEndWhile_eq_rdropWhile, List.rdropWhile_eq_self_iff]
  intro hne
  simp [h _ (List.getLast_mem hne)]

theorem cut_append (h : c ∉ s) (rest : Text) : cut c (s ++ c :: rest) = (s, some rest) := by
  have hs : ∀ a ∈ s, (a != c) = true := fun a ha => bne_iff_ne.mpr fun heq => h (heq ▸ ha)
  rw [cut, List.dropWhile_append_of_pos hs, List.takeWhile_append_of_pos hs]
  simp

theorem not_mem_cut (c : Char) (s : Text) : c ∉ (cut c s).1 := by
  unfold cut
  split
  · rename_i hnone
    exact fun hmem => by simpa using List.dropWhile_eq_nil_iff.mp hnone c hmem
  · exact fun hmem => by simpa using List.mem_takeWhile_imp hmem

theorem cut_eq_some_iff {rest : Text} : cut c s = (t, some rest) ↔ s = t ++ c :: rest ∧ c ∉ t := by
  constructor
  · intro h
    have hmem := not_mem_cut c s
    rw [h] at hmem
    refine ⟨?_, hmem⟩
    unfold cut at h
    split at h
    · cases h
    · rename_i a after hafter
      obtain ⟨rfl, rfl⟩ := h
      have ha : a = c := by
        have hhead := List.head?_dropWhile_not (· != c) s
        rw [hafter] at hhead
        simpa using hhead
      rw [← ha, ← hafter, ha, List.takeWhile_append_dropWhile]
  · rintro ⟨rfl, h⟩
    exact cut_append h rest

/-! ### Joining -/

theorem joinWith_cons_append (sep s t : Text) (lines : List Text) :
    joinWith sep ((s ++ t) :: lines) = s ++ joinWith sep (t :: lines) := by
  cases lines with
  | nil => rfl
  | cons u lines => simp only [joinWith, List.append_assoc]

theorem joinWith_cons_of_ne_nil (sep s : Text) (h : lines ≠ []) :
    joinWith sep (s :: lines) = s ++ sep ++ joinWith sep lines := by
  obtain ⟨t, rest, rfl⟩ := List.exists_cons_of_ne_nil h
  rfl

theorem joinWith_concat (sep t : Text) (h : lines ≠ []) :
    joinWith sep (lines ++ [t]) = joinWith sep lines ++ sep ++ t := by
  induction lines with
  | nil => exact absurd rfl h
  | cons u lines ih =>
    by_cases hlines : lines = []
    · rw [hlines]
      rfl
    · rw [List.cons_append, joinWith_cons_of_ne_nil sep u (List.concat_ne_nil _ _), ih hlines,
        joinWith_cons_of_ne_nil sep u hlines]
      simp only [List.append_assoc]

theorem splitOn_eq_listSplitOn (c : Char) (s : Text) : splitOn c s = List.splitOn c s := by
  induction s with
  | nil => rfl
  | cons a s ih =>
    rw [splitOn, ih, List.splitOn_cons_eq_if_modifyHead]
    by_cases ha : a = c
    · simp [ha]
    · have hne : List.splitOn c s ≠ [] := List.splitOn_ne_nil c s
      rw [if_neg ha, if_neg (by simpa using ha)]
      cases hs : List.splitOn c s with
      | nil => exact absurd hs hne
      | cons part parts => rfl

theorem joinWith_eq_intercalate (sep : Text) : ∀ ts : List Text, joinWith sep ts = sep.intercalate ts
  | [] => rfl
  | [t] => by simp [joinWith]
  | s :: t :: rest => by rw [joinWith, List.intercalate_cons_cons, joinWith_eq_intercalate sep (t :: rest)]

theorem splitOn_joinWith (hne : lines ≠ []) (h : ∀ s ∈ lines, c ∉ s) : splitOn c (joinWith [c] lines) = lines := by
  rw [splitOn_eq_listSplitOn, joinWith_eq_intercalate]
  exact List.splitOn_intercalate c h hne

theorem joinWith_splitOn (c : Char) (s : Text) : joinWith [c] (splitOn c s) = s := by
  rw [splitOn_eq_listSplitOn, joinWith_eq_intercalate]
  exact List.intercalate_splitOn c

theorem not_mem_of_mem_splitOn : ∀ {s part : Text}, part ∈ splitOn c s → c ∉ part
  | [], part, h => by
    rw [splitOn, List.mem_singleton] at h
    simp [h]
  | a :: s, part, h => by
    have ih : ∀ part ∈ splitOn c s, c ∉ part := fun part hpart => not_mem_of_mem_splitOn hpart
    rw [splitOn] at h
    split at h
    · rcases List.mem_cons.mp h with rfl | h
      · exact List.not_mem_nil
      · exact ih part h
    · rename_i ha
      split at h
      · rw [List.mem_singleton.mp h, List.mem_singleton]
        exact Ne.symm ha
      · rename_i first parts hsplit
        rw [hsplit] at ih
        rcases List.mem_cons.mp h with rfl | h
        · rw [List.mem_cons, not_or]
          exact ⟨Ne.symm ha, ih first List.mem_cons_self⟩
        · exact ih part (List.mem_cons_of_mem _ h)

/-! ### Written lines -/

/-- A line as it is read: without a line feed, and without a line end at its end. -/
structure IsLine (s : Text) : Prop where
  noFeed : '\n' ∉ s
  dropLineEnd : Text.dropLineEnd s = s

instance (s : Text) : Decidable (IsLine s) :=
  decidable_of_iff ('\n' ∉ s ∧ Text.dropLineEnd s = s) ⟨fun h => ⟨h.1, h.2⟩, fun h => ⟨h.noFeed, h.dropLineEnd⟩⟩

theorem isLine_trim (h : '\n' ∉ s) : IsLine (trim s) := ⟨fun hmem => h (mem_of_mem_trim hmem), dropLineEnd_trim s⟩

/-- Lines as they are written: each with a line feed after it. -/
def written (lines : List Text) : Text := lines.flatMap (· ++ "\n".toList)

@[simp] theorem written_cons (s : Text) (lines : List Text) : written (s :: lines) = s ++ '\n' :: written lines := by
  simp [written]

theorem written_append (lines lines' : List Text) : written (lines ++ lines') = written lines ++ written lines' :=
  List.flatMap_append

theorem joinWith_append_feed : ∀ {lines : List Text}, lines ≠ [] →
    joinWith "\n".toList lines ++ "\n".toList = written lines
  | [], h => absurd rfl h
  | [s], _ => by simp [joinWith, written]
  | s :: t :: rest, _ => by
    have ih : joinWith "\n".toList (t :: rest) ++ "\n".toList = _ := joinWith_append_feed (List.cons_ne_nil _ _)
    rw [joinWith, List.append_assoc, ih, written_cons s, List.append_assoc]
    rfl

end Text

/-! ### Cutting -/

section
variable {α : Type} {ends : α → Bool} {a : α} {s t piece : List α}

theorem beq_eq_false_of_not_mem [BEq α] [LawfulBEq α] (h : a ∉ s) : ∀ b ∈ s, (b == a) = false :=
  fun _ hb => beq_eq_false_iff_ne.mpr fun heq => h (heq ▸ hb)

theorem cutAfter_cons_end (ha : ends a = true) (s : List α) : cutAfter ends (a :: s) = [a] :: cutAfter ends s := by
  rw [cutAfter, if_pos ha]

theorem cutAfter_cons_nil (ha : ends a = false) (hs : cutAfter ends s = []) : cutAfter ends (a :: s) = [[a]] := by
  simp [cutAfter, ha, hs]

theorem cutAfter_cons_cons {pieces : List (List α)} (ha : ends a = false) (hs : cutAfter ends s = piece :: pieces) :
    cutAfter ends (a :: s) = (a :: piece) :: pieces := by
  simp [cutAfter, ha, hs]

/-- A piece ends with the first terminator in it. -/
theorem ends_of_mem_dropLast : ∀ {s piece : List α}, piece ∈ cutAfter ends s → ∀ a ∈ piece.dropLast, ends a = false
  | [], _, h => by simp [cutAfter] at h
  | a :: s, piece, h => by
    by_cases ha : ends a = true
    · rw [cutAfter_cons_end ha] at h
      rcases List.mem_cons.mp h with rfl | h
      · simp
      · exact ends_of_mem_dropLast h
    · have ha : ends a = false := by simpa using ha
      cases hs : cutAfter ends s with
      | nil =>
        rw [cutAfter_cons_nil ha hs, List.mem_singleton] at h
        simp [h]
      | cons first pieces =>
        have ih : ∀ {piece}, piece ∈ first :: pieces → ∀ a ∈ piece.dropLast, ends a = false :=
          fun hp => ends_of_mem_dropLast (hs.symm ▸ hp)
        rw [cutAfter_cons_cons ha hs] at h
        rcases List.mem_cons.mp h with rfl | h
        · intro b hb
          cases hf : first with
          | nil => simp [hf] at hb
          | cons x xs =>
            rw [hf, List.dropLast_cons_of_ne_nil (List.cons_ne_nil _ _)] at hb
            rcases List.mem_cons.mp hb with rfl | hb
            · exact ha
            · exact ih List.mem_cons_self b (hf ▸ hb)
        · exact ih (List.mem_cons_of_mem _ h)

theorem cutAfter_cons_ne_nil : cutAfter ends (a :: s) ≠ [] := by
  rw [cutAfter]
  split
  · exact List.cons_ne_nil _ _
  · split <;> exact List.cons_ne_nil _ _

/-- What is cut after a terminator is cut on its own. -/
theorem cutAfter_append_of_ends (h : ∀ a ∈ s.getLast?, ends a = true) (t : List α) :
    cutAfter ends (s ++ t) = cutAfter ends s ++ cutAfter ends t := by
  induction s with
  | nil => rfl
  | cons a s ih =>
    cases s with
    | nil =>
      have ha : ends a = true := h a rfl
      rw [List.singleton_append, cutAfter_cons_end ha, cutAfter_cons_end ha]
      rfl
    | cons b s =>
      have ih := ih fun c hc => h c (by rwa [List.getLast?_cons_cons])
      by_cases ha : ends a = true
      · rw [List.cons_append, cutAfter_cons_end ha, ih, cutAfter_cons_end ha, List.cons_append]
      · have ha : ends a = false := by simpa using ha
        cases hcut : cutAfter ends (b :: s) with
        | nil => exact absurd hcut cutAfter_cons_ne_nil
        | cons piece pieces =>
          rw [hcut] at ih
          rw [List.cons_append, cutAfter_cons_cons ha ih, cutAfter_cons_cons ha hcut]
          rfl

theorem cutAfter_eq_singleton (h : ∀ a ∈ s, ends a = false) (hne : s ≠ []) : cutAfter ends s = [s] := by
  induction s with
  | nil => exact absurd rfl hne
  | cons a s ih =>
    have ha := h a List.mem_cons_self
    cases s with
    | nil => exact cutAfter_cons_nil ha rfl
    | cons b s => exact cutAfter_cons_cons ha (ih (fun c hc => h c (List.mem_cons_of_mem _ hc)) (List.cons_ne_nil b s))

theorem cutAfter_append (hs : ∀ b ∈ s, ends b = false) (ha : ends a = true) (t : List α) :
    cutAfter ends (s ++ a :: t) = (s ++ [a]) :: cutAfter ends t := by
  induction s with
  | nil => rw [List.nil_append, cutAfter_cons_end ha, List.nil_append]
  | cons b s ih =>
    have ih := ih fun b hb => hs b (List.mem_cons_of_mem _ hb)
    rw [List.cons_append, cutAfter_cons_cons (hs b List.mem_cons_self) ih]
    rfl

end

/-! ### Line feeds in octets -/

namespace Utf8

variable {c : Char} {s : Text}

theorem feed_mem_encodeChar : 10 ∈ String.utf8EncodeChar c ↔ c = '\n' := by
  constructor
  · intro h
    by_cases h₁ : c.toNat < 0x80
    · rw [encodeChar_one h₁, List.mem_singleton] at h
      have hn : c.toNat = 10 := by
        have := ofNat_toNat (n := c.toNat) (by omega)
        rw [← h] at this
        exact this.symm
      rw [← Char.ofNat_toNat c, hn]
    · -- Every octet of a longer sequence is at least 0x80.
      exfalso
      have hmax := toNat_lt_max c
      have hsmall : ∀ n, n < 256 → 0x80 ≤ n → (10 : UInt8) ≠ UInt8.ofNat n := by
        rintro n hn hlow heq
        have := ofNat_toNat hn
        rw [← heq] at this
        exact absurd this (by simp; omega)
      by_cases h₂ : c.toNat < 0x800
      · rw [encodeChar_two (by omega) h₂] at h
        simp only [List.mem_cons, List.not_mem_nil, or_false] at h
        rcases h with h | h <;> exact hsmall _ (by omega) (by omega) h
      by_cases h₃ : c.toNat < 0x10000
      · rw [encodeChar_three (by omega) h₃] at h
        simp only [List.mem_cons, List.not_mem_nil, or_false] at h
        rcases h with h | h | h <;> exact hsmall _ (by omega) (by omega) h
      · rw [encodeChar_four (by omega)] at h
        simp only [List.mem_cons, List.not_mem_nil, or_false] at h
        rcases h with h | h | h | h <;> exact hsmall _ (by omega) (by omega) h
  · rintro rfl
    decide

theorem encode_append (s t : Text) : encode (s ++ t) = encode s ++ encode t := List.flatMap_append

/-- The octet 10 stands for line feeds only. -/
theorem feed_mem_encode : 10 ∈ encode s ↔ '\n' ∈ s := by
  rw [encode, List.mem_flatMap]
  constructor
  · rintro ⟨c, hc, h⟩
    exact feed_mem_encodeChar.mp h ▸ hc
  · intro h
    exact ⟨'\n', h, feed_mem_encodeChar.mpr rfl⟩

/-- A text whose octets hold a line feed at their end only holds one at its end only. -/
theorem feed_not_mem_dropLast (h : 10 ∉ (encode s).dropLast) : '\n' ∉ s.dropLast := by
  rcases List.eq_nil_or_concat s with rfl | ⟨body, c, rfl⟩
  · simp
  · rw [List.concat_eq_append] at h ⊢
    rw [encode_append, List.dropLast_append_of_ne_nil (by simp [encode])] at h
    rw [List.dropLast_concat]
    exact fun hmem => h (List.mem_append_left _ (feed_mem_encode.mpr hmem))

end Utf8

/-! ### Lines of a file -/

namespace Include

open Text Utf8

variable {content : List UInt8} {raws lines : List Text} {raw : Text}

theorem isLine_dropLineEnd {s : Text} (h : '\n' ∉ s.dropLast) : IsLine (dropLineEnd s) :=
  ⟨not_mem_dropEndWhile rfl h, dropEndWhile_idem _ s⟩

theorem isLine_of_mem_decodeLines : ∀ {pieces : List (List UInt8)}, (∀ piece ∈ pieces, 10 ∉ piece.dropLast) →
    ∀ raw ∈ (decodeLines pieces).1, IsLine raw
  | [], _ => by simp [decodeLines]
  | piece :: pieces, h => by
    intro raw hraw
    rw [decodeLines] at hraw
    cases hd : Utf8.decode piece with
    | error flaw => simp [hd] at hraw
    | ok text =>
      simp only [hd, List.mem_cons] at hraw
      rcases hraw with rfl | hraw
      · refine isLine_dropLineEnd (feed_not_mem_dropLast ?_)
        rw [decode_eq_ok_iff.mp hd]
        exact h piece List.mem_cons_self
      · exact isLine_of_mem_decodeLines (fun piece hp => h piece (List.mem_cons_of_mem _ hp)) raw hraw

theorem isLine_of_mem_rawLines (h : raw ∈ (rawLines content).1) : IsLine raw := by
  refine isLine_of_mem_decodeLines ?_ raw h
  intro piece hp hmem
  have := ends_of_mem_dropLast hp 10 hmem
  simp at this

theorem cutAfter_encode_line {s rest : Text} (h : '\n' ∉ s) :
    cutAfter (· == 10) (encode (s ++ '\n' :: rest)) = encode (s ++ ['\n']) :: cutAfter (· == 10) (encode rest) := by
  -- No octet of the line ends a piece before the line feed does.
  have hfeed : encode ('\n' :: rest) = 10 :: encode rest := rfl
  have hone : encode ['\n'] = [10] := rfl
  rw [encode_append, encode_append, hfeed, hone]
  exact cutAfter_append (beq_eq_false_of_not_mem (mt feed_mem_encode.mp h)) rfl (encode rest)

theorem decodeLines_append {pieces pieces' : List (List UInt8)} (h : (decodeLines pieces).2 = none) :
    decodeLines (pieces ++ pieces') = ((decodeLines pieces).1 ++ (decodeLines pieces').1, (decodeLines pieces').2) := by
  induction pieces with
  | nil => rfl
  | cons piece pieces ih =>
    rw [List.cons_append, decodeLines, decodeLines]
    rw [decodeLines] at h
    cases hd : Utf8.decode piece with
    | error flaw => simp [hd] at h
    | ok text =>
      simp only [hd] at h
      simp [ih h]

/-- The lines of what is added after a line feed are added to the lines that are there. -/
theorem rawLines_append {content' : List UInt8} (h : ∀ b ∈ content.getLast?, b = 10)
    (hraws : rawLines content = (raws, none)) :
    rawLines (content ++ content') = (raws ++ (rawLines content').1, (rawLines content').2) := by
  have hcut := cutAfter_append_of_ends (fun b hb => beq_iff_eq.mpr (h b hb)) content'
  rw [rawLines] at hraws ⊢
  rw [hcut, decodeLines_append (congrArg Prod.snd hraws), hraws, rawLines]

theorem rawLines_line {s : Text} (h : '\n' ∉ s) (hne : s ≠ []) : rawLines (encode s) = ([dropLineEnd s], none) := by
  have hoctets : encode s ≠ [] := by
    intro hnil
    have hdecode := decode_encode s
    rw [hnil] at hdecode
    exact hne (Except.ok.inj hdecode).symm
  have hcut : cutAfter (· == 10) (encode s) = [encode s] :=
    cutAfter_eq_singleton (beq_eq_false_of_not_mem (mt feed_mem_encode.mp h)) hoctets
  rw [rawLines, hcut, decodeLines, decode_encode]
  rfl

/-- Written lines are read back, each up to the line ends it ends in. -/
theorem rawLines_written (h : ∀ s ∈ lines, '\n' ∉ s) :
    rawLines (encode (written lines)) = (lines.map dropLineEnd, none) := by
  induction lines with
  | nil => rfl
  | cons s lines ih =>
    have ih := ih fun s hs => h s (List.mem_cons_of_mem _ hs)
    rw [rawLines] at ih ⊢
    rw [written_cons, cutAfter_encode_line (h s List.mem_cons_self), decodeLines, decode_encode, ih]
    simp only [List.map_cons, Prod.mk.injEq, List.cons.injEq, and_true]
    exact dropLineEnd_concat s

theorem joinWith_concat_eq_written (lines : List Text) (s : Text) :
    joinWith "\n" (lines ++ [s]) = written lines ++ s := by
  by_cases h : lines = []
  · rw [h]
    rfl
  · rw [joinWith_concat _ _ h, joinWith_append_feed h]

theorem getLast?_encode_written : ∀ b ∈ (encode (written lines)).getLast?, b = 10 := by
  by_cases h : lines = []
  · rw [h]
    exact fun b hb => by cases hb
  · have hfeed : encode "\n".toList = [10] := rfl
    rw [← joinWith_append_feed h, encode_append, hfeed, List.getLast?_concat]
    exact fun b hb => (Option.mem_some_iff.mp hb).symm

/-- Lines with a line feed between two of them are read back, at the beginning of a file and at its end. -/
theorem rawLines_joinWith {tail : List UInt8} (h : ∀ raw ∈ raws, IsLine raw) (hlast : ∀ raw ∈ raws.getLast?, raw ≠ [])
    (hne : raws ≠ []) (htail : ∀ b ∈ tail.head?, b = 10) : rawLines (encode (joinWith "\n" raws) ++ tail) =
      (raws ++ (rawLines tail.tail).1, (rawLines tail.tail).2) := by
  have hmap : ∀ {ls : List Text}, (∀ raw ∈ ls, IsLine raw) → ls.map dropLineEnd = ls := fun hls =>
    (List.map_congr_left fun raw hraw => (hls raw hraw).dropLineEnd).trans (List.map_id _)
  have hwritten : ∀ {ls : List Text}, (∀ raw ∈ ls, IsLine raw) → rawLines (encode (written ls)) = (ls, none) :=
    fun hls => (rawLines_written fun raw hraw => (hls raw hraw).noFeed).trans (by rw [hmap hls])
  cases tail with
  | nil =>
    -- The last line ends with the file.
    obtain ⟨init, last, rfl⟩ := (List.eq_nil_or_concat raws).resolve_left hne
    rw [List.concat_eq_append] at h hlast ⊢
    have hline := h last List.mem_concat_self
    have hinit : ∀ raw ∈ init, IsLine raw := fun raw hraw => h raw (List.mem_append_left _ hraw)
    rw [List.append_nil, joinWith_concat_eq_written, encode_append,
      rawLines_append getLast?_encode_written (hwritten hinit),
      rawLines_line hline.noFeed (hlast last (by simp)), hline.dropLineEnd]
    simp [rawLines, cutAfter, decodeLines]
  | cons b rest =>
    obtain rfl : b = 10 := htail b rfl
    have hfeed : encode (joinWith "\n" raws) ++ 10 :: rest = encode (written raws) ++ rest := by
      rw [← joinWith_append_feed hne, encode_append, List.append_assoc]
      rfl
    rw [hfeed, rawLines_append getLast?_encode_written (hwritten h)]
    rfl

end Include

end Runbook
