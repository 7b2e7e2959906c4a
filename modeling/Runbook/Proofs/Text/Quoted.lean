import Runbook.Proofs.Text.Margins
import Runbook.Text.Quoted

/-! # The grammar of string literals

Between two double quotes stand pieces: characters as they are, escapes of one letter, and escapes of four hexadecimal
digits, alone or in pairs. A piece stands for a character, unless it is half a pair alone. Literals whose pieces stand for
the characters of a text are read to this text, whichever pieces they are (`decodeBody_of_denotes`); what is read and is
not a literal ends with white space after the closing quote (`isLiteral_of_decodeBody`). -/

namespace Runbook.Text.Quoted

variable {c e x : Char} {n i hi lo : Nat} {s t u v after body digits high low : Text} {values : List (Option Char)}

/-- The letters of the short escapes, and the characters they stand for. -/
def shortForms : List (Char × Char) :=
  [('"', '"'), ('\\', '\\'), ('/', '/'), ('b', '\x08'), ('f', '\x0c'), ('n', '\n'), ('r', '\r'), ('t', '\t')]

/-- The hexadecimal digits, of either case, and their values. -/
def hexDigits : List (Char × Nat) := "0123456789abcdef".toList.zipIdx ++ "ABCDEF".toList.zipIdx 10

/-- `HexFour digits n`: the four digits, which may differ in case, stand for `n`. -/
inductive HexFour : Text → Nat → Prop
  | mk {a b c d : Char} {i j k l : Nat} : (a, i) ∈ hexDigits → (b, j) ∈ hexDigits → (c, k) ∈ hexDigits →
      (d, l) ∈ hexDigits → HexFour [a, b, c, d] (((i * 16 + j) * 16 + k) * 16 + l)

/-- `Piece s x`: `s` is a piece of a literal and stands for the character `x`, or for none. -/
inductive Piece : Text → Option Char → Prop
  /-- A character as it is: no quote, no backslash and no control character. -/
  | raw {c : Char} : c ≠ '"' → c ≠ '\\' → 0x20 ≤ c.toNat → Piece [c] (some c)
  | short {e c : Char} : (e, c) ∈ shortForms → Piece ['\\', e] (some c)
  | unit {digits : Text} {c : Char} : HexFour digits c.toNat → Piece ('\\' :: 'u' :: digits) (some c)
  | pair {high low : Text} {hi lo : Nat} {c : Char} : HexFour high (0xD800 + hi) → HexFour low (0xDC00 + lo) →
      lo < 0x400 → c.toNat = 0x10000 + hi * 0x400 + lo →
      Piece ('\\' :: 'u' :: high ++ '\\' :: 'u' :: low) (some c)
  | half {digits : Text} {n : Nat} : HexFour digits n → 0xD800 ≤ n → n ≤ 0xDFFF → Piece ('\\' :: 'u' :: digits) none

/-- Pieces one after the other. -/
inductive Pieces : Text → List (Option Char) → Prop
  | nil : Pieces [] []
  | cons {s t : Text} {x : Option Char} {values : List (Option Char)} : Piece s x → Pieces t values →
      Pieces (s ++ t) (x :: values)

/-- `Literal t values`: `t` is a string literal, and its pieces stand for the values. -/
def Literal (t : Text) (values : List (Option Char)) : Prop := ∃ body, Pieces body values ∧ t = '"' :: body ++ ['"']

/-- Whether a text is a string literal. -/
def IsLiteral (t : Text) : Prop := ∃ values, Literal t values

/-- `Denotes t s`: `t` is a string literal for the text `s`. -/
def Denotes (t s : Text) : Prop := Literal t (s.map some)

/-! ### Digits -/

theorem hexDigit?_of_mem : ∀ p ∈ hexDigits, hexDigit? p.1 = some p.2 := by decide

theorem lt_of_mem_hexDigits : ∀ p ∈ hexDigits, p.2 < 16 := by decide

theorem mem_hexDigits (h : hexDigit? c = some i) : (c, i) ∈ hexDigits := by
  have hall : ∀ n < 103, (hexDigit? (Char.ofNat n)).all (fun i => (Char.ofNat n, i) ∈ hexDigits) = true := by decide
  have hlt : c.toNat < 103 := by
    unfold hexDigit? at h
    simp only [Bool.and_eq_true, decide_eq_true_eq, Char.le_def, UInt32.le_iff_toNat_le] at h
    split at h
    · exact Nat.lt_of_le_of_lt (‹_ ∧ _›).2 (by decide)
    · split at h
      · exact Nat.lt_of_le_of_lt (‹_ ∧ _›).2 (by decide)
      · split at h
        · exact Nat.lt_of_le_of_lt (‹_ ∧ _›).2 (by decide)
        · cases h
  have hc := hall c.toNat hlt
  rw [Char.ofNat_toNat, h] at hc
  simpa using hc

theorem hexFour_of_eq_some {a b c d : Char} (h : hexFour? a b c d = some n) : HexFour [a, b, c, d] n := by
  simp only [hexFour?, Option.bind_eq_bind, Option.bind_eq_some_iff, Option.pure_def, Option.some.injEq] at h
  obtain ⟨i, hi, j, hj, k, hk, l, hl, rfl⟩ := h
  exact .mk (mem_hexDigits hi) (mem_hexDigits hj) (mem_hexDigits hk) (mem_hexDigits hl)

theorem HexFour.exists_eq_some (h : HexFour digits n) :
    ∃ a b c d, digits = [a, b, c, d] ∧ hexFour? a b c d = some n := by
  obtain ⟨ha, hb, hc, hd⟩ := h
  have ha := hexDigit?_of_mem _ ha
  have hb := hexDigit?_of_mem _ hb
  have hc := hexDigit?_of_mem _ hc
  have hd := hexDigit?_of_mem _ hd
  exact ⟨_, _, _, _, rfl, by simp [hexFour?, ha, hb, hc, hd]⟩

theorem HexFour.length_eq (h : HexFour digits n) : digits.length = 4 := by
  obtain ⟨-, -, -, -⟩ := h
  rfl

theorem HexFour.lt (h : HexFour digits n) : n < 0x10000 := by
  obtain ⟨ha, hb, hc, hd⟩ := h
  have := lt_of_mem_hexDigits _ ha
  have := lt_of_mem_hexDigits _ hb
  have := lt_of_mem_hexDigits _ hc
  have := lt_of_mem_hexDigits _ hd
  omega

theorem shortEscape?_eq_some_iff : shortEscape? e = some c ↔ (e, c) ∈ shortForms := by
  have hall : ∀ p ∈ shortForms, shortEscape? p.1 = some p.2 := by decide
  refine ⟨fun h => ?_, hall (e, c)⟩
  unfold shortEscape? at h
  split at h <;> cases h <;> decide

/-! ### What is written so is read -/

theorem charOf_toNat (c : Char) : charOf c.toNat = c := by
  have hvalid : c.toNat.isValidChar := c.valid
  rw [charOf, if_pos hvalid, Char.ofNat_toNat]

theorem isHighHalf_toNat (c : Char) : isHighHalf c.toNat = false := by
  have hvalid : c.toNat.isValidChar := c.valid
  simp only [isHighHalf, Bool.and_eq_false_iff, decide_eq_false_iff_not]
  rcases hvalid with h | ⟨h, -⟩ <;> omega

theorem unicodeEscape_unit (h : HexFour digits c.toNat) (ht : t ≠ []) :
    unicodeEscape (digits ++ t) = .ok (c, 4) := by
  obtain ⟨next, rest, rfl⟩ := List.exists_cons_of_ne_nil ht
  obtain ⟨c₁, c₂, c₃, c₄, rfl, hfour⟩ := h.exists_eq_some
  simp [unicodeEscape, hfour, isHighHalf_toNat, charOf_toNat]

theorem unicodeEscape_pair {m : Nat} (h : HexFour high n) (h' : HexFour low m) (hhigh : isHighHalf n = true)
    (hlow : isLowHalf m = true) (hc : joinHalves n m = c.toNat) (ht : t ≠ []) :
    unicodeEscape (high ++ '\\' :: 'u' :: low ++ t) = .ok (c, 10) := by
  obtain ⟨next, rest, rfl⟩ := List.exists_cons_of_ne_nil ht
  obtain ⟨c₁, c₂, c₃, c₄, rfl, hfirst⟩ := h.exists_eq_some
  obtain ⟨d₁, d₂, d₃, d₄, rfl, hsecond⟩ := h'.exists_eq_some
  simp [unicodeEscape, hfirst, hsecond, hhigh, hlow, hc, charOf_toNat]

theorem escape_short (h : (e, c) ∈ shortForms) (t : Text) : escape (e :: t) = .ok (c, 1) := by
  have hu : ∀ p ∈ shortForms, p.1 ≠ 'u' := by decide
  rw [escape, shortEscape?_eq_some_iff.mpr h]
  exact hu _ h

theorem escape_unicode (h : unicodeEscape s = .ok (c, n)) : escape ('u' :: s) = .ok (c, n + 1) := by
  rw [escape, h]
  rfl

theorem scan_drop (s t : Text) : scan s.length (s ++ t) = scan 0 t := by
  induction s with
  | nil => rfl
  | cons c s ih => exact ih

theorem scan_escape (h : escape (s ++ t) = .ok (c, s.length)) :
    scan 0 ('\\' :: s ++ t) = (scan 0 t).map fun (value, after) => (c :: value, after) := by
  show scan 0 ('\\' :: (s ++ t)) = _
  rw [scan, if_neg (by decide), if_pos rfl, h]
  dsimp only
  rw [scan_drop]

/-- A piece that stands for a character is read as this character, wherever it stands before the closing quote. -/
theorem scan_piece (h : Piece s (some c)) (ht : t ≠ []) :
    scan 0 (s ++ t) = (scan 0 t).map fun (value, after) => (c :: value, after) := by
  cases h with
  | raw hquote hescape hcontrol =>
    show scan 0 (c :: t) = _
    rw [scan, if_neg hquote, if_neg hescape, if_neg (by omega)]
  | @short e _ h => exact scan_escape (s := [e]) (escape_short h t)
  | @unit digits _ h =>
    refine scan_escape (s := 'u' :: digits) ?_
    rw [List.length_cons, h.length_eq]
    exact escape_unicode (unicodeEscape_unit h ht)
  | @pair high low hi lo _ h h' hlo hc =>
    have hmax : c.toNat < 0x110000 := Utf8.toNat_lt_max c
    have hhigh : isHighHalf (0xD800 + hi) = true := by
      simp only [isHighHalf, Bool.and_eq_true, decide_eq_true_eq]
      omega
    have hlow : isLowHalf (0xDC00 + lo) = true := by
      simp only [isLowHalf, Bool.and_eq_true, decide_eq_true_eq]
      omega
    have hjoin : joinHalves (0xD800 + hi) (0xDC00 + lo) = c.toNat := by
      unfold joinHalves
      omega
    have hlength : ('u' :: high ++ '\\' :: 'u' :: low).length = 11 := by
      simp [h.length_eq, h'.length_eq]
    refine scan_escape (s := 'u' :: high ++ '\\' :: 'u' :: low) ?_
    rw [hlength]
    exact escape_unicode (unicodeEscape_pair h h' hhigh hlow hjoin ht)

theorem scan_pieces (h : Pieces body values) (hs : values = s.map some) (after : Text) :
    scan 0 (body ++ '"' :: after) = .ok (s, after) := by
  induction h generalizing s with
  | nil =>
    rw [List.map_eq_nil_iff.mp hs.symm]
    rfl
  | cons hpiece _ ih =>
    obtain ⟨c, s, rfl, rfl, hrest⟩ := List.map_eq_cons_iff.mp hs.symm
    rw [List.append_assoc, scan_piece hpiece (by simp), ih hrest.symm]
    rfl

/-- A literal for a text is read to the text. -/
theorem decodeBody_of_denotes (h : Denotes t s) : decodeBody (t.drop 1) = .ok s := by
  obtain ⟨body, hbody, rfl⟩ := h
  show decodeBody (body ++ ['"']) = .ok s
  rw [decodeBody, scan_pieces hbody rfl]
  rfl

/-! ### What is read is written so -/

theorem exists_of_map_eq_ok {ε α β : Type} {f : α → β} {r : Except ε α} {b : β} (h : r.map f = .ok b) :
    ∃ a, r = .ok a ∧ f a = b := by
  cases r with
  | error e => cases h
  | ok a => exact ⟨a, rfl, Except.ok.inj h⟩

theorem Pieces.singleton {x : Option Char} (h : Piece s x) : Pieces s [x] := by
  simpa using Pieces.cons h .nil

theorem Pieces.append {values' : List (Option Char)} (h : Pieces s values) (h' : Pieces t values') :
    Pieces (s ++ t) (values ++ values') := by
  induction h with
  | nil => exact h'
  | cons hpiece _ ih =>
    rw [List.append_assoc]
    exact .cons hpiece ih

/-- Four digits stand for a character or for half a pair. -/
theorem HexFour.exists_piece (h : HexFour digits n) : ∃ x, Piece ('\\' :: 'u' :: digits) x := by
  have hlt := h.lt
  by_cases hhalf : 0xD800 ≤ n ∧ n ≤ 0xDFFF
  · exact ⟨none, .half h hhalf.1 hhalf.2⟩
  · have hvalid : n.isValidChar := by
      rw [Nat.isValidChar]
      omega
    refine ⟨some (Char.ofNat n), .unit ?_⟩
    rwa [Utf8.toNat_charOfNat hvalid]

theorem unicodeEscape_eq_ok (h : unicodeEscape s = .ok (c, n)) :
    ∃ digits t values, s = digits ++ t ∧ digits.length = n ∧ Pieces ('\\' :: 'u' :: digits) values := by
  unfold unicodeEscape at h
  split at h
  · rename_i a b c d next rest
    split at h
    · cases h
    · rename_i high hfour
      obtain ⟨x, hx⟩ := (hexFour_of_eq_some hfour).exists_piece
      have hone : ∃ digits t values, a :: b :: c :: d :: next :: rest = digits ++ t ∧ digits.length = 4 ∧
          Pieces ('\\' :: 'u' :: digits) values := ⟨[a, b, c, d], next :: rest, [x], rfl, rfl, .singleton hx⟩
      split at h
      · rename_i a' b' c' d' after' rest' _
        split at h
        · cases h
        · rename_i low hfour'
          obtain ⟨x', hx'⟩ := (hexFour_of_eq_some hfour').exists_piece
          have hread := Except.ok.inj h
          split at hread
          · -- What is read as a pair is two halves as well.
            rw [← (Prod.mk.inj hread).2]
            exact ⟨[a, b, c, d, '\\', 'u', a', b', c', d'], after' :: rest', [x, x'], rfl, rfl,
              (Pieces.singleton hx).append (.singleton hx')⟩
          · rw [← (Prod.mk.inj hread).2]
            exact hone
      · rw [← (Prod.mk.inj (Except.ok.inj h)).2]
        exact hone
  · cases h

theorem escape_eq_ok (h : escape s = .ok (c, n)) :
    ∃ e t values, s = e ++ t ∧ e.length = n ∧ Pieces ('\\' :: e) values := by
  unfold escape at h
  split at h
  · cases h
  · obtain ⟨⟨x, taken⟩, hread, heq⟩ := exists_of_map_eq_ok h
    cases heq
    obtain ⟨digits, t, values, rfl, rfl, hpieces⟩ := unicodeEscape_eq_ok hread
    exact ⟨'u' :: digits, t, values, rfl, rfl, hpieces⟩
  · rename_i letter rest _
    split at h
    · cases h
    · rename_i x hshort
      cases h
      exact ⟨[letter], rest, [some c], rfl, rfl, .singleton (.short (shortEscape?_eq_some_iff.mp hshort))⟩

theorem pieces_of_scan {skip : Nat} (h : scan skip t = .ok (s, after)) :
    ∃ body values, t.drop skip = body ++ '"' :: after ∧ Pieces body values := by
  -- One case for each branch of the reader: a piece goes before those that are read after it.
  fun_induction scan skip t generalizing s with
  | case1 => cases h
  | case2 skip c rest ih => exact ih h
  | case3 rest =>
    cases h
    exact ⟨[], [], rfl, .nil⟩
  | case4 => cases h
  | case5 rest x taken hescape hquote ih =>
    obtain ⟨⟨value, after'⟩, hrest, heq⟩ := exists_of_map_eq_ok h
    cases heq
    obtain ⟨body, values, hbody, hpieces⟩ := ih hrest
    obtain ⟨e, t, values', rfl, rfl, hpiece⟩ := escape_eq_ok hescape
    rw [List.drop_left] at hbody
    exact ⟨_, _, by rw [hbody]; simp, hpiece.append hpieces⟩
  | case6 => cases h
  | case7 c rest hquote hescape hcontrol ih =>
    obtain ⟨⟨value, after'⟩, hrest, heq⟩ := exists_of_map_eq_ok h
    cases heq
    obtain ⟨body, values, hbody, hpieces⟩ := ih hrest
    have hraw : Piece [c] (some c) := .raw hquote hescape (by omega)
    exact ⟨[c] ++ body, _, by rw [List.drop_zero] at hbody ⊢; rw [hbody]; rfl, .cons hraw hpieces⟩

theorem isBlank_of_isSpace (h : isSpace c = true) : isBlank c = true := by
  simp only [isSpace, Bool.or_eq_true, beq_iff_eq] at h
  rcases h with ((rfl | rfl) | rfl) | rfl <;> rfl

/-- What is read from a double quote on and does not end with white space is a literal. -/
theorem isLiteral_of_decodeBody (ht : IsTrimmed t) (hstarts : startsWith "\"" t = true)
    (h : decodeBody (t.drop 1) = .ok s) : IsLiteral t := by
  obtain ⟨rest, rfl⟩ := List.isPrefixOf_iff_prefix.mp hstarts
  have hrest : decodeBody rest = .ok s := h
  unfold decodeBody at hrest
  split at hrest
  · cases hrest
  · rename_i value after hscan
    split at hrest
    · rename_i hspace
      obtain ⟨body, values, hbody, hpieces⟩ := pieces_of_scan hscan
      rw [List.drop_zero] at hbody
      have hwhole : "\"".toList ++ rest = '"' :: body ++ ['"'] ++ after := by simp [hbody]
      -- The last character is the closing quote, since it is no blank.
      have hafter : after = [] := by
        by_contra hne
        have hblank : isBlank (after.getLast hne) = true :=
          isBlank_of_isSpace (List.all_eq_true.mp hspace _ (List.getLast_mem hne))
        have hlast : isBlank (after.getLast hne) = false := by
          refine ht.last _ ?_
          rw [hwhole, List.getLast?_append_of_ne_nil _ hne, List.getLast?_eq_getLast_of_ne_nil hne]
          rfl
        rw [hlast] at hblank
        cases hblank
      exact ⟨values, body, hpieces, by rw [hwhole, hafter, List.append_nil]⟩
    · cases hrest

end Runbook.Text.Quoted
