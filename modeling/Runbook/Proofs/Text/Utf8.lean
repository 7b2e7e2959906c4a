import Runbook.Text.Utf8
import Mathlib.Tactic.Common

/-! # Encoding and decoding

The strict decoder takes exactly the encodings (`decode_eq_ok_iff`): it reads the encoding of a character and goes on
after it (`decodeFrom_encodeChar`), and whatever it reads as a character is the encoding of that character
(`decodeFrom_ok_cons`), since the ranges of the octets leave no other way to write a value. -/

namespace Runbook.Utf8

variable {b b₁ b₂ b₃ b₄ : UInt8} {bs rest : List UInt8} {c : Char} {s t : Text} {low high : UInt8} {left value n : Nat}

/-! ### One octet -/

theorem lead_one (h : b.toNat < 0x80) : lead b = .char (Char.ofNat b.toNat) := by
  simp [lead, UInt8.lt_iff_toNat_lt, h]

theorem lead_two (h : 0xC2 ≤ b.toNat) (h' : b.toNat < 0xE0) : lead b = .more ⟨1, 0x80, 0xBF, b.toNat - 0xC0⟩ := by
  have h₁ : ¬ b.toNat < 0x80 := by omega
  have h₂ : ¬ b.toNat < 0xC2 := by omega
  simp [lead, UInt8.lt_iff_toNat_lt, h₁, h₂, h']

theorem lead_three (h : 0xE0 ≤ b.toNat) (h' : b.toNat < 0xF0) :
    lead b = .more ⟨2, if b = 0xE0 then 0xA0 else 0x80, if b = 0xED then 0x9F else 0xBF, b.toNat - 0xE0⟩ := by
  have h₁ : ¬ b.toNat < 0x80 := by omega
  have h₂ : ¬ b.toNat < 0xC2 := by omega
  have h₃ : ¬ b.toNat < 0xE0 := by omega
  by_cases h0 : b = 0xE0
  · subst h0
    rfl
  · by_cases hd : b = 0xED
    · subst hd
      rfl
    · simp [lead, UInt8.lt_iff_toNat_lt, h₁, h₂, h₃, h0, hd, h']

theorem lead_four (h : 0xF0 ≤ b.toNat) (h' : b.toNat < 0xF5) :
    lead b = .more ⟨3, if b = 0xF0 then 0x90 else 0x80, if b = 0xF4 then 0x8F else 0xBF, b.toNat - 0xF0⟩ := by
  have h₁ : ¬ b.toNat < 0x80 := by omega
  have h₂ : ¬ b.toNat < 0xC2 := by omega
  have h₃ : ¬ b.toNat < 0xE0 := by omega
  have h₄ : ¬ b.toNat < 0xF0 := by omega
  have hne₀ : b ≠ 0xE0 := by rintro rfl; exact absurd h (by decide)
  have hne₁ : b ≠ 0xED := by rintro rfl; exact absurd h (by decide)
  by_cases h0 : b = 0xF0
  · subst h0
    rfl
  · by_cases hd : b = 0xF4
    · subst hd
      rfl
    · have hlt : b.toNat < 0xF4 := by
        have : b.toNat ≠ 0xF4 := fun e => hd (UInt8.toNat_inj.mp e)
        omega
      simp [lead, UInt8.lt_iff_toNat_lt, h₁, h₂, h₃, h₄, h0, hd, hne₀, hne₁, hlt]

theorem lead_bad (h : 0x80 ≤ b.toNat ∧ b.toNat < 0xC2 ∨ 0xF5 ≤ b.toNat) : lead b = .bad := by
  have h₁ : ¬ b.toNat < 0x80 := by omega
  by_cases h₂ : b.toNat < 0xC2
  · simp [lead, UInt8.lt_iff_toNat_lt, h₁, h₂]
  · have h₃ : ¬ b.toNat < 0xE0 := by omega
    have h₄ : ¬ b.toNat < 0xF0 := by omega
    have h₅ : ¬ b.toNat < 0xF4 := by omega
    have hne₀ : b ≠ 0xE0 := by rintro rfl; exact absurd h (by decide)
    have hne₁ : b ≠ 0xED := by rintro rfl; exact absurd h (by decide)
    have hne₂ : b ≠ 0xF0 := by rintro rfl; exact absurd h (by decide)
    have hne₃ : b ≠ 0xF4 := by rintro rfl; exact absurd h (by decide)
    simp [lead, UInt8.lt_iff_toNat_lt, h₁, h₂, h₃, h₄, h₅, hne₀, hne₁, hne₂, hne₃]

theorem follow_last (hlow : low.toNat ≤ b.toNat) (hhigh : b.toNat ≤ high.toNat) :
    Pending.follow ⟨1, low, high, value⟩ b = .char (Char.ofNat (value * 64 + (b.toNat - 0x80))) := by
  simp [Pending.follow, UInt8.le_iff_toNat_le, hlow, hhigh]

theorem follow_more (hlow : low.toNat ≤ b.toNat) (hhigh : b.toNat ≤ high.toNat) (hleft : 1 < left) :
    Pending.follow ⟨left, low, high, value⟩ b = .more ⟨left - 1, 0x80, 0xBF, value * 64 + (b.toNat - 0x80)⟩ := by
  have h : ¬ left ≤ 1 := by omega
  simp [Pending.follow, UInt8.le_iff_toNat_le, hlow, hhigh, h]

/-- The last octet of a sequence, if its second one is behind. -/
theorem follow_tail (h : 0x80 ≤ b.toNat) (h' : b.toNat ≤ 0xBF) :
    Pending.follow ⟨1, 0x80, 0xBF, value⟩ b = .char (Char.ofNat (value * 64 + (b.toNat - 0x80))) := follow_last h h'

/-- The octets between the second one of a sequence and the last. -/
theorem follow_middle (h : 0x80 ≤ b.toNat) (h' : b.toNat ≤ 0xBF) (hleft : 1 < left) :
    Pending.follow ⟨left, 0x80, 0xBF, value⟩ b = .more ⟨left - 1, 0x80, 0xBF, value * 64 + (b.toNat - 0x80)⟩ :=
  follow_more h h' hleft

theorem follow_bad (h : ¬ (low.toNat ≤ b.toNat ∧ b.toNat ≤ high.toNat)) :
    Pending.follow ⟨left, low, high, value⟩ b = .bad := by
  simp only [Pending.follow, UInt8.le_iff_toNat_le, Bool.and_eq_true, decide_eq_true_eq, if_neg h]

/-! ### Encodings -/

theorem ofNat_toNat (h : n < 256) : (UInt8.ofNat n).toNat = n := by
  simp [Nat.mod_eq_of_lt h]

theorem toNat_charOfNat (h : n.isValidChar) : (Char.ofNat n).toNat = n := by
  rw [Char.ofNat, dif_pos h]
  rfl

theorem encodeChar_one (h : c.toNat < 0x80) : String.utf8EncodeChar c = [UInt8.ofNat c.toNat] := by
  have h₁ : c.val.toNat ≤ 0x7f := Nat.le_of_lt_succ h
  simp only [String.utf8EncodeChar, if_pos h₁]
  rfl

theorem encodeChar_two (h : 0x80 ≤ c.toNat) (h' : c.toNat < 0x800) :
    String.utf8EncodeChar c = [UInt8.ofNat (c.toNat / 64 + 0xC0), UInt8.ofNat (c.toNat % 64 + 0x80)] := by
  have hv : c.val.toNat = c.toNat := rfl
  have h₁ : ¬ c.toNat ≤ 0x7f := by omega
  have h₂ : c.toNat ≤ 0x7ff := by omega
  have hmod : c.toNat / 64 % 0x20 = c.toNat / 64 := Nat.mod_eq_of_lt (by omega)
  simp only [String.utf8EncodeChar, hv, if_neg h₁, if_pos h₂, hmod]

theorem encodeChar_three (h : 0x800 ≤ c.toNat) (h' : c.toNat < 0x10000) :
    String.utf8EncodeChar c = [UInt8.ofNat (c.toNat / 4096 + 0xE0), UInt8.ofNat (c.toNat / 64 % 64 + 0x80),
      UInt8.ofNat (c.toNat % 64 + 0x80)] := by
  have hv : c.val.toNat = c.toNat := rfl
  have h₁ : ¬ c.toNat ≤ 0x7f := by omega
  have h₂ : ¬ c.toNat ≤ 0x7ff := by omega
  have h₃ : c.toNat ≤ 0xffff := by omega
  have hmod : c.toNat / 4096 % 0x10 = c.toNat / 4096 := Nat.mod_eq_of_lt (by omega)
  simp only [String.utf8EncodeChar, hv, if_neg h₁, if_neg h₂, if_pos h₃, hmod]

theorem toNat_lt_max (c : Char) : c.toNat < 0x110000 := by
  rcases c.valid with h | h
  · exact Nat.lt_trans h (by decide)
  · exact h.2

theorem encodeChar_four (h : 0x10000 ≤ c.toNat) :
    String.utf8EncodeChar c = [UInt8.ofNat (c.toNat / 262144 + 0xF0), UInt8.ofNat (c.toNat / 4096 % 64 + 0x80),
      UInt8.ofNat (c.toNat / 64 % 64 + 0x80), UInt8.ofNat (c.toNat % 64 + 0x80)] := by
  have hv : c.val.toNat = c.toNat := rfl
  have hmax := toNat_lt_max c
  have h₁ : ¬ c.toNat ≤ 0x7f := by omega
  have h₂ : ¬ c.toNat ≤ 0x7ff := by omega
  have h₃ : ¬ c.toNat ≤ 0xffff := by omega
  have hmod : c.toNat / 262144 % 0x08 = c.toNat / 262144 := Nat.mod_eq_of_lt (by omega)
  simp only [String.utf8EncodeChar, hv, if_neg h₁, if_neg h₂, if_neg h₃, hmod]

/-! ### Reading an encoding -/

/-- A value below the surrogates or above them is a character. -/
theorem exists_char (h : n < 0xD800 ∨ 0xDFFF < n ∧ n < 0x110000) : ∃ c : Char, c.toNat = n ∧ Char.ofNat n = c :=
  ⟨Char.ofNat n, toNat_charOfNat h, rfl⟩

theorem decodeFrom_char (h : lead b = .char c) : decodeFrom none (b :: bs) = (c :: ·) <$> decodeFrom none bs := by
  simp only [decodeFrom, h]

theorem decodeFrom_more {p : Pending} (h : lead b = .more p) : decodeFrom none (b :: bs) = decodeFrom (some p) bs := by
  simp only [decodeFrom, h]

theorem decodeFrom_follow_char {p : Pending} (h : p.follow b = .char c) :
    decodeFrom (some p) (b :: bs) = (c :: ·) <$> decodeFrom none bs := by
  simp only [decodeFrom, h]

theorem decodeFrom_follow_more {p q : Pending} (h : p.follow b = .more q) :
    decodeFrom (some p) (b :: bs) = decodeFrom (some q) bs := by
  simp only [decodeFrom, h]

theorem decodeFrom_two (h₁ : 0xC2 ≤ b₁.toNat) (h₁' : b₁.toNat < 0xE0) (h₂ : 0x80 ≤ b₂.toNat) (h₂' : b₂.toNat ≤ 0xBF) :
    decodeFrom none (b₁ :: b₂ :: rest) =
      (Char.ofNat ((b₁.toNat - 0xC0) * 64 + (b₂.toNat - 0x80)) :: ·) <$> decodeFrom none rest := by
  rw [decodeFrom_more (lead_two h₁ h₁'), decodeFrom_follow_char (follow_tail h₂ h₂')]

/-- The range of the second octet of three: no overlong form and no surrogate. -/
def SecondOfThree (b₁ b₂ : UInt8) : Prop :=
  0x80 ≤ b₂.toNat ∧ b₂.toNat ≤ 0xBF ∧ (b₁.toNat = 0xE0 → 0xA0 ≤ b₂.toNat) ∧ (b₁.toNat = 0xED → b₂.toNat ≤ 0x9F)

theorem secondOfThree_iff : SecondOfThree b₁ b₂ ↔
    (if b₁ = 0xE0 then 0xA0 else 0x80 : UInt8).toNat ≤ b₂.toNat ∧
      b₂.toNat ≤ (if b₁ = 0xED then 0x9F else 0xBF : UInt8).toNat := by
  have he : b₁ = 0xE0 ↔ b₁.toNat = 0xE0 := UInt8.toNat_inj.symm
  have hd : b₁ = 0xED ↔ b₁.toNat = 0xED := UInt8.toNat_inj.symm
  rw [SecondOfThree, ← he, ← hd]
  by_cases h₀ : b₁ = 0xE0
  · subst h₀
    simp
    omega
  · by_cases h₁ : b₁ = 0xED
    · subst h₁
      simp
      omega
    · simp [h₀, h₁]

theorem decodeFrom_three (h₁ : 0xE0 ≤ b₁.toNat) (h₁' : b₁.toNat < 0xF0) (h₂ : SecondOfThree b₁ b₂)
    (h₃ : 0x80 ≤ b₃.toNat) (h₃' : b₃.toNat ≤ 0xBF) :
    decodeFrom none (b₁ :: b₂ :: b₃ :: rest) =
      (Char.ofNat (((b₁.toNat - 0xE0) * 64 + (b₂.toNat - 0x80)) * 64 + (b₃.toNat - 0x80)) :: ·) <$>
        decodeFrom none rest := by
  obtain ⟨hlow, hhigh⟩ := secondOfThree_iff.mp h₂
  rw [decodeFrom_more (lead_three h₁ h₁'), decodeFrom_follow_more (follow_more hlow hhigh (by decide)),
    decodeFrom_follow_char (follow_tail h₃ h₃')]

/-- The range of the second octet of four: no overlong form and nothing above U+10FFFF. -/
def SecondOfFour (b₁ b₂ : UInt8) : Prop :=
  0x80 ≤ b₂.toNat ∧ b₂.toNat ≤ 0xBF ∧ (b₁.toNat = 0xF0 → 0x90 ≤ b₂.toNat) ∧ (b₁.toNat = 0xF4 → b₂.toNat ≤ 0x8F)

theorem secondOfFour_iff : SecondOfFour b₁ b₂ ↔
    (if b₁ = 0xF0 then 0x90 else 0x80 : UInt8).toNat ≤ b₂.toNat ∧
      b₂.toNat ≤ (if b₁ = 0xF4 then 0x8F else 0xBF : UInt8).toNat := by
  have he : b₁ = 0xF0 ↔ b₁.toNat = 0xF0 := UInt8.toNat_inj.symm
  have hd : b₁ = 0xF4 ↔ b₁.toNat = 0xF4 := UInt8.toNat_inj.symm
  rw [SecondOfFour, ← he, ← hd]
  by_cases h₀ : b₁ = 0xF0
  · subst h₀
    simp
    omega
  · by_cases h₁ : b₁ = 0xF4
    · subst h₁
      simp
      omega
    · simp [h₀, h₁]

theorem decodeFrom_four (h₁ : 0xF0 ≤ b₁.toNat) (h₁' : b₁.toNat < 0xF5) (h₂ : SecondOfFour b₁ b₂)
    (h₃ : 0x80 ≤ b₃.toNat) (h₃' : b₃.toNat ≤ 0xBF) (h₄ : 0x80 ≤ b₄.toNat) (h₄' : b₄.toNat ≤ 0xBF) :
    decodeFrom none (b₁ :: b₂ :: b₃ :: b₄ :: rest) =
      (Char.ofNat ((((b₁.toNat - 0xF0) * 64 + (b₂.toNat - 0x80)) * 64 + (b₃.toNat - 0x80)) * 64 +
        (b₄.toNat - 0x80)) :: ·) <$> decodeFrom none rest := by
  obtain ⟨hlow, hhigh⟩ := secondOfFour_iff.mp h₂
  rw [decodeFrom_more (lead_four h₁ h₁'), decodeFrom_follow_more (follow_more hlow hhigh (by decide)),
    decodeFrom_follow_more (follow_middle h₃ h₃' (by decide)),
    decodeFrom_follow_char (follow_tail h₄ h₄')]

/-- The decoder reads the encoding of a character and goes on after it. -/
theorem decodeFrom_encodeChar (c : Char) (rest : List UInt8) :
    decodeFrom none (String.utf8EncodeChar c ++ rest) = (c :: ·) <$> decodeFrom none rest := by
  have hmax := toNat_lt_max c
  have hvalid : c.toNat < 0xD800 ∨ 0xDFFF < c.toNat := by
    rcases c.valid with h | h
    · exact Or.inl h
    · exact Or.inr h.1
  by_cases h₁ : c.toNat < 0x80
  · have hn := ofNat_toNat (n := c.toNat) (by omega)
    rw [encodeChar_one h₁, List.singleton_append, decodeFrom_char (lead_one (hn.symm ▸ h₁)), hn, Char.ofNat_toNat]
  by_cases h₂ : c.toNat < 0x800
  · have hn₁ := ofNat_toNat (n := c.toNat / 64 + 0xC0) (by omega)
    have hn₂ := ofNat_toNat (n := c.toNat % 64 + 0x80) (by omega)
    have hv : (c.toNat / 64 + 0xC0 - 0xC0) * 64 + (c.toNat % 64 + 0x80 - 0x80) = c.toNat := by omega
    rw [encodeChar_two (by omega) h₂, List.cons_append, List.singleton_append,
      decodeFrom_two (by omega) (by omega) (by omega) (by omega), hn₁, hn₂, hv, Char.ofNat_toNat]
  by_cases h₃ : c.toNat < 0x10000
  · have hn₁ := ofNat_toNat (n := c.toNat / 4096 + 0xE0) (by omega)
    have hn₂ := ofNat_toNat (n := c.toNat / 64 % 64 + 0x80) (by omega)
    have hn₃ := ofNat_toNat (n := c.toNat % 64 + 0x80) (by omega)
    have hsecond : SecondOfThree (UInt8.ofNat (c.toNat / 4096 + 0xE0)) (UInt8.ofNat (c.toNat / 64 % 64 + 0x80)) := by
      rw [SecondOfThree, hn₁, hn₂]
      omega
    have hv : ((c.toNat / 4096 + 0xE0 - 0xE0) * 64 + (c.toNat / 64 % 64 + 0x80 - 0x80)) * 64 +
        (c.toNat % 64 + 0x80 - 0x80) = c.toNat := by omega
    rw [encodeChar_three (by omega) h₃, List.cons_append, List.cons_append, List.singleton_append,
      decodeFrom_three (by omega) (by omega) hsecond (by omega) (by omega), hn₁, hn₂, hn₃, hv, Char.ofNat_toNat]
  · have hn₁ := ofNat_toNat (n := c.toNat / 262144 + 0xF0) (by omega)
    have hn₂ := ofNat_toNat (n := c.toNat / 4096 % 64 + 0x80) (by omega)
    have hn₃ := ofNat_toNat (n := c.toNat / 64 % 64 + 0x80) (by omega)
    have hn₄ := ofNat_toNat (n := c.toNat % 64 + 0x80) (by omega)
    have hsecond : SecondOfFour (UInt8.ofNat (c.toNat / 262144 + 0xF0)) (UInt8.ofNat (c.toNat / 4096 % 64 + 0x80)) := by
      rw [SecondOfFour, hn₁, hn₂]
      omega
    have hv : (((c.toNat / 262144 + 0xF0 - 0xF0) * 64 + (c.toNat / 4096 % 64 + 0x80 - 0x80)) * 64 +
        (c.toNat / 64 % 64 + 0x80 - 0x80)) * 64 + (c.toNat % 64 + 0x80 - 0x80) = c.toNat := by omega
    rw [encodeChar_four (by omega), List.cons_append, List.cons_append, List.cons_append, List.singleton_append,
      decodeFrom_four (by omega) (by omega) hsecond (by omega) (by omega) (by omega) (by omega), hn₁, hn₂, hn₃, hn₄, hv,
      Char.ofNat_toNat]

theorem decode_encode_append (s : Text) (rest : List UInt8) : decode (encode s ++ rest) = (s ++ ·) <$> decode rest := by
  induction s with
  | nil => cases h : decode rest <;> simp [encode, h]
  | cons c s ih =>
    rw [encode, List.flatMap_cons, List.append_assoc, decode, decodeFrom_encodeChar]
    rw [encode, decode] at ih
    rw [ih]
    cases decode rest <;> rfl

theorem decode_encode (s : Text) : decode (encode s) = .ok s := by
  have h := decode_encode_append s []
  simpa [decode, decodeFrom] using h

/-! ### What is read is an encoding -/

theorem ofNat_eq (h : n = b.toNat) : UInt8.ofNat n = b := by
  rw [h, UInt8.ofNat_toNat]

theorem encodeChar_of_two (h₁ : 0xC2 ≤ b₁.toNat) (h₁' : b₁.toNat < 0xE0) (h₂ : 0x80 ≤ b₂.toNat)
    (h₂' : b₂.toNat ≤ 0xBF) :
    String.utf8EncodeChar (Char.ofNat ((b₁.toNat - 0xC0) * 64 + (b₂.toNat - 0x80))) = [b₁, b₂] := by
  obtain ⟨c, hc, hc'⟩ := exists_char (n := (b₁.toNat - 0xC0) * 64 + (b₂.toNat - 0x80)) (by omega)
  rw [hc', encodeChar_two (by omega) (by omega), hc, ofNat_eq (b := b₁) (by omega), ofNat_eq (b := b₂) (by omega)]

theorem encodeChar_of_three (h₁ : 0xE0 ≤ b₁.toNat) (h₁' : b₁.toNat < 0xF0) (h₂ : SecondOfThree b₁ b₂)
    (h₃ : 0x80 ≤ b₃.toNat) (h₃' : b₃.toNat ≤ 0xBF) :
    String.utf8EncodeChar
      (Char.ofNat (((b₁.toNat - 0xE0) * 64 + (b₂.toNat - 0x80)) * 64 + (b₃.toNat - 0x80))) = [b₁, b₂, b₃] := by
  obtain ⟨h₂, h₂', hover, hsurrogate⟩ := h₂
  obtain ⟨c, hc, hc'⟩ :=
    exists_char (n := ((b₁.toNat - 0xE0) * 64 + (b₂.toNat - 0x80)) * 64 + (b₃.toNat - 0x80)) (by omega)
  rw [hc', encodeChar_three (by omega) (by omega), hc, ofNat_eq (b := b₁) (by omega), ofNat_eq (b := b₂) (by omega),
    ofNat_eq (b := b₃) (by omega)]

theorem encodeChar_of_four (h₁ : 0xF0 ≤ b₁.toNat) (h₁' : b₁.toNat < 0xF5) (h₂ : SecondOfFour b₁ b₂)
    (h₃ : 0x80 ≤ b₃.toNat) (h₃' : b₃.toNat ≤ 0xBF) (h₄ : 0x80 ≤ b₄.toNat) (h₄' : b₄.toNat ≤ 0xBF) :
    String.utf8EncodeChar (Char.ofNat ((((b₁.toNat - 0xF0) * 64 + (b₂.toNat - 0x80)) * 64 + (b₃.toNat - 0x80)) * 64 +
      (b₄.toNat - 0x80))) = [b₁, b₂, b₃, b₄] := by
  obtain ⟨h₂, h₂', hover, hmax⟩ := h₂
  obtain ⟨c, hc, hc'⟩ := exists_char
    (n := (((b₁.toNat - 0xF0) * 64 + (b₂.toNat - 0x80)) * 64 + (b₃.toNat - 0x80)) * 64 + (b₄.toNat - 0x80)) (by omega)
  rw [hc', encodeChar_four (by omega), hc, ofNat_eq (b := b₁) (by omega), ofNat_eq (b := b₂) (by omega),
    ofNat_eq (b := b₃) (by omega), ofNat_eq (b := b₄) (by omega)]

theorem map_cons_eq_ok {x : Except Flaw Text} (h : (c :: ·) <$> x = .ok s) : ∃ t, x = .ok t ∧ s = c :: t := by
  cases x with
  | error e => cases h
  | ok t => exact ⟨t, rfl, (Except.ok.inj h).symm⟩

theorem decodeFrom_bad (h : lead b = .bad) : decodeFrom none (b :: bs) = .error .invalidStart := by
  simp only [decodeFrom, h]

theorem decodeFrom_follow_bad {p : Pending} (h : p.follow b = .bad) :
    decodeFrom (some p) (b :: bs) = .error .invalidContinuation := by
  simp only [decodeFrom, h]

/-- An octet that continues a sequence lies in its range. -/
theorem range_of_decodeFrom (h : decodeFrom (some ⟨left, low, high, value⟩) bs = .ok s) :
    ∃ b rest, bs = b :: rest ∧ low.toNat ≤ b.toNat ∧ b.toNat ≤ high.toNat := by
  cases bs with
  | nil => cases h
  | cons b rest =>
    by_cases hr : low.toNat ≤ b.toNat ∧ b.toNat ≤ high.toNat
    · exact ⟨b, rest, rfl, hr⟩
    · rw [decodeFrom_follow_bad (follow_bad hr)] at h
      cases h

/-- What the decoder reads as a character is the encoding of that character. -/
theorem decodeFrom_ok_cons (h : decodeFrom none (b :: bs) = .ok s) :
    ∃ c t rest, s = c :: t ∧ b :: bs = String.utf8EncodeChar c ++ rest ∧ decodeFrom none rest = .ok t := by
  -- The first octet decides how many there are.
  have hlt := b.toNat_lt
  by_cases h₁ : b.toNat < 0x80
  · rw [decodeFrom_char (lead_one h₁)] at h
    obtain ⟨t, ht, rfl⟩ := map_cons_eq_ok h
    obtain ⟨c, hc, hc'⟩ := exists_char (n := b.toNat) (by omega)
    refine ⟨_, t, bs, rfl, ?_, ht⟩
    rw [hc', encodeChar_one (hc ▸ h₁), ofNat_eq hc, List.singleton_append]
  by_cases hbad : b.toNat < 0xC2 ∨ 0xF5 ≤ b.toNat
  · rw [decodeFrom_bad (lead_bad (by omega))] at h
    cases h
  by_cases h₂ : b.toNat < 0xE0
  · rw [decodeFrom_more (lead_two (by omega) h₂)] at h
    obtain ⟨b₂, rest, rfl, hlow, hhigh⟩ := range_of_decodeFrom h
    rw [← decodeFrom_more (lead_two (by omega) h₂), decodeFrom_two (by omega) h₂ hlow hhigh] at h
    obtain ⟨t, ht, rfl⟩ := map_cons_eq_ok h
    exact ⟨_, t, rest, rfl, by rw [encodeChar_of_two (by omega) h₂ hlow hhigh]; rfl, ht⟩
  by_cases h₃ : b.toNat < 0xF0
  · have hlead := lead_three (b := b) (by omega) h₃
    rw [decodeFrom_more hlead] at h
    obtain ⟨b₂, rest, rfl, hlow, hhigh⟩ := range_of_decodeFrom h
    have hsecond := secondOfThree_iff.mpr ⟨hlow, hhigh⟩
    rw [decodeFrom_follow_more (follow_more hlow hhigh (by decide))] at h
    obtain ⟨b₃, rest, rfl, hlow₃, hhigh₃⟩ := range_of_decodeFrom h
    rw [← decodeFrom_follow_more (follow_more hlow hhigh (by decide)), ← decodeFrom_more hlead,
      decodeFrom_three (by omega) h₃ hsecond hlow₃ hhigh₃] at h
    obtain ⟨t, ht, rfl⟩ := map_cons_eq_ok h
    exact ⟨_, t, rest, rfl, by rw [encodeChar_of_three (by omega) h₃ hsecond hlow₃ hhigh₃]; rfl, ht⟩
  · have hlead := lead_four (b := b) (by omega) (by omega)
    rw [decodeFrom_more hlead] at h
    obtain ⟨b₂, rest, rfl, hlow, hhigh⟩ := range_of_decodeFrom h
    have hsecond := secondOfFour_iff.mpr ⟨hlow, hhigh⟩
    rw [decodeFrom_follow_more (follow_more hlow hhigh (by decide))] at h
    obtain ⟨b₃, rest, rfl, hlow₃, hhigh₃⟩ := range_of_decodeFrom h
    rw [decodeFrom_follow_more (follow_more hlow₃ hhigh₃ (by decide))] at h
    obtain ⟨b₄, rest, rfl, hlow₄, hhigh₄⟩ := range_of_decodeFrom h
    rw [← decodeFrom_follow_more (follow_more hlow₃ hhigh₃ (by decide)),
      ← decodeFrom_follow_more (follow_more hlow hhigh (by decide)), ← decodeFrom_more hlead,
      decodeFrom_four (by omega) (by omega) hsecond hlow₃ hhigh₃ hlow₄ hhigh₄] at h
    obtain ⟨t, ht, rfl⟩ := map_cons_eq_ok h
    exact ⟨_, t, rest, rfl,
      by rw [encodeChar_of_four (by omega) (by omega) hsecond hlow₃ hhigh₃ hlow₄ hhigh₄]; rfl, ht⟩

theorem encode_of_decodeFrom (h : decodeFrom none bs = .ok s) : encode s = bs := by
  induction s generalizing bs with
  | nil =>
    cases bs with
    | nil => rfl
    | cons b bs =>
      obtain ⟨c, t, rest, hs, -, -⟩ := decodeFrom_ok_cons h
      cases hs
  | cons c s ih =>
    cases bs with
    | nil => cases h
    | cons b bs =>
      obtain ⟨d, t, rest, hs, hbs, ht⟩ := decodeFrom_ok_cons h
      obtain ⟨rfl, rfl⟩ := List.cons.inj hs
      rw [hbs, encode, List.flatMap_cons, ← encode, ih ht]

/-- The strict decoder takes exactly the encodings. -/
theorem decode_eq_ok_iff : decode bs = .ok s ↔ encode s = bs :=
  ⟨encode_of_decodeFrom, fun h => h ▸ decode_encode s⟩

end Runbook.Utf8
