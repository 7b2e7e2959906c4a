import Runbook.Text

/-! # UTF-8

Decoding octets as UTF-8, in two ways. The strict way stops at the first sequence that is not well formed and says
what is wrong with it; the lenient way puts one U+FFFD for each longest beginning of a sequence that cannot be
continued. Both read the same machine: an octet opens a sequence (`lead`) or continues the one that is open
(`follow`), and the range of the next octet keeps overlong forms, surrogates and values above U+10FFFF out. -/

namespace Runbook.Utf8

/-- What keeps octets from being UTF-8. -/
inductive Flaw
  /-- An octet that opens no sequence stands where one must open. -/
  | invalidStart
  /-- An octet that cannot continue the open sequence stands where it must go on. -/
  | invalidContinuation
  /-- The octets end inside a sequence. -/
  | unexpectedEnd
deriving DecidableEq, Repr

/-- What a flaw is called. -/
def Flaw.reason : Flaw → Text
  | .invalidStart => "invalid start byte"
  | .invalidContinuation => "invalid continuation byte"
  | .unexpectedEnd => "unexpected end of data"

/-- An open sequence: how many octets are still to come, the range of the next one, and the value so far. -/
structure Pending where
  left : Nat
  low : UInt8
  high : UInt8
  value : Nat
deriving DecidableEq, Repr

/-- What an octet leads to. -/
inductive Move
  | char (c : Char)
  | more (p : Pending)
  | bad
deriving DecidableEq, Repr

/-- What an octet does where a sequence must open. -/
def lead (b : UInt8) : Move :=
  if b < 0x80 then .char (Char.ofNat b.toNat)
  else if b < 0xC2 then .bad
  else if b < 0xE0 then .more ⟨1, 0x80, 0xBF, b.toNat - 0xC0⟩
  else if b = 0xE0 then .more ⟨2, 0xA0, 0xBF, 0⟩
  else if b = 0xED then .more ⟨2, 0x80, 0x9F, 0xD⟩
  else if b < 0xF0 then .more ⟨2, 0x80, 0xBF, b.toNat - 0xE0⟩
  else if b = 0xF0 then .more ⟨3, 0x90, 0xBF, 0⟩
  else if b < 0xF4 then .more ⟨3, 0x80, 0xBF, b.toNat - 0xF0⟩
  else if b = 0xF4 then .more ⟨3, 0x80, 0x8F, 4⟩
  else .bad

/-- What an octet does where the open sequence must go on. -/
def Pending.follow (p : Pending) (b : UInt8) : Move :=
  if p.low ≤ b && b ≤ p.high then
    let value := p.value * 64 + (b.toNat - 0x80)
    if p.left ≤ 1 then .char (Char.ofNat value) else .more ⟨p.left - 1, 0x80, 0xBF, value⟩
  else .bad

/-- Decodes what follows, a sequence being open or not. -/
def decodeFrom : Option Pending → List UInt8 → Except Flaw Text
  | none, [] => .ok []
  | some _, [] => .error .unexpectedEnd
  | none, b :: bs =>
    match lead b with
    | .char c => (c :: ·) <$> decodeFrom none bs
    | .more p => decodeFrom (some p) bs
    | .bad => .error .invalidStart
  | some p, b :: bs =>
    match p.follow b with
    | .char c => (c :: ·) <$> decodeFrom none bs
    | .more q => decodeFrom (some q) bs
    | .bad => .error .invalidContinuation

/-- The text the octets encode, or what is wrong with the first sequence that is not well formed. -/
def decode (bs : List UInt8) : Except Flaw Text := decodeFrom none bs

/-- The sign that stands for octets that encode nothing. -/
def replacement : Char := '\uFFFD'

/-- Decodes what follows leniently. -/
def decodeLenientFrom : Option Pending → List UInt8 → Text
  | none, [] => []
  | some _, [] => [replacement]
  | none, b :: bs =>
    match lead b with
    | .char c => c :: decodeLenientFrom none bs
    | .more p => decodeLenientFrom (some p) bs
    | .bad => replacement :: decodeLenientFrom none bs
  | some p, b :: bs =>
    match p.follow b with
    | .char c => c :: decodeLenientFrom none bs
    | .more q => decodeLenientFrom (some q) bs
    | .bad => replacement ::
      match lead b with
      | .char c => c :: decodeLenientFrom none bs
      | .more q => decodeLenientFrom (some q) bs
      | .bad => replacement :: decodeLenientFrom none bs

/-- The text the octets encode, with U+FFFD for each part that encodes nothing. -/
def decodeLenient (bs : List UInt8) : Text := decodeLenientFrom none bs

/-- The octets of a text. -/
def encode (s : Text) : List UInt8 := s.flatMap String.utf8EncodeChar

end Runbook.Utf8
