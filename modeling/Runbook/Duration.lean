import Runbook.Text

/-! # Durations

How long something took, in seconds, as an exact fraction, and its text with three decimals. A fraction half way
between two of these texts goes to the even one. -/

namespace Runbook

/-- A number of seconds, `numerator / (divisor + 1)`, below zero if so marked. -/
structure Duration where
  below : Bool
  numerator : Nat
  divisor : Nat
deriving DecidableEq, Repr

namespace Duration

/-- A number of milliseconds. -/
def ofMillis (n : Nat) : Duration := ⟨false, n, 999⟩

/-- The quotient to the nearest whole number, a half to the even one. -/
def nearest (n d : Nat) : Nat :=
  let q := n / d
  let r := n % d
  if 2 * r < d then q
  else if d < 2 * r then q + 1
  else if q % 2 = 0 then q else q + 1

/-- Whole thousandths with the decimal point before the last three digits. -/
def showThousandths (n : Nat) : Text :=
  let digits := Text.ofNat (n % 1000)
  Text.ofNat (n / 1000) ++ "." ++ List.replicate (3 - digits.length) '0' ++ digits

/-- Seconds with three decimals. -/
def render (d : Duration) : Text :=
  (if d.below then "-" else "") ++ showThousandths (nearest (d.numerator * 1000) (d.divisor + 1))

end Duration

end Runbook
