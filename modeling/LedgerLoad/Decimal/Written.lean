import LedgerLoad.Decimal.Shortest

/-! # Written decimals

The double nearest to a written decimal. Numbers far out of the range of doubles are told by the
place of their first digit, so that no power of ten grows beyond need. -/

namespace LedgerLoad.Decimal

/-- The double nearest to `digits * 10 ^ exponent`; infinity above the range of doubles. -/
def nearest (digits : Nat) (exponent : Int) : Float :=
  let top := Int.ofNat (digitCount digits) + exponent
  if digits = 0 then 0
  else if 320 < top then 1.0 / 0.0
  else if top < -350 then 0
  else match exponent with
    | .ofNat n => Float.ofScientific digits false n
    | .negSucc n => Float.ofScientific digits true (n + 1)

end LedgerLoad.Decimal
