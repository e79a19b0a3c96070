import LedgerLoad.Arithmetic

/-! # The parts of a binary number

A finite double is a sign and a natural number times a power of two. Everything that prints or
rounds a double starts from these parts and goes on in exact arithmetic on naturals. -/

namespace LedgerLoad.Decimal

/-- What the bits of a double say. -/
inductive Parts
  | notANumber
  | infinite (negative : Bool)
  /-- The number `mantissa * 2 ^ exponent`, with a minus sign if `negative`. -/
  | finite (negative : Bool) (mantissa : Nat) (exponent : Int)
deriving Repr, DecidableEq

/-- Reads sign, exponent and mantissa off the 64 bits. -/
def Parts.ofBits (bits : UInt64) : Parts :=
  let n := bits.toNat
  let negative := 2 ^ 63 ≤ n
  let field := n / 2 ^ 52 % 2048
  let fraction := n % 2 ^ 52
  if field = 2047 then
    if fraction = 0 then .infinite negative else .notANumber
  else if field = 0 then .finite negative fraction (-1074)
  else .finite negative (2 ^ 52 + fraction) (Int.ofNat field - 1075)

/-- The parts of a double. -/
def Parts.of (x : Float) : Parts := .ofBits x.toBits

/-- A power of ten times a power of two as numerator and denominator: `scaled n two ten` is
`n * 2 ^ two * 10 ^ ten`. -/
def scaled (n : Nat) (two ten : Int) : Nat × Nat :=
  (n * 2 ^ two.toNat * 10 ^ ten.toNat, 2 ^ (-two).toNat * 10 ^ (-ten).toNat)

end LedgerLoad.Decimal
