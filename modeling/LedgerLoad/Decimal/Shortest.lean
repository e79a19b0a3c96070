import LedgerLoad.Decimal.Parts

/-! # Shortest digits

The fewest decimal digits that read back as the same double, and of those the ones nearest to it.
The doubles next to a number bound an interval of reals that round to it; the first decimal grid
with a point in the interval gives the digits, and one of the two grid points around the number is
always among the nearest. -/

namespace LedgerLoad.Decimal

/-- A decimal number: `digits * 10 ^ exponent`. -/
structure Digits where
  digits : Nat
  exponent : Int
deriving Repr, DecidableEq

/-- What becomes of a number halfway between two candidates. -/
inductive Tie
  /-- The candidate with the even last digit. -/
  | toEven
  /-- The larger candidate. -/
  | up
deriving Repr, DecidableEq

/-- The number of decimal digits, none for zero. -/
def digitCount (n : Nat) : Nat := if n = 0 then 0 else (Nat.toDigits 10 n).length

/-- The power of ten of the first digit of `num / den`, both positive. -/
def leadingPower (num den : Nat) : Int :=
  if den ≤ num then Int.ofNat (digitCount (num / den)) - 1
  else -Int.ofNat (digitCount ((den - 1) / num))

/-- Removes zeros from the end of the digits; at most `fuel` of them. -/
def Digits.trim (fuel : Nat) (d : Digits) : Digits :=
  match fuel with
  | 0 => d
  | fuel + 1 =>
    if d.digits ≠ 0 ∧ d.digits % 10 = 0 then trim fuel ⟨d.digits / 10, d.exponent + 1⟩ else d

/-- The reals that round to a double, in units of a quarter of its last place. -/
structure Interval where
  low : Nat
  value : Nat
  high : Nat
  /-- Whether the ends round to the double too. -/
  closed : Bool
  /-- The power of two of the unit. -/
  unit : Int
deriving Repr

/-- The interval of the positive double `mantissa * 2 ^ exponent`. Below a power of two the
neighbour is half as far away. -/
def Interval.of (mantissa : Nat) (exponent : Int) : Interval :=
  let below := if mantissa = 2 ^ 52 ∧ exponent ≠ -1074 then 1 else 2
  { low := 4 * mantissa - below
    value := 4 * mantissa
    high := 4 * mantissa + 2
    closed := mantissa % 2 = 0
    unit := exponent - 2 }

/-- The point of the grid `10 ^ power` nearest to the value, if it rounds to the double. -/
def Interval.onGrid (i : Interval) (tie : Tie) (power : Int) : Option Nat :=
  let (num, den) := scaled i.value i.unit (-power)
  let factor := (scaled 1 i.unit (-power)).1
  let inside := fun point =>
    let p := point * den
    if i.closed then i.low * factor ≤ p && p ≤ i.high * factor
    else i.low * factor < p && p < i.high * factor
  let down := num / den
  let up := down + 1
  let rest := num % den
  match inside down, inside up with
  | false, false => none
  | true, false => some down
  | false, true => some up
  | true, true =>
    if 2 * rest < den then some down
    else if den < 2 * rest then some up
    else match tie with
      | .up => some up
      | .toEven => some (if down % 2 = 0 then down else up)

/-- Tries grids of one digit, two digits and so on. -/
def Interval.search (i : Interval) (tie : Tie) (top : Int) : (more tried : Nat) → Digits
  | 0, _ => ⟨0, 0⟩
  | more + 1, tried =>
    let power := top - tried
    match i.onGrid tie power with
    | some digits => ⟨digits, power⟩
    | none => search i tie top more (tried + 1)

/-- The shortest digits of `mantissa * 2 ^ exponent`; seventeen always suffice. -/
def shortest (tie : Tie) (mantissa : Nat) (exponent : Int) : Digits :=
  if mantissa = 0 then ⟨0, 0⟩
  else
    let i := Interval.of mantissa exponent
    let (num, den) := scaled i.value i.unit 0
    (i.search tie (leadingPower num den) 17 0).trim 17

end LedgerLoad.Decimal
