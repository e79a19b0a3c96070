import LedgerLoad.Decimal.Shortest

/-! # Plain decimal text

How messages and reports show a double: never with an exponent. In a message it has its shortest
digits and no more; in a report a fixed number of places, a half going to the even neighbour. -/

namespace LedgerLoad.Decimal

/-- Digits with a point `places` from the right, or zeros behind them when `places` is negative. -/
def pointed (digits : Nat) (places : Int) : String :=
  let text := Nat.toDigits 10 digits
  if places ≤ 0 then String.ofList (text ++ List.replicate (-places).toNat '0')
  else
    let places := places.toNat
    let padded := List.replicate (places + 1 - text.length) '0' ++ text
    let whole := padded.length - places
    String.ofList (padded.take whole ++ '.' :: padded.drop whole)

/-- A text with a minus sign if asked for. -/
def signed (negative : Bool) (text : String) : String := if negative then "-" ++ text else text

/-- A double in a message: shortest digits, a tie going up, no point in a whole number. -/
def plain (x : Float) : String :=
  match Parts.of x with
  | .notANumber => "NaN"
  | .infinite negative => signed negative "inf"
  | .finite negative mantissa exponent =>
    let d := shortest .up mantissa exponent
    signed negative (pointed d.digits (if d.digits = 0 then 0 else -d.exponent))

/-- The natural number nearest to `num / den`, a half going to the even one. -/
def roundHalfEven (num den : Nat) : Nat :=
  let down := num / den
  let rest := num % den
  if 2 * rest < den then down
  else if den < 2 * rest then down + 1
  else if down % 2 = 0 then down else down + 1

/-- A double with a fixed number of places. -/
def fixed (places : Nat) (x : Float) : String :=
  match Parts.of x with
  | .notANumber => "NaN"
  | .infinite negative => signed negative "inf"
  | .finite negative mantissa exponent =>
    let (num, den) := scaled mantissa exponent places
    signed negative (pointed (roundHalfEven num den) places)

end LedgerLoad.Decimal
