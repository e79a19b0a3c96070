import LedgerLoad.Bytes
import LedgerLoad.Data.Datum

/-! # Numbers in JSON text

A numeral is an optional minus sign, whole digits without leading zeros, and optionally decimals
and an exponent. A numeral without decimals and exponent is an integer if it fits into 64 bits;
minus zero and everything else is a double. For a double the digits go into a word of 64 bits as
long as they fit, and the word is scaled once by a power of ten. -/

namespace LedgerLoad.Json

/-- The parts of a numeral, digits as numbers below ten. -/
structure Numeral where
  negative : Bool
  whole : List Nat
  /-- The decimals behind the point, if there is a point. -/
  decimals : Option (List Nat)
  /-- The exponent, with whether it is negative. -/
  exponent : Option (Bool × List Nat)

/-- The digit that an octet writes. -/
def digit? (b : UInt8) : Option Nat := if 0x30 ≤ b && b ≤ 0x39 then some (b.toNat - 0x30) else none

/-- The digits at the head of a text, and what follows them. -/
def digits : Bytes → List Nat × Bytes
  | [] => ([], [])
  | b :: rest =>
    match digit? b with
    | some d => let (ds, rest) := digits rest; (d :: ds, rest)
    | none => ([], b :: rest)

namespace Numeral

/-- The whole digits at the head of a text: a lone zero, or digits that do not begin with one. -/
def wholeDigits (text : Bytes) : Option (List Nat × Bytes) :=
  match digits text with
  | ([], _) => none
  | (0 :: _ :: _, _) => none
  | result => some result

/-- The decimals at the head of a text, if it begins with a point. -/
def decimalDigits : Bytes → Option (Option (List Nat) × Bytes)
  | 0x2e :: rest =>
    match digits rest with
    | ([], _) => none
    | (ds, rest) => some (some ds, rest)
  | text => some (none, text)

/-- The exponent at the head of a text, if it begins with an `e` of either case. -/
def exponentDigits : Bytes → Option (Option (Bool × List Nat) × Bytes)
  | [] => some (none, [])
  | b :: rest =>
    if b = 0x65 || b = 0x45 then
      let (negative, rest) := match rest with
        | 0x2b :: rest => (false, rest)
        | 0x2d :: rest => (true, rest)
        | rest => (false, rest)
      match digits rest with
      | ([], _) => none
      | (ds, rest) => some (some (negative, ds), rest)
    else some (none, b :: rest)

/-- Splits a numeral off a text. -/
def split (text : Bytes) : Option (Numeral × Bytes) := do
  let (negative, text) := match text with
    | 0x2d :: rest => (true, rest)
    | text => (false, text)
  let (whole, text) ← wholeDigits text
  let (decimals, text) ← decimalDigits text
  let (exponent, text) ← exponentDigits text
  return (⟨negative, whole, decimals, exponent⟩, text)

/-! ### Values -/

/-- Digits taken into a word of 64 bits. -/
structure Word where
  value : Nat
  /-- A digit did not fit; no further digit is taken. -/
  full : Bool
  /-- How many digits were taken, and how many left out. -/
  taken : Nat
  left : Nat

/-- Takes one more digit. -/
def Word.push (w : Word) (digit : Nat) : Word :=
  let value := w.value * 10 + digit
  if w.full || 2 ^ 64 ≤ value then { w with full := true, left := w.left + 1 }
  else { w with value, taken := w.taken + 1 }

/-- Takes digits behind a word. -/
def Word.append (value : Nat) (digits : List Nat) : Word := digits.foldl Word.push ⟨value, false, 0, 0⟩

/-- The power of ten as the nearest double. -/
def power (n : Nat) : Float := Float.ofScientific 1 false n

/-- A double divided by a power of ten, in steps of `10 ^ 308` as long as the power is larger. -/
def scaleDown : (steps : Nat) → Float → Nat → Float
  | 0, x, _ => x
  | steps + 1, x, n =>
    if n ≤ 308 then x / power n
    else if x == 0 then x
    else scaleDown steps (x / power 308) (n - 308)

/-- A word times a power of ten, if that is finite. -/
def scale (word : Nat) (exponent : Int) : Option Float :=
  let x := Float.ofNat word
  match exponent with
  | .ofNat n =>
    if n ≤ 308 then
      let y := x * power n
      if y.isInf then none else some y
    else if x == 0 then some x
    else none
  | .negSucc n => some (scaleDown 4 x (n + 1))

/-- The number of a list of digits. -/
def ofDigits (ds : List Nat) : Nat := ds.foldl (fun n d => n * 10 + d) 0

/-- The double a numeral stands for, if it is not too large; an exponent beyond 31 bits makes zero
or is too large. -/
def toFloat (n : Numeral) : Option Float :=
  let whole := Word.append 0 n.whole
  let word := Word.append whole.value (n.decimals.getD [])
  let exponent : Int := Int.ofNat whole.left - Int.ofNat word.taken
  let magnitude := match n.exponent with
    | none => scale word.value exponent
    | some (negative, ds) =>
      let e := ofDigits ds
      if e < 2 ^ 31 then scale word.value (if negative then exponent - e else exponent + e)
      else if word.value ≠ 0 && !negative then none
      else some 0
  magnitude.map fun x => if n.negative then -x else x

/-- The datum a numeral stands for. -/
def datum (n : Numeral) : Datum :=
  let value := ofDigits n.whole
  let integral := n.decimals.isNone && n.exponent.isNone
  if integral && !n.negative && value < 2 ^ 64 then .int (Int.ofNat value)
  else if integral && n.negative && 0 < value && value ≤ 2 ^ 63 then .int (-Int.ofNat value)
  else match n.toFloat with
    | some x => .float x
    | none => .unreadable

end Numeral

end LedgerLoad.Json
