import LedgerLoad.Arithmetic

/-! # Integers in text

An integer of a parameter is ASCII digits behind an optional sign, and must fit into its range. The
digits are taken from left to right, and the first that is none or leads out of the range decides
the fault. -/

namespace LedgerLoad.Text

/-- Why a text is no integer of a range. -/
inductive IntegerFault
  | empty
  | invalidDigit
  | tooLarge
  | tooSmall
deriving DecidableEq, Repr

/-- The words that report a fault. -/
def IntegerFault.message : IntegerFault → String
  | .empty => "cannot parse integer from empty string"
  | .invalidDigit => "invalid digit found in string"
  | .tooLarge => "number too large to fit in target type"
  | .tooSmall => "number too small to fit in target type"

/-- A range of integers, from `lowest` to `highest`. -/
structure IntegerRange where
  lowest : Int
  highest : Int

/-- The unsigned numbers of so many bits. -/
def unsigned (bits : Nat) : IntegerRange := ⟨0, 2 ^ bits - 1⟩

/-- The signed numbers of so many bits. -/
def signed (bits : Nat) : IntegerRange := ⟨-2 ^ (bits - 1), 2 ^ (bits - 1) - 1⟩

/-- Takes digits behind a number of the given sign. -/
def takeDigits (range : IntegerRange) (negative : Bool) :
    Int → List Char → Except IntegerFault Int
  | n, [] => .ok n
  | n, c :: rest =>
    if '0' ≤ c && c ≤ '9' then
      let digit : Int := Int.ofNat (c.toNat - 48)
      let next := if negative then n * 10 - digit else n * 10 + digit
      if next < range.lowest then .error .tooSmall
      else if range.highest < next then .error .tooLarge
      else takeDigits range negative next rest
    else .error .invalidDigit

/-- Reads an integer of a range; only a range with negative numbers has a minus sign. -/
def readInteger (range : IntegerRange) (text : String) : Except IntegerFault Int :=
  match text.toList with
  | [] => .error .empty
  | '+' :: rest =>
    if rest.isEmpty then .error .invalidDigit else takeDigits range false 0 rest
  | '-' :: rest =>
    if rest.isEmpty then .error .invalidDigit
    else if range.lowest < 0 then takeDigits range true 0 rest
    else .error .invalidDigit
  | chars => takeDigits range false 0 chars

/-- Reads an unsigned number of 64 bits. -/
def readWord (text : String) : Except IntegerFault Nat :=
  (readInteger (unsigned 64) text).map Int.toNat

/-- Reads a truth value, of which there are two spellings. -/
def readBool (text : String) : Option Bool :=
  if text = "true" then some true else if text = "false" then some false else none

/-- The words that report a text that is no truth value. -/
def boolFault : String := "provided string was not `true` or `false`"

end LedgerLoad.Text
