import LedgerLoad.Bytes.Utf8
import LedgerLoad.Text.Quoted

/-! # Hexadecimal text

An octet is two digits, the high one first. Writing uses lower case; reading takes both cases. -/

namespace LedgerLoad.Hex

/-- Why a text is not hexadecimal. -/
inductive Fault
  /-- The number of octets of the text is odd. -/
  | oddLength
  /-- The octet at `index` of the text is no digit. -/
  | invalidDigit (digit : UInt8) (index : Nat)
deriving Repr, DecidableEq

/-- The words that report a fault; an octet is shown as the character of its number. -/
def Fault.message : Fault → String
  | .oddLength => "Odd number of digits"
  | .invalidDigit digit index =>
    s!"Invalid character {Text.quotedLetter (Char.ofNat digit.toNat)} at position {index}"

/-- The digit of a number below 16. -/
def digit (n : UInt8) : UInt8 := if n < 10 then 0x30 + n else 0x57 + n

/-- The number of a digit of either case. -/
def value? (d : UInt8) : Option UInt8 :=
  if 0x30 ≤ d && d ≤ 0x39 then some (d - 0x30)
  else if 0x61 ≤ d && d ≤ 0x66 then some (d - 0x57)
  else if 0x41 ≤ d && d ≤ 0x46 then some (d - 0x37)
  else none

/-- The digits of an octet string, as octets of ASCII. -/
def encode : Bytes → Bytes
  | [] => []
  | b :: bs => digit (b / 16) :: digit (b % 16) :: encode bs

/-- Reads digits of which the first stands at `index`. -/
def decodeAt (index : Nat) : Bytes → Except Fault Bytes
  | high :: low :: rest =>
    match value? high, value? low with
    | none, _ => .error (.invalidDigit high index)
    | some _, none => .error (.invalidDigit low (index + 1))
    | some h, some l => (decodeAt (index + 2) rest).map ((h * 16 + l) :: ·)
  | _ => .ok []

/-- The octets that digits spell; an odd number of digits is refused before any digit is. -/
def decode (text : Bytes) : Except Fault Bytes :=
  if text.length % 2 = 1 then .error .oddLength else decodeAt 0 text

/-- The digits of an octet string, as a text. -/
def text (bs : Bytes) : String :=
  String.ofList ((encode bs).map fun d => Char.ofNat d.toNat)

end LedgerLoad.Hex
