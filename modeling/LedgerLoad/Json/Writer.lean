import LedgerLoad.Bytes.Utf8
import LedgerLoad.Data.Datum
import LedgerLoad.Decimal.Plain

/-! # Writing JSON

Data are written without white space, in their own order. In a text only the quote, the backslash
and the controls below the blank are escaped. A double has its shortest digits and always a point or
an exponent; what is not finite is written as null. -/

namespace LedgerLoad.Json

/-- A hexadecimal digit in lower case. -/
def hexDigit (n : Nat) : Char := Char.ofNat (if n < 10 then 0x30 + n else 0x57 + n)

/-- A character inside a text. -/
def escape (c : Char) : List Char :=
  if c = '"' then ['\\', '"']
  else if c = '\\' then ['\\', '\\']
  else if 0x20 ≤ c.toNat then [c]
  else if c.toNat = 0x08 then ['\\', 'b']
  else if c.toNat = 0x0c then ['\\', 'f']
  else if c = '\n' then ['\\', 'n']
  else if c = '\r' then ['\\', 'r']
  else if c = '\t' then ['\\', 't']
  else ['\\', 'u', '0', '0', hexDigit (c.toNat / 16), hexDigit (c.toNat % 16)]

/-- A text between quotes. -/
def writeText (s : String) : List Char := '"' :: (s.toList.flatMap escape ++ ['"'])

/-- An exponent with its sign. -/
def writeExponent (e : Int) : String := if e < 0 then toString e else "+" ++ toString e

/-- The digits of a positive double: with a point from `10 ^ -5` up to below `10 ^ 16`, else with
one digit before the point and an exponent. -/
def writeDigits (d : Decimal.Digits) : String :=
  let text := Nat.toDigits 10 d.digits
  let top := Int.ofNat text.length + d.exponent
  if 0 ≤ d.exponent ∧ top ≤ 16 then Decimal.pointed d.digits (-d.exponent) ++ ".0"
  else if -5 < top ∧ top ≤ 16 then Decimal.pointed d.digits (-d.exponent)
  else
    let mantissa := match text with
      | [] => []
      | [c] => [c]
      | c :: rest => c :: '.' :: rest
    String.ofList (mantissa ++ 'e' :: (writeExponent (top - 1)).toList)

/-- A double; ties between shortest digits go to the even one. -/
def writeFloat (x : Float) : String :=
  match Decimal.Parts.of x with
  | .finite negative mantissa exponent =>
    Decimal.signed negative
      (if mantissa = 0 then "0.0" else writeDigits (Decimal.shortest .toEven mantissa exponent))
  | _ => "null"

mutual

/-- Writes a datum; what cannot be read is written as null. -/
def write : Datum → List Char
  | .null => ['n', 'u', 'l', 'l']
  | .bool true => ['t', 'r', 'u', 'e']
  | .bool false => ['f', 'a', 'l', 's', 'e']
  | .int i => (toString i).toList
  | .float x => (writeFloat x).toList
  | .text s => writeText s
  | .list items => '[' :: writeItems true items
  | .table entries => '\x7b' :: writeEntries true entries
  | .unreadable => ['n', 'u', 'l', 'l']
  | .broken => ['n', 'u', 'l', 'l']

/-- Writes the rest of a list, with a comma before each item but the first. -/
def writeItems (first : Bool) : Items → List Char
  | .cons head tail => (if first then [] else [',']) ++ write head ++ writeItems false tail
  | _ => [']']

/-- Writes the rest of a table. -/
def writeEntries (first : Bool) : Entries → List Char
  | .cons key value tail =>
    (if first then [] else [',']) ++ writeText (key.getD "") ++ ':' :: write value ++
      writeEntries false tail
  | _ => ['\x7d']

end

/-- The JSON text of a datum. -/
def text (d : Datum) : String := String.ofList (write d)

/-- The octets of the JSON text of a datum. -/
def encode (d : Datum) : Bytes := Utf8.encode (text d)

/-! ### Lengths

How long a text will be can be told before it is made. -/

/-- The length of the text of a list, by the lengths of its items: with a comma after each of them
but the last, and the brackets. -/
def listLength (lengths : List Nat) : Nat := max 2 (lengths.foldl (fun sum n => sum + n + 1) 1)

/-- The length of the text of a table with one entry, by the length of its value, if nothing in the
name is escaped. -/
def entryLength (name : String) (value : Nat) : Nat := name.utf8ByteSize + 5 + value

end LedgerLoad.Json
