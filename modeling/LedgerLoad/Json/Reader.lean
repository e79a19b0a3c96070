import LedgerLoad.Bytes.Utf8
import LedgerLoad.Data.Reading
import LedgerLoad.Json.Numeral

/-! # Reading JSON

The reader turns octets into a datum. Where the text is no JSON the datum breaks off; a number that
is too large, a text with half of a surrogate pair and a text that is not UTF-8 are unreadable but
can be passed over. Behind the value only white space may follow, which `decode` checks after the
value has been read as what it is meant to be. -/

namespace LedgerLoad.Json

/-- Drops the white space at the head of a text. -/
def skipBlank : Bytes → Bytes
  | [] => []
  | b :: rest =>
    if b = 0x20 || b = 0x09 || b = 0x0a || b = 0x0d then skipBlank rest else b :: rest

/-! ### Texts -/

/-- The number of four hexadecimal digits. -/
def hex4? (a b c d : UInt8) : Option Nat := do
  let value := fun (x : UInt8) =>
    if 0x30 ≤ x && x ≤ 0x39 then some (x.toNat - 0x30)
    else if 0x61 ≤ x && x ≤ 0x66 then some (x.toNat - 0x57)
    else if 0x41 ≤ x && x ≤ 0x46 then some (x.toNat - 0x37)
    else none
  return (((← value a) * 16 + (← value b)) * 16 + (← value c)) * 16 + (← value d)

/-- The octet that a short escape stands for. -/
def shortEscape? (b : UInt8) : Option UInt8 :=
  if b = 0x22 || b = 0x5c || b = 0x2f then some b
  else if b = 0x62 then some 0x08
  else if b = 0x66 then some 0x0c
  else if b = 0x6e then some 0x0a
  else if b = 0x72 then some 0x0d
  else if b = 0x74 then some 0x09
  else none

/-- The first half of a surrogate pair. -/
def isHighSurrogate (n : Nat) : Bool := 0xd800 ≤ n && n ≤ 0xdbff

/-- The second half of a surrogate pair. -/
def isLowSurrogate (n : Nat) : Bool := 0xdc00 ≤ n && n ≤ 0xdfff

/-- Octets put before the content of a text, if it has one. -/
def prepend (octets : Bytes) (t : Option (Option Bytes × Bytes)) : Option (Option Bytes × Bytes) :=
  t.map fun (content, rest) => (content.map (octets ++ ·), rest)

/-- Takes the content of a text away. -/
def spoil (t : Option (Option Bytes × Bytes)) : Option (Option Bytes × Bytes) :=
  t.map fun (_, rest) => (none, rest)

/-- Reads the octets of a text up to its closing quote; there is no content if half a surrogate
pair stands alone. -/
def content : Bytes → Option (Option Bytes × Bytes)
  | [] => none
  | 0x22 :: rest => some (some [], rest)
  | 0x5c :: 0x75 :: a :: b :: c :: d :: rest =>
    match hex4? a b c d with
    | none => none
    | some n =>
      if isHighSurrogate n then
        match rest with
        | 0x5c :: 0x75 :: e :: f :: g :: h :: rest' =>
          match hex4? e f g h with
          | none => none
          | some m =>
            if isLowSurrogate m then
              let code := 0x10000 + (n - 0xd800) * 0x400 + (m - 0xdc00)
              prepend (String.utf8EncodeChar (Char.ofNat code)) (content rest')
            else spoil (content rest')
        | rest => spoil (content rest)
      else if isLowSurrogate n then spoil (content rest)
      else prepend (String.utf8EncodeChar (Char.ofNat n)) (content rest)
  | 0x5c :: e :: rest =>
    match shortEscape? e with
    | some b => prepend [b] (content rest)
    | none => none
  | b :: rest => if b < 0x20 || b = 0x5c then none else prepend [b] (content rest)

/-- Reads a text behind its opening quote. -/
def textAt (text : Bytes) : Option (Option String × Bytes) :=
  (content text).map fun (octets, rest) => (octets.bind Utf8.decode?, rest)

/-! ### Values -/

/-- A word that a text must begin with. -/
def word (expected : List UInt8) (d : Datum) (text : Bytes) : Datum × Option Bytes :=
  if text.take expected.length = expected then (d, some (text.drop expected.length))
  else (.broken, none)

/-- Reads a text or a number, which need no further values. -/
def scalar : Bytes → Datum × Option Bytes
  | [] => (.broken, none)
  | b :: rest =>
    if b = 0x22 then
      match textAt rest with
      | some (some s, rest) => (.text s, some rest)
      | some (none, rest) => (.unreadable, some rest)
      | none => (.broken, none)
    else if b = 0x6e then word [0x75, 0x6c, 0x6c] .null rest
    else if b = 0x74 then word [0x72, 0x75, 0x65] (.bool true) rest
    else if b = 0x66 then word [0x61, 0x6c, 0x73, 0x65] (.bool false) rest
    else match Numeral.split (b :: rest) with
      | some (n, rest) => (n.datum, some rest)
      | none => (.broken, none)

mutual

/-- Reads a value at the head of a text, and gives what follows unless the text breaks off. Each
step spends one unit of `fuel`. -/
def value : (fuel : Nat) → Bytes → Datum × Option Bytes
  | 0, _ => (.broken, none)
  | fuel + 1, text =>
    match skipBlank text with
    | 0x5b :: rest =>
      match skipBlank rest with
      | 0x5d :: rest => (.list .closed, some rest)
      | rest => let (xs, after) := items fuel rest; (.list xs, after)
    | 0x7b :: rest =>
      match skipBlank rest with
      | 0x7d :: rest => (.table .closed, some rest)
      | rest => let (es, after) := entries fuel rest; (.table es, after)
    | rest => scalar rest

/-- Reads an item and the rest of its list. -/
def items : (fuel : Nat) → Bytes → Items × Option Bytes
  | 0, _ => (.broken, none)
  | fuel + 1, text =>
    match value fuel text with
    | (d, none) => (.cons d .broken, none)
    | (d, some rest) =>
      match skipBlank rest with
      | 0x2c :: rest => let (ds, after) := items fuel rest; (.cons d ds, after)
      | 0x5d :: rest => (.cons d .closed, some rest)
      | _ => (.cons d .broken, none)

/-- Reads an entry and the rest of its table. -/
def entries : (fuel : Nat) → Bytes → Entries × Option Bytes
  | 0, _ => (.broken, none)
  | fuel + 1, text =>
    match skipBlank text with
    | 0x22 :: rest =>
      match textAt rest with
      | none => (.broken, none)
      | some (key, rest) =>
        match skipBlank rest with
        | 0x3a :: rest =>
          match value fuel rest with
          | (d, none) => (.cons key d .broken, none)
          | (d, some rest) =>
            match skipBlank rest with
            | 0x2c :: rest => let (es, after) := entries fuel rest; (.cons key d es, after)
            | 0x7d :: rest => (.cons key d .closed, some rest)
            | _ => (.cons key d .broken, none)
        | _ => (.cons key .broken .broken, none)
    | _ => (.broken, none)

end

/-- A text read as one value. -/
structure Reading where
  datum : Datum
  /-- Whether nothing but white space follows the value. -/
  clean : Bool

/-- Reads a text as one value; two units of fuel for each octet are enough. -/
def read (text : Bytes) : Reading :=
  match value (2 * text.length + 2) text with
  | (d, some rest) => ⟨d, (skipBlank rest).isEmpty⟩
  | (d, none) => ⟨d, false⟩

/-- Reads a text as what a reader of data makes of its value. -/
def decode {α : Type} (reader : Datum → Except DataFault α) (text : Bytes) :
    Except DataFault α := do
  let reading := read text
  let x ← reader reading.datum
  if reading.clean then return x else throw .malformed

end LedgerLoad.Json
