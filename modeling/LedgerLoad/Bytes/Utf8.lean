import LedgerLoad.Bytes

/-! # UTF-8

Reading a text from octets. An octet string that is no text is refused at the first character that
cannot be completed: either octets that can begin no character, or an end inside a character. -/

namespace LedgerLoad.Utf8

/-- Why octets are no text. Indices count octets from the start. -/
inductive Fault
  /-- From `index` on, `width` octets can begin no character. -/
  | invalid (width index : Nat)
  /-- The octets end inside the character that begins at `index`. -/
  | incomplete (index : Nat)
deriving Repr, DecidableEq

/-- The words that report a fault. -/
def Fault.message : Fault → String
  | .invalid width index => s!"invalid utf-8 sequence of {width} bytes from index {index}"
  | .incomplete index => s!"incomplete utf-8 byte sequence from index {index}"

/-- The octets of a text. -/
def encode (s : String) : Bytes := s.toList.flatMap String.utf8EncodeChar

/-- Whether an octet continues a character. -/
def continues (b : UInt8) : Bool := 0x80 ≤ b && b ≤ 0xBF

/-- The octets that may follow the first octet of a character of three octets. -/
def secondOfThree (lead second : UInt8) : Bool :=
  if lead = 0xE0 then 0xA0 ≤ second && second ≤ 0xBF
  else if lead = 0xED then 0x80 ≤ second && second ≤ 0x9F
  else continues second

/-- The octets that may follow the first octet of a character of four octets. -/
def secondOfFour (lead second : UInt8) : Bool :=
  if lead = 0xF0 then 0x90 ≤ second && second ≤ 0xBF
  else if lead = 0xF4 then 0x80 ≤ second && second ≤ 0x8F
  else continues second

/-- The six payload bits of a continuing octet behind the bits read so far. -/
def shiftIn (bits : Nat) (b : UInt8) : Nat := bits * 64 + b.toNat % 64

/-- Reads characters from octets of which the first stands at `index`. -/
def decodeAt (index : Nat) : Bytes → Except Fault (List Char)
  | [] => .ok []
  | a :: rest =>
    if a < 0x80 then (decodeAt (index + 1) rest).map (Char.ofNat a.toNat :: ·)
    else if 0xC2 ≤ a && a ≤ 0xDF then
      match rest with
      | [] => .error (.incomplete index)
      | b :: rest =>
        if continues b then
          (decodeAt (index + 2) rest).map (Char.ofNat (shiftIn (a.toNat % 32) b) :: ·)
        else .error (.invalid 1 index)
    else if 0xE0 ≤ a && a ≤ 0xEF then
      match rest with
      | [] => .error (.incomplete index)
      | [b] => .error (if secondOfThree a b then .incomplete index else .invalid 1 index)
      | b :: c :: rest =>
        if !secondOfThree a b then .error (.invalid 1 index)
        else if !continues c then .error (.invalid 2 index)
        else
          (decodeAt (index + 3) rest).map
            (Char.ofNat (shiftIn (shiftIn (a.toNat % 16) b) c) :: ·)
    else if 0xF0 ≤ a && a ≤ 0xF4 then
      match rest with
      | [] => .error (.incomplete index)
      | [b] => .error (if secondOfFour a b then .incomplete index else .invalid 1 index)
      | [b, c] =>
        .error (if !secondOfFour a b then .invalid 1 index
          else if !continues c then .invalid 2 index else .incomplete index)
      | b :: c :: d :: rest =>
        if !secondOfFour a b then .error (.invalid 1 index)
        else if !continues c then .error (.invalid 2 index)
        else if !continues d then .error (.invalid 3 index)
        else
          (decodeAt (index + 4) rest).map
            (Char.ofNat (shiftIn (shiftIn (shiftIn (a.toNat % 8) b) c) d) :: ·)
    else .error (.invalid 1 index)

/-- The text that octets spell. -/
def decode (bs : Bytes) : Except Fault String := (decodeAt 0 bs).map String.ofList

/-- The text that octets spell, if they spell one. -/
def decode? (bs : Bytes) : Option String := (decode bs).toOption

end LedgerLoad.Utf8
