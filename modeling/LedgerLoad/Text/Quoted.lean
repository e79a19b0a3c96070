import LedgerLoad.Text.Visible

/-! # Quoted text

A text inside a message stands between quotes, with everything that is not visible written as an
escape: tab, line feed, carriage return and NUL by a letter or digit, any other character by its
number in braces. Only the kind of quote that encloses the text is escaped inside it. -/

namespace LedgerLoad.Text

/-- The lower-case hexadecimal digits of a number, without leading zeros. -/
def hexDigits (n : Nat) : List Char := Nat.toDigits 16 n

/-- One character as it stands between two `quote` characters. -/
def quotedChar (quote c : Char) : List Char :=
  if c = '\t' then ['\\', 't']
  else if c = '\n' then ['\\', 'n']
  else if c = '\r' then ['\\', 'r']
  else if c.toNat = 0 then ['\\', '0']
  else if c = '\\' then ['\\', '\\']
  else if c = quote then ['\\', c]
  else if isVisible c then [c]
  else '\\' :: 'u' :: '\x7b' :: (hexDigits c.toNat ++ ['\x7d'])

/-- A text between double quotes. -/
def quoted (s : String) : String :=
  String.ofList ('"' :: (s.toList.flatMap (quotedChar '"') ++ ['"']))

/-- A character between single quotes. -/
def quotedLetter (c : Char) : String :=
  String.ofList ('\'' :: (quotedChar '\'' c ++ ['\'']))

end LedgerLoad.Text
