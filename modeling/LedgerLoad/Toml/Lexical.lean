import LedgerLoad.Data.Datum
import LedgerLoad.Decimal.Written

/-! # Words of TOML

Strings, keys, numbers and dates at the head of a text. Each reader gives what it read and the rest
of the text, or nothing. -/

namespace LedgerLoad.Toml

/-- A reader of something at the head of a text. -/
abbrev Reader (α : Type) := List Char → Option (α × List Char)

/-! ### Space and comments -/

/-- Drops blanks and tabs. -/
def skipSpace : List Char → List Char
  | c :: rest => if c = ' ' || c = '\t' then skipSpace rest else c :: rest
  | [] => []

/-- The rest behind a line end, which is a line feed with or without a carriage return. -/
def newline? : List Char → Option (List Char)
  | '\n' :: rest => some rest
  | '\r' :: '\n' :: rest => some rest
  | _ => none

/-- Whether a character may stand in a comment or a string: a tab or no control. -/
def isPlain (c : Char) : Bool := c = '\t' || (0x20 ≤ c.toNat && c.toNat ≠ 0x7f)

/-- Drops a comment up to the end of its line, if there is one. -/
def skipComment : List Char → List Char
  | '#' :: rest => rest.dropWhile isPlain
  | text => text

/-- The rest behind the end of a line, with a comment before it; the end of the text will do. -/
def endLine? (text : List Char) : Option (List Char) :=
  match skipComment (skipSpace text) with
  | [] => some []
  | text => newline? text

/-- Drops space, comments and line ends; at most `fuel` lines. -/
def skipLines : (fuel : Nat) → List Char → List Char
  | 0, text => text
  | fuel + 1, text =>
    match skipSpace text with
    | '#' :: rest =>
      match newline? (rest.dropWhile isPlain) with
      | some rest => skipLines fuel rest
      | none => '#' :: rest
    | text =>
      match newline? text with
      | some rest => skipLines fuel rest
      | none => text

/-! ### Strings -/

/-- The number of a hexadecimal digit. -/
def hexValue? (c : Char) : Option Nat :=
  if '0' ≤ c && c ≤ '9' then some (c.toNat - 48)
  else if 'a' ≤ c && c ≤ 'f' then some (c.toNat - 87)
  else if 'A' ≤ c && c ≤ 'F' then some (c.toNat - 55)
  else none

/-- The character of `n` hexadecimal digits. -/
def scalar : (n code : Nat) → Reader Char
  | 0, code, text =>
    if code.isValidChar then some (Char.ofNat code, text) else none
  | n + 1, code, c :: rest => do scalar n (code * 16 + (← hexValue? c)) rest
  | _ + 1, _, [] => none

/-- The character of an escape behind its backslash. -/
def escape : Reader Char
  | 'b' :: rest => some ('\x08', rest)
  | 't' :: rest => some ('\t', rest)
  | 'n' :: rest => some ('\n', rest)
  | 'f' :: rest => some ('\x0c', rest)
  | 'r' :: rest => some ('\r', rest)
  | '"' :: rest => some ('"', rest)
  | '\\' :: rest => some ('\\', rest)
  | 'u' :: rest => scalar 4 0 rest
  | 'U' :: rest => scalar 8 0 rest
  | _ => none

/-- A character put before the string that follows. -/
def consChar (c : Char) (r : Option (List Char × List Char)) : Option (List Char × List Char) :=
  r.map fun (cs, rest) => (c :: cs, rest)

/-- The rest of a string in double quotes; the fuel is the length of the text. -/
def basicString : (fuel : Nat) → Reader (List Char)
  | 0, _ => none
  | fuel + 1, text =>
    match text with
    | '"' :: rest => some ([], rest)
    | '\\' :: rest => do
      let (c, rest) ← escape rest
      consChar c (basicString fuel rest)
    | c :: rest => if isPlain c then consChar c (basicString fuel rest) else none
    | [] => none

/-- The rest of a string in single quotes, in which nothing is escaped. -/
def literalString : Reader (List Char)
  | '\'' :: rest => some ([], rest)
  | c :: rest => if isPlain c then consChar c (literalString rest) else none
  | [] => none

/-- Drops blanks and line ends, at most `fuel` of them. -/
def skipGap : (fuel : Nat) → List Char → List Char
  | 0, text => text
  | fuel + 1, text =>
    match newline? text with
    | some rest => skipGap fuel rest
    | none =>
      match text with
      | c :: rest => if c = ' ' || c = '\t' then skipGap fuel rest else text
      | [] => []

/-- The end of a string of several lines: three quotes, and up to two more that belong to it. -/
def closing (quote : Char) (text : List Char) : Option (List Char × List Char) :=
  let n := (text.takeWhile (· = quote)).length
  if n < 3 then none
  else if n ≤ 5 then some (List.replicate (n - 3) quote, text.drop n)
  else some (List.replicate 2 quote, text.drop 5)

/-- The rest of a string of several lines in double quotes. A backslash at the end of a line joins
it with the next text. -/
def basicLines : (fuel : Nat) → Reader (List Char)
  | 0, _ => none
  | fuel + 1, text =>
    match closing '"' text with
    | some found => some found
    | none =>
      match newline? text with
      | some rest => consChar '\n' (basicLines fuel rest)
      | none =>
        match text with
        | '\\' :: rest =>
          match newline? (skipSpace rest) with
          | some rest => basicLines fuel (skipGap rest.length rest)
          | none => do
            let (c, rest) ← escape rest
            consChar c (basicLines fuel rest)
        | c :: rest => if isPlain c then consChar c (basicLines fuel rest) else none
        | [] => none

/-- The rest of a string of several lines in single quotes. -/
def literalLines : (fuel : Nat) → Reader (List Char)
  | 0, _ => none
  | fuel + 1, text =>
    match closing '\'' text with
    | some found => some found
    | none =>
      match newline? text with
      | some rest => consChar '\n' (literalLines fuel rest)
      | none =>
        match text with
        | c :: rest => if isPlain c then consChar c (literalLines fuel rest) else none
        | [] => none

/-- Drops the line end right behind an opening of three quotes. -/
def dropFirstLine (text : List Char) : List Char := (newline? text).getD text

/-- A string of any of the four forms. -/
def string (text : List Char) : Option (String × List Char) :=
  let fuel := text.length + 1
  let found := match text with
    | '"' :: '"' :: '"' :: rest => basicLines fuel (dropFirstLine rest)
    | '"' :: rest => basicString fuel rest
    | '\'' :: '\'' :: '\'' :: rest => literalLines fuel (dropFirstLine rest)
    | '\'' :: rest => literalString rest
    | _ => none
  found.map fun (cs, rest) => (String.ofList cs, rest)

/-! ### Keys -/

/-- Whether a character may stand in a key without quotes. -/
def isBare (c : Char) : Bool :=
  ('a' ≤ c && c ≤ 'z') || ('A' ≤ c && c ≤ 'Z') || ('0' ≤ c && c ≤ '9') || c = '_' || c = '-'

/-- One part of a key. -/
def simpleKey (text : List Char) : Option (String × List Char) :=
  match text with
  | '"' :: rest => (basicString (text.length + 1) rest).map fun (cs, rest) => (String.ofList cs, rest)
  | '\'' :: rest => (literalString rest).map fun (cs, rest) => (String.ofList cs, rest)
  | _ =>
    let key := text.takeWhile isBare
    if key.isEmpty then none else some (String.ofList key, text.dropWhile isBare)

/-- A key of parts with points between them; at most `fuel` parts. -/
def keyParts : (fuel : Nat) → Reader (List String)
  | 0, _ => none
  | fuel + 1, text => do
    let (part, rest) ← simpleKey (skipSpace text)
    match skipSpace rest with
    | '.' :: rest => do
      let (parts, rest) ← keyParts fuel rest
      return (part :: parts, rest)
    | rest => return ([part], rest)

/-- A key, of fewer than eighty parts. -/
def key (text : List Char) : Option (List String × List Char) := keyParts 79 text

/-! ### Numbers -/

/-- Digits of a kind with single underscores between them, the first digit being given. -/
def moreDigits (isDigit : Char → Bool) : List Char → Option (List Char × List Char)
  | '_' :: c :: rest =>
    if isDigit c then consChar c (moreDigits isDigit rest) else none
  | c :: rest =>
    if isDigit c then consChar c (moreDigits isDigit rest)
    else if c = '_' then none
    else some ([], c :: rest)
  | [] => some ([], [])

/-- Digits of a kind with single underscores between them. -/
def digitRun (isDigit : Char → Bool) : Reader (List Char)
  | c :: rest => if isDigit c then consChar c (moreDigits isDigit rest) else none
  | [] => none

def isDecimal (c : Char) : Bool := '0' ≤ c && c ≤ '9'

/-- The number of a list of digits. -/
def number (base : Nat) (digits : List Char) : Nat :=
  digits.foldl (fun n c => n * base + (hexValue? c).getD 0) 0

/-- A sign, if there is one; the answer is whether it is a minus. -/
def sign : List Char → Bool × List Char
  | '+' :: rest => (false, rest)
  | '-' :: rest => (true, rest)
  | text => (false, text)

/-- Whole decimal digits: a lone zero, or digits that do not begin with one. -/
def wholeDigits : Reader (List Char)
  | '0' :: rest => some (['0'], rest)
  | text => digitRun isDecimal text

/-- An integer with its sign, if it fits into 64 bits. -/
def signedInt (negative : Bool) (n : Nat) : Option Datum :=
  if negative then
    if n ≤ 2 ^ 63 then some (.int (-Int.ofNat n)) else none
  else if n < 2 ^ 63 then some (.int (Int.ofNat n))
  else none

/-- An integer in a base other than ten, behind its mark. -/
def based (base : Nat) (isDigit : Char → Bool) (text : List Char) :
    Option (Datum × List Char) := do
  let (digits, rest) ← digitRun isDigit text
  let d ← signedInt false (number base digits)
  return (d, rest)

/-- An integer. -/
def integer (text : List Char) : Option (Datum × List Char) :=
  match text with
  | '0' :: 'x' :: rest => based 16 (fun c => (hexValue? c).isSome) rest
  | '0' :: 'o' :: rest => based 8 (fun c => '0' ≤ c && c ≤ '7') rest
  | '0' :: 'b' :: rest => based 2 (fun c => c = '0' || c = '1') rest
  | _ => do
    let (negative, rest) := sign text
    let (digits, rest) ← wholeDigits rest
    let d ← signedInt negative (number 10 digits)
    return (d, rest)

/-- A double with its sign. -/
def signedFloat (negative : Bool) (x : Float) : Float := if negative then -x else x

/-- An exponent, if the text begins with one. -/
def exponent : List Char → Option (Option Int × List Char)
  | c :: rest =>
    if c = 'e' || c = 'E' then do
      let (negative, rest) := sign rest
      let (digits, rest) ← digitRun isDecimal rest
      let n := Int.ofNat (number 10 digits)
      return (some (if negative then -n else n), rest)
    else some (none, c :: rest)
  | [] => some (none, [])

/-- A double with decimals, an exponent or both. One that is too large is refused, unless it is
negative. -/
def decimal (text : List Char) : Option (Datum × List Char) := do
  let (negative, rest) := sign text
  let (whole, rest) ← wholeDigits rest
  let (decimals, rest) ← match rest with
    | '.' :: rest => (digitRun isDecimal rest).map fun (ds, rest) => (some ds, rest)
    | rest => some (none, rest)
  let (exp, rest) ← exponent rest
  if decimals.isNone && exp.isNone then none
  else
    let fraction := decimals.getD []
    let x := Decimal.nearest (number 10 (whole ++ fraction))
      (exp.getD 0 - Int.ofNat fraction.length)
    if x.isInf && !negative then none else some (.float (signedFloat negative x), rest)

/-- Infinity or what is no number, by name. -/
def named (text : List Char) : Option (Datum × List Char) :=
  let (negative, rest) := sign text
  match rest with
  | 'i' :: 'n' :: 'f' :: rest => some (.float (signedFloat negative (1.0 / 0.0)), rest)
  | 'n' :: 'a' :: 'n' :: rest => some (.float (0.0 / 0.0), rest)
  | _ => none

/-! ### Dates and times -/

/-- A number of exactly `n` digits. -/
def fixedDigits (n : Nat) (text : List Char) : Option (Nat × List Char) :=
  let digits := text.take n
  if digits.length = n && digits.all isDecimal then some (number 10 digits, text.drop n) else none

/-- A character that must come next. -/
def expect (c : Char) : List Char → Option (List Char)
  | d :: rest => if c = d then some rest else none
  | [] => none

/-- The days of a month. -/
def daysIn (year month : Nat) : Nat :=
  if month = 2 then
    if year % 4 = 0 ∧ (year % 100 ≠ 0 ∨ year % 400 = 0) then 29 else 28
  else if month = 4 ∨ month = 6 ∨ month = 9 ∨ month = 11 then 30
  else 31

/-- A number with leading zeros. -/
def padded (width n : Nat) : List Char :=
  let digits := Nat.toDigits 10 n
  List.replicate (width - digits.length) '0' ++ digits

/-- A date of the calendar. -/
def date (text : List Char) : Option (List Char × List Char) := do
  let (year, rest) ← fixedDigits 4 text
  let rest ← expect '-' rest
  let (month, rest) ← fixedDigits 2 rest
  let rest ← expect '-' rest
  let (day, rest) ← fixedDigits 2 rest
  if 1 ≤ month ∧ month ≤ 12 ∧ 1 ≤ day ∧ day ≤ daysIn year month then
    some (padded 4 year ++ '-' :: (padded 2 month ++ '-' :: padded 2 day), rest)
  else none

/-- Decimals of a second, nine of which count and zeros at the end do not. -/
def secondDecimals (text : List Char) : Option (List Char × List Char) :=
  match text with
  | '.' :: rest =>
    let digits := rest.takeWhile isDecimal
    if digits.isEmpty then none
    else
      let kept := ((digits.take 9).reverse.dropWhile (· = '0')).reverse
      some (if kept.isEmpty then [] else '.' :: kept, rest.dropWhile isDecimal)
  | _ => some ([], text)

/-- An hour and a minute. -/
def hourMinute (text : List Char) : Option (List Char × List Char) := do
  let (hour, rest) ← fixedDigits 2 text
  let rest ← expect ':' rest
  let (minute, rest) ← fixedDigits 2 rest
  if hour ≤ 23 ∧ minute ≤ 59 then some (padded 2 hour ++ ':' :: padded 2 minute, rest) else none

/-- A time of day; a minute may have a sixty-first second. -/
def time (text : List Char) : Option (List Char × List Char) := do
  let (start, rest) ← hourMinute text
  let rest ← expect ':' rest
  let (second, rest) ← fixedDigits 2 rest
  if 60 < second then none
  else
    let (decimals, rest) ← secondDecimals rest
    some (start ++ ':' :: (padded 2 second ++ decimals), rest)

/-- An offset with its sign; an offset of nothing has a plus. -/
def signedOffset (sign : Char) (t : List Char) : List Char :=
  (if t = ['0', '0', ':', '0', '0'] then '+' else sign) :: t

/-- The offset of a time zone, if the text begins with one. -/
def offset : List Char → Option (List Char × List Char)
  | 'Z' :: rest => some (['Z'], rest)
  | 'z' :: rest => some (['Z'], rest)
  | '+' :: rest => (hourMinute rest).map fun (t, rest) => (signedOffset '+' t, rest)
  | '-' :: rest => (hourMinute rest).map fun (t, rest) => (signedOffset '-' t, rest)
  | text => some ([], text)

/-- A time of day behind a date, with its offset. -/
def timeBehindDate (text : List Char) : Option (List Char × List Char) :=
  match text with
  | c :: rest =>
    if c = 'T' || c = 't' || c = ' ' then do
      let (t, rest) ← time rest
      let (o, rest) ← offset rest
      return ('T' :: (t ++ o), rest)
    else none
  | [] => none

/-- A date, a time, or both, as a text. -/
def moment (text : List Char) : Option (String × List Char) :=
  match date text with
  | some (d, rest) =>
    match timeBehindDate rest with
    | some (t, rest) => some (String.ofList (d ++ t), rest)
    | none => some (String.ofList d, rest)
  | none => (time text).map fun (t, rest) => (String.ofList t, rest)

/-- A date or time is a table of one entry, under a key that no document means. -/
def momentDatum (text : String) : Datum :=
  .ofEntries [("$__toml_private_datetime", .text text)]

end LedgerLoad.Toml
