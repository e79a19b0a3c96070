import LedgerLoad.Time.Duration
import LedgerLoad.Text.Blank

/-! # Written spans of time

A span is written as a sequence of amounts, each a number with a unit: `2h 37min`, `1.5s`. Blanks
may stand anywhere between the characters of a number and around amounts. A fraction must come out
even, in nanoseconds for units up to the minute and in whole seconds for longer ones.

The reader is an automaton that takes one character at a time; `Reading` is its state. -/

namespace LedgerLoad.Written

/-- Why a text is no span. Positions count octets. -/
inductive Fault
  | empty
  | numberExpected (position : Nat)
  | invalidCharacter (position : Nat)
  /-- The text ends in a number, or in a number and a unit of no letters. -/
  | unitNeeded
  | unknownUnit (name : String)
  /-- A number, or the span, leaves its range, or a fraction does not come out even. -/
  | outOfRange
deriving DecidableEq, Repr

/-- The words that report a fault. -/
def Fault.message : Fault → String
  | .empty => "value was empty"
  | .numberExpected position => s!"expected number at {position}"
  | .invalidCharacter position => s!"invalid character at {position}"
  | .unitNeeded => "time unit needed"
  | .unknownUnit name => s!"unknown time unit \"{name}\""
  | .outOfRange => "number is too large"

/-- A unit: so many nanoseconds, or so many whole seconds. -/
inductive Unit
  | nanos (perUnit : Nat)
  | seconds (perUnit : Nat)

/-- The unit of a name. A month is 30.44 days and a year 365.25 days. -/
def unit? (name : String) : Option Unit :=
  if name ∈ ["nanos", "nsec", "ns"] then some (.nanos 1)
  else if name ∈ ["usec", "us", "µs"] then some (.nanos 1000)
  else if name ∈ ["millis", "msec", "ms"] then some (.nanos 1000000)
  else if name ∈ ["seconds", "second", "secs", "sec", "s"] then some (.seconds 1)
  else if name ∈ ["minutes", "minute", "min", "mins", "m"] then some (.seconds 60)
  else if name ∈ ["hours", "hour", "hr", "hrs", "h"] then some (.seconds 3600)
  else if name ∈ ["days", "day", "d"] then some (.seconds 86400)
  else if name ∈ ["weeks", "week", "wk", "wks", "w"] then some (.seconds 604800)
  else if name ∈ ["months", "month", "M"] then some (.seconds 2630016)
  else if name ∈ ["years", "year", "yr", "yrs", "y"] then some (.seconds 31557600)
  else none

/-- The decimal part of a number: `numerator / denominator`. -/
structure Fraction where
  numerator : Nat
  denominator : Nat

/-- Numbers are read as words of 64 bits. -/
def inRange (n : Nat) : Option Nat := if n < 2 ^ 64 then some n else none

/-- A number with one more digit. -/
def appendDigit (n : Nat) (c : Char) : Option Nat := inRange (n * 10 + (c.toNat - 48))

/-- Adds seconds and nanoseconds to a span. -/
def addTo (total : Duration) (seconds nanos : Nat) : Option Duration := do
  let _ ← inRange (total.subsecond + nanos)
  total.add? ⟨seconds * Duration.second + nanos⟩

/-- The whole part of an amount, added to a span. -/
def addWhole (total : Duration) (n : Nat) : Unit → Option Duration
  | .nanos perUnit => do addTo total 0 (← inRange (n * perUnit))
  | .seconds perUnit => do addTo total (← inRange (n * perUnit)) 0

/-- A share of so many parts, if it is a whole number of them. -/
def share (f : Fraction) (parts : Nat) : Option Nat := do
  let product ← inRange (f.numerator * parts)
  if product % f.denominator = 0 then some (product / f.denominator) else none

/-- The decimal part of an amount, added to a span. -/
def addFraction (total : Duration) (f : Fraction) : Unit → Option Duration
  | .nanos perUnit => if perUnit = 1 then none else do addTo total 0 (← share f perUnit)
  | .seconds perUnit =>
    if perUnit ≤ 60 then do addTo total 0 (← share f (perUnit * Duration.second))
    else do addTo total (← share f perUnit) 0

/-- An amount with a unit's name, added to a span. -/
def addAmount (total : Duration) (n : Nat) (fraction : Option Fraction) (name : List Char) :
    Except Fault Duration :=
  if name = [] then .error .unitNeeded
  else match unit? (String.ofList name) with
    | none => .error (.unknownUnit (String.ofList name))
    | some unit =>
      let sum := do
        let total ← addWhole total n unit
        match fraction with
        | none => some total
        | some f => addFraction total f unit
      match sum with
      | some total => .ok total
      | none => .error .outOfRange

/-- Where the reader stands. -/
inductive Phase
  /-- Before a number; the search began at an octet, and `first` if no number came before. -/
  | seek (start : Nat) (first : Bool)
  | whole (n : Nat)
  /-- Behind the decimal point; `blame` is where a number without decimals is at fault. -/
  | decimals (n : Nat) (fraction : Fraction) (blame : Nat)
  /-- In the letters of a unit, kept last one first. -/
  | unit (n : Nat) (fraction : Option Fraction) (letters : List Char)

/-- The reader's state: the span of the amounts read, the phase and the octets taken. -/
structure Reading where
  total : Duration
  phase : Phase
  position : Nat

/-- Whether a character may stand in a unit's name. -/
def isLetter (c : Char) : Bool :=
  ('a' ≤ c && c ≤ 'z') || ('A' ≤ c && c ≤ 'Z') || c = 'µ'

def isDigit (c : Char) : Bool := '0' ≤ c && c ≤ '9'

/-- One more decimal. -/
def Fraction.append (f : Fraction) (c : Char) : Option Fraction := do
  return ⟨← appendDigit f.numerator c, ← inRange (f.denominator * 10)⟩

/-- What a character does to the span and the phase. -/
def Reading.next (r : Reading) (c : Char) : Except Fault (Duration × Phase) :=
  match r.phase with
  | .seek start first =>
    if isDigit c then .ok (r.total, .whole (c.toNat - 48))
    else if Text.isBlank c then .ok (r.total, .seek start first)
    else .error (.numberExpected start)
  | .whole n =>
    if isDigit c then
      match appendDigit n c with
      | some n => .ok (r.total, .whole n)
      | none => .error .outOfRange
    else if Text.isBlank c then .ok (r.total, .whole n)
    else if isLetter c then .ok (r.total, .unit n none [c])
    else if c = '.' then .ok (r.total, .decimals n ⟨0, 1⟩ r.position)
    else .error (.invalidCharacter r.position)
  | .decimals n f blame =>
    if isDigit c then
      match f.append c with
      | some f => .ok (r.total, .decimals n f (r.position + c.utf8Size))
      | none => .error .outOfRange
    else if Text.isBlank c then .ok (r.total, .decimals n f (r.position + c.utf8Size))
    else if isLetter c ∧ f.denominator ≠ 1 then .ok (r.total, .unit n (some f) [c])
    else .error (.invalidCharacter blame)
  | .unit n f letters =>
    if isDigit c then
      (addAmount r.total n f letters.reverse).map (·, .whole (c.toNat - 48))
    else if Text.isBlank c then
      (addAmount r.total n f letters.reverse).map (·, .seek (r.position + c.utf8Size) false)
    else if isLetter c then .ok (r.total, .unit n f (c :: letters))
    else .error (.invalidCharacter r.position)

/-- Takes one character. -/
def Reading.step (r : Reading) (c : Char) : Except Fault Reading :=
  (r.next c).map fun (total, phase) => ⟨total, phase, r.position + c.utf8Size⟩

/-- The span read when the text ends. -/
def Reading.finish (r : Reading) : Except Fault Duration :=
  match r.phase with
  | .seek _ first => if first then .error .empty else .ok r.total
  | .whole n => addAmount r.total n none []
  | .decimals n f blame =>
    if f.denominator = 1 then .error (.invalidCharacter blame)
    else addAmount r.total n (some f) []
  | .unit n f letters => addAmount r.total n f letters.reverse

/-- Reads a written span; a lone `0` needs no unit. -/
def read (text : String) : Except Fault Duration :=
  if text = "0" then .ok .zero
  else do
    let r ← text.toList.foldlM Reading.step ⟨.zero, .seek 0 true, 0⟩
    r.finish

end LedgerLoad.Written
