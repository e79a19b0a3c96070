import LedgerLoad.Decimal.Plain

/-! # Spans of time

A span is a whole number of nanoseconds. Whole spans go up to `2 ^ 64 - 1` seconds and the
nanoseconds below the next second; a computation that leaves this range says so. -/

namespace LedgerLoad

/-- A span of time, or a moment as the span since a fixed zero. -/
structure Duration where
  nanos : Nat
deriving DecidableEq, Repr, Inhabited

namespace Duration

/-- The nanoseconds of a second. -/
def second : Nat := 1000000000

/-- The longest span there is. -/
def longest : Duration := ⟨2 ^ 64 * second - 1⟩

def zero : Duration := ⟨0⟩

def ofSeconds (n : Nat) : Duration := ⟨n * second⟩

def ofMillis (n : Nat) : Duration := ⟨n * 1000000⟩

def ofMicros (n : Nat) : Duration := ⟨n * 1000⟩

/-- The whole seconds of a span. -/
def seconds (d : Duration) : Nat := d.nanos / second

/-- The nanoseconds beyond the whole seconds. -/
def subsecond (d : Duration) : Nat := d.nanos % second

/-- The whole milliseconds of a span. -/
def millis (d : Duration) : Nat := d.nanos / 1000000

/-- The whole microseconds of a span. -/
def micros (d : Duration) : Nat := d.nanos / 1000

instance : LE Duration := ⟨fun a b => a.nanos ≤ b.nanos⟩

instance : LT Duration := ⟨fun a b => a.nanos < b.nanos⟩

instance (a b : Duration) : Decidable (a ≤ b) := inferInstanceAs (Decidable (a.nanos ≤ b.nanos))

instance (a b : Duration) : Decidable (a < b) := inferInstanceAs (Decidable (a.nanos < b.nanos))

instance : Add Duration := ⟨fun a b => ⟨a.nanos + b.nanos⟩⟩

/-- The span from `a` to `b` on the clock, none if `a` is the later one. -/
def since (b a : Duration) : Duration := ⟨b.nanos - a.nanos⟩

/-- The later of two moments. -/
def latest (a b : Duration) : Duration := ⟨max a.nanos b.nanos⟩

/-- The first moment of a whole millisecond that is not before this one. -/
def roundUp (d : Duration) : Duration := ⟨(d.nanos + 999999) / 1000000 * 1000000⟩

/-- The sum, if it is a span. -/
def add? (a b : Duration) : Option Duration :=
  if a.nanos + b.nanos ≤ longest.nanos then some (a + b) else none

/-- The span in seconds: the whole seconds and the share of a second are rounded each. -/
def toSeconds (d : Duration) : Float :=
  Float.ofNat d.seconds + Float.ofNat d.subsecond / 1e9

/-- The span of a number of seconds to the nearest nanosecond, a half going to the even one. A
negative number, one too large and what is no number has none. -/
def ofSeconds? (x : Float) : Option Duration :=
  match Decimal.Parts.of x with
  | .finite negative mantissa exponent =>
    if negative ∧ mantissa ≠ 0 then none
    else
      let (num, den) := Decimal.scaled mantissa exponent 9
      let nanos := Decimal.roundHalfEven num den
      if nanos ≤ longest.nanos then some ⟨nanos⟩ else none
  | _ => none

end Duration

end LedgerLoad
