import LedgerLoad.Arithmetic

/-! # Histograms of three digits

A histogram counts values in classes that are narrow enough to keep three digits of a value: each
value below 2048 is a class of its own, and from there on the width doubles with every power of
two. A rank is answered with the highest value of the class in which the running count reaches
it. -/

namespace LedgerLoad

/-- Counts of classes, each under its lowest value, in ascending order. -/
structure Histogram where
  classes : List (Nat × Nat)

namespace Histogram

/-- The greatest value there is. -/
def greatest : Nat := 2 ^ 64 - 1

/-- The width of the class of a value, as a power of two: none beyond the eleventh binary digit. -/
def widthBits (value : Nat) : Nat := if value < 2048 then 0 else Nat.log2 value + 1 - 11

/-- The lowest value of the class of a value. -/
def lowest (value : Nat) : Nat := value / 2 ^ widthBits value * 2 ^ widthBits value

/-- The highest value of the class of a value; the topmost class ends one below the greatest. -/
def highest (value : Nat) : Nat := min (lowest value + 2 ^ widthBits value) greatest - 1

/-- The histogram of no values. -/
def empty : Histogram := ⟨[]⟩

/-- Counts a class once more. -/
def countClass (low : Nat) : List (Nat × Nat) → List (Nat × Nat)
  | [] => [(low, 1)]
  | (l, n) :: rest =>
    if low < l then (low, 1) :: (l, n) :: rest
    else if l < low then (l, n) :: countClass low rest
    else (l, n + 1) :: rest

/-- Counts a value. -/
def record (h : Histogram) (value : Nat) : Histogram := ⟨countClass (lowest value) h.classes⟩

/-- The histogram of a list of values. -/
def ofList (values : List Nat) : Histogram := values.foldl record empty

/-- The lowest value of the first class whose running count reaches a rank. -/
def reach (rank : Nat) : (counted : Nat) → List (Nat × Nat) → Option Nat
  | _, [] => none
  | counted, (low, n) :: rest =>
    if rank ≤ counted + n then some low else reach rank (counted + n) rest

/-- The value reported for a rank, zero for a rank beyond all values. -/
def atRank (h : Histogram) (rank : Nat) : Nat :=
  match reach rank 0 h.classes with
  | some low => highest low
  | none => 0

/-- The value reported for the very bottom: the lowest of the first class. -/
def bottom (h : Histogram) : Nat := (reach 1 0 h.classes).getD 0

end Histogram

end LedgerLoad
