/-! # Data as a reader meets them

A datum is what a text of data says, before anyone knows what it is meant to be. A text may stop
making sense half way; then the datum ends there, and everything before the end is still in place.
So a reader that walks a datum from left to right meets the first fault of the text, of whatever
kind, first. -/

namespace LedgerLoad

mutual

/-- A value. -/
inductive Datum
  | null
  | bool (b : Bool)
  | int (i : Int)
  | float (x : Float)
  | text (s : String)
  | list (items : Items)
  | table (entries : Entries)
  /-- Something with a place in the text that can be passed over but not read. -/
  | unreadable
  /-- Here the text stops making sense. -/
  | broken

/-- The items of a list, up to its end or to where the text breaks off. -/
inductive Items
  | closed
  | broken
  | cons (head : Datum) (tail : Items)

/-- The entries of a table, up to its end or to where the text breaks off. A key that cannot be
read is none. -/
inductive Entries
  | closed
  | broken
  | cons (key : Option String) (value : Datum) (tail : Entries)

end

/-- The items up to the end of a list, or to where the text breaks off. -/
def Items.toList : Items → List Datum
  | .cons head tail => head :: tail.toList
  | _ => []

/-- The entries whose key can be read, up to the end of a table or to where the text breaks off. -/
def Entries.toList : Entries → List (String × Datum)
  | .cons (some key) value tail => (key, value) :: tail.toList
  | .cons none _ tail => tail.toList
  | _ => []

/-- A whole list of items. -/
def Items.ofList : List Datum → Items
  | [] => .closed
  | d :: ds => .cons d (ofList ds)

/-- A whole table. -/
def Entries.ofList : List (String × Datum) → Entries
  | [] => .closed
  | (key, value) :: rest => .cons (some key) value (ofList rest)

namespace Datum

/-- A list of data. -/
def ofItems (items : List Datum) : Datum := .list (.ofList items)

/-- A table of data. -/
def ofEntries (entries : List (String × Datum)) : Datum := .table (.ofList entries)

/-- A natural number as a datum. -/
def ofNat (n : Nat) : Datum := .int (Int.ofNat n)

end Datum

end LedgerLoad
