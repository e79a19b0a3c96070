import LedgerLoad.Dictionary

/-! # How a ledger is reached

What an adapter is told about the ledger: parameters by name, endpoints by group, and on each
machine environment entries and tags. -/

namespace LedgerLoad

/-- Parameters of an adapter, passed on as they are. -/
abbrev Parameters := Dictionary String

/-- Endpoints of the ledger, in named groups. -/
abbrev Endpoints := Dictionary (List String)

/-- All endpoints, group by group in the order of the names. -/
def Endpoints.all (e : Endpoints) : List String := e.values.flatten

/-- Entries of the form `key=value`, or a key alone. -/
structure Environment where
  entries : List String
deriving DecidableEq, Repr

namespace Environment

/-- A text split at its first equals sign. -/
def splitEntry (entry : String) : String × Option String :=
  let chars := entry.toList
  let key := chars.takeWhile (· ≠ '=')
  match chars.dropWhile (· ≠ '=') with
  | [] => (String.ofList key, none)
  | _ :: value => (String.ofList key, some (String.ofList value))

/-- What an entry says about a key; a key alone stands for the empty value. -/
def valueIn (key entry : String) : Option String :=
  match splitEntry entry with
  | (k, some value) => if k = key then some value else none
  | (k, none) => if k = key then some "" else none

/-- The value of a key; the last entry for it counts. -/
def find? (e : Environment) (key : String) : Option String :=
  e.entries.reverse.findSome? (valueIn key)

end Environment

/-- Everything a client is made from. -/
structure ConnectionView where
  endpoints : Endpoints
  parameters : Parameters
  environment : Environment
  tags : List String

end LedgerLoad
