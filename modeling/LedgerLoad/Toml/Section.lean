import LedgerLoad.Data.Datum

/-! # Tables that grow

A document fills its tables bit by bit: with entries under keys of one or more parts, with headers
that open a table, and with headers that add a table to a list of tables. Which of these may come
after which depends on how a table came to be, so every table remembers that. -/

namespace LedgerLoad.Toml

/-- How a table came to be. -/
inductive Origin
  /-- By a header of its own, as the document itself, or in braces. -/
  | stated
  /-- On the way to a header below it. -/
  | implied
  /-- On the way to an entry whose key has points. -/
  | dotted
deriving DecidableEq, Repr

mutual

/-- What stands under a key. -/
inductive Node
  | value (d : Datum)
  | section (s : Section)
  /-- A list of tables, the latest first. -/
  | sections (latest : Section) (earlier : Sections)

/-- A table that may still grow, with its entries in order. -/
inductive Section
  | mk (origin : Origin) (entries : Branches)

/-- Entries of a table that may still grow. -/
inductive Branches
  | nil
  | cons (key : String) (node : Node) (tail : Branches)

/-- Earlier tables of a list, from the latest to the first. -/
inductive Sections
  | nil
  | cons (head : Section) (tail : Sections)

end

namespace Branches

/-- What stands under a key. -/
def find? (key : String) : Branches → Option Node
  | .nil => none
  | .cons k node tail => if k = key then some node else find? key tail

/-- Replaces what stands under a key, or puts it behind all others. -/
def set (key : String) (node : Node) : Branches → Branches
  | .nil => .cons key node .nil
  | .cons k old tail => if k = key then .cons k node tail else .cons k old (set key node tail)

/-- Takes a key away. -/
def erase (key : String) : Branches → Branches
  | .nil => .nil
  | .cons k old tail => if k = key then tail else .cons k old (erase key tail)

end Branches

namespace Section

/-- A table without entries. -/
def empty (origin : Origin) : Section := .mk origin .nil

def origin : Section → Origin
  | .mk origin _ => origin

def entries : Section → Branches
  | .mk _ entries => entries

/-- Changes the table at the end of a path below this one, making tables of the given origin where
there are none; a list of tables stands for its latest. A path of points does not lead through a
table that was stated. -/
def within (made : Origin) (change : Section → Option Section) :
    (path : List String) → Section → Option Section
  | [], s => change s
  | key :: path, s =>
    match s.entries.find? key with
    | none => do
      let child ← within made change path (empty made)
      return .mk s.origin (s.entries.set key (.section child))
    | some (.value _) => none
    | some (.section child) =>
      if made = .dotted ∧ child.origin = .stated then none
      else do
        let child ← within made change path child
        return .mk s.origin (s.entries.set key (.section child))
    | some (.sections latest earlier) => do
      let latest ← within made change path latest
      return .mk s.origin (s.entries.set key (.sections latest earlier))

/-- Adds an entry; the key must be free, and only tables that keys with points made take entries
of such keys. -/
def put (path : List String) (key : String) (value : Datum) (s : Section) : Option Section :=
  within .dotted
    (fun s =>
      if (s.origin = .dotted) = (path = []) then none
      else if (s.entries.find? key).isSome then none
      else some (.mk s.origin (s.entries.set key (.value value))))
    path s

/-- What stands at the end of a path and under a key there. -/
def find? (path : List String) (key : String) (s : Section) : Option Node :=
  match path with
  | [] => s.entries.find? key
  | next :: path =>
    match s.entries.find? next with
    | some (.section child) => child.find? path key
    | some (.sections latest _) => latest.find? path key
    | _ => none

end Section

/-- A key split into its path and its last part. -/
def splitKey (parts : List String) : List String × String :=
  (parts.dropLast, (parts.getLast?).getD "")

mutual

/-- What stands under a key, as a datum. -/
def Node.toDatum : Node → Datum
  | .value d => d
  | .section s => s.toDatum
  | .sections latest earlier => .list (earlier.prependTo (.cons latest.toDatum .closed))

/-- A table as a datum. -/
def Section.toDatum : Section → Datum
  | .mk _ entries => .table entries.toEntries

/-- The entries of a table as data. -/
def Branches.toEntries : Branches → Entries
  | .nil => .closed
  | .cons key node tail => .cons (some key) node.toDatum tail.toEntries

/-- Puts earlier tables before later ones. -/
def Sections.prependTo (later : Items) : Sections → Items
  | .nil => later
  | .cons head tail => tail.prependTo (.cons head.toDatum later)

end

end LedgerLoad.Toml
