import LedgerLoad.Toml.Lexical
import LedgerLoad.Toml.Section

/-! # Documents of TOML

A document is read in two steps. First its lines are read one after another as statements: a header
of a table, a header of a list of tables, or an entry. Then the statements fill the tables in their
order. The result is a whole datum; a text that is no document has none. -/

namespace LedgerLoad.Toml

/-! ### Values -/

/-- A value that is neither a list nor a table in braces. -/
def plainValue (text : List Char) : Option (Datum × List Char) :=
  match text with
  | [] => none
  | c :: rest =>
    if c = '"' || c = '\'' then (string text).map fun (s, rest) => (.text s, rest)
    else if isDecimal c || c = '+' || c = '-' then
      match moment text with
      | some (t, rest) => some (momentDatum t, rest)
      | none =>
        match decimal text with
        | some found => some found
        | none =>
          match named text with
          | some found => some found
          | none => integer text
    else if c = 't' then
      match rest with
      | 'r' :: 'u' :: 'e' :: rest => some (.bool true, rest)
      | _ => none
    else if c = 'f' then
      match rest with
      | 'a' :: 'l' :: 's' :: 'e' :: rest => some (.bool false, rest)
      | _ => none
    else named text

mutual

/-- A value; lists and tables in it nest at most `depth` deep, and every step spends fuel. -/
def value : (fuel depth : Nat) → Reader Datum
  | 0, _, _ => none
  | fuel + 1, depth, text =>
    match text with
    | '[' :: rest =>
      if depth = 0 then none
      else (items fuel (depth - 1) rest).map fun (xs, rest) => (.list xs, rest)
    | '\x7b' :: rest =>
      if depth = 0 then none
      else match skipSpace rest with
        | '\x7d' :: rest => some (.table .closed, rest)
        | rest =>
          (inline fuel (depth - 1) (.empty .stated) rest).map fun (s, rest) => (s.toDatum, rest)
    | _ => plainValue text

/-- The rest of a list. Lines may end anywhere, and the last item may have a comma behind it. -/
def items : (fuel depth : Nat) → Reader Items
  | 0, _, _ => none
  | fuel + 1, depth, text =>
    match skipLines text.length text with
    | ']' :: rest => some (.closed, rest)
    | text => do
      let (d, rest) ← value fuel depth text
      match skipLines rest.length rest with
      | ',' :: rest => do
        let (ds, rest) ← items fuel depth rest
        return (.cons d ds, rest)
      | ']' :: rest => return (.cons d .closed, rest)
      | _ => none

/-- The rest of a table in braces, of which `s` was read so far. It stands on one line. -/
def inline : (fuel depth : Nat) → (s : Section) → Reader Section
  | 0, _, _, _ => none
  | fuel + 1, depth, s, text => do
    let (parts, rest) ← key text
    let rest ← expect '=' (skipSpace rest)
    let (d, rest) ← value fuel depth (skipSpace rest)
    let (path, last) := splitKey parts
    let s ← s.put path last d
    match skipSpace rest with
    | ',' :: rest => inline fuel depth s rest
    | '\x7d' :: rest => return (s, rest)
    | _ => none

end

/-- How deep lists and tables in braces may nest. -/
def depth : Nat := 79

/-! ### Statements -/

/-- A line of a document. -/
inductive Statement
  | table (path : List String)
  | listed (path : List String)
  | entry (path : List String) (value : Datum)

/-- The statement at the head of a line. -/
def statement (text : List Char) : Option (Statement × List Char) :=
  match text with
  | '[' :: '[' :: rest => do
    let (path, rest) ← key rest
    let rest ← expect ']' (skipSpace rest)
    let rest ← expect ']' rest
    return (.listed path, rest)
  | '[' :: rest => do
    let (path, rest) ← key rest
    let rest ← expect ']' (skipSpace rest)
    return (.table path, rest)
  | _ => do
    let (path, rest) ← key text
    let rest ← expect '=' (skipSpace rest)
    let text := skipSpace rest
    let (d, rest) ← value (2 * text.length + 2) depth text
    return (.entry path d, rest)

/-- The statements of a text; at most `fuel` lines. -/
def statements : (fuel : Nat) → List Char → Option (List Statement)
  | 0, _ => none
  | fuel + 1, text =>
    match skipLines text.length text with
    | [] => some []
    | '#' :: rest => if rest.all isPlain then some [] else none
    | text => do
      let (first, rest) ← statement text
      let rest ← endLine? rest
      let others ← statements fuel rest
      return first :: others

/-! ### Filling -/

/-- A document that is being filled: all of it but the open table, and the open table with its path;
the document itself is the open table at first. -/
structure Filling where
  root : Section
  current : Section
  path : List String
  /-- Whether the open table belongs to a list of tables. -/
  listed : Bool

namespace Filling

/-- A document before its first line. -/
def start : Filling := ⟨.empty .stated, .empty .stated, [], false⟩

/-- Puts the open table into the document. -/
def close (f : Filling) : Option Section :=
  if f.path = [] then some f.current
  else
    let (path, last) := splitKey f.path
    Section.within .implied
      (fun s =>
        match s.entries.find? last with
        | none =>
          let node : Node := if f.listed then .sections f.current .nil else .section f.current
          some (.mk s.origin (s.entries.set last node))
        | some (.sections latest earlier) =>
          if f.listed then
            some (.mk s.origin (s.entries.set last (.sections f.current (.cons latest earlier))))
          else none
        | some _ => none)
      path f.root

/-- Opens a table. A table that a header below it made is opened with what it holds. -/
def openTable (path : List String) (f : Filling) : Option Filling := do
  let (above, last) := splitKey path
  let root ← Section.within .implied some above (← f.close)
  match root.find? above last with
  | none => return ⟨root, .empty .stated, path, false⟩
  | some (.section (.mk .implied entries)) =>
    let root ← Section.within .implied
      (fun s => some (.mk s.origin (s.entries.erase last))) above root
    return ⟨root, .mk .stated entries, path, false⟩
  | some _ => none

/-- Opens one more table of a list of tables. -/
def openListed (path : List String) (f : Filling) : Option Filling := do
  let (above, last) := splitKey path
  let root ← Section.within .implied some above (← f.close)
  match root.find? above last with
  | none => return ⟨root, .empty .stated, path, true⟩
  | some (.sections _ _) => return ⟨root, .empty .stated, path, true⟩
  | some _ => none

/-- Adds an entry to the open table. -/
def add (parts : List String) (value : Datum) (f : Filling) : Option Filling := do
  let (path, last) := splitKey parts
  let current ← f.current.put path last value
  return { f with current }

/-- Carries out a statement. -/
def take (f : Filling) : Statement → Option Filling
  | .table path => f.openTable path
  | .listed path => f.openListed path
  | .entry parts value => f.add parts value

end Filling

/-- Reads a document; a byte order mark before it does not count. -/
def read (text : String) : Option Datum := do
  let chars := match text.toList with
    | '\ufeff' :: rest => rest
    | chars => chars
  let all ← statements (chars.length + 1) chars
  let filled ← all.foldlM Filling.take .start
  let root ← filled.close
  return root.toDatum

end LedgerLoad.Toml
