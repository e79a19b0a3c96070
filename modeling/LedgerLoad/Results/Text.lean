import LedgerLoad.Document
import LedgerLoad.Results

/-! # Results as text

Results travel as JSON. A timing has three numbers, with minus one for a time that is not set, and
is checked when it is read; the levels above it are lists under one name each. -/

namespace LedgerLoad

namespace Timing

/-- What is written for a time that is not set. -/
def unset : Float := -1

/-- A time as it is written. -/
def writeTime (t : Option Float) : Datum := .float (t.getD unset)

/-- A time as it was written. -/
def readTime (x : Float) : Option Float := if x == unset then none else some x

def toDatum (t : Timing) : Datum :=
  .ofEntries [("submit_time", writeTime t.submit), ("commit_time", writeTime t.commit),
    ("abort_time", writeTime t.abort)]

/-- The numbers of a timing that is being read. -/
structure Draft where
  submit : Option Float
  commit : Option Float
  abort : Option Float

/-- Reads one field of a timing. -/
def Draft.entry (t : Draft) (key : String) (value : Datum) : Except DataFault Draft :=
  if key = "submit_time" then return { t with submit := ← fill key t.submit value.asFloat }
  else if key = "commit_time" then return { t with commit := ← fill key t.commit value.asFloat }
  else if key = "abort_time" then return { t with abort := ← fill key t.abort value.asFloat }
  else do value.skip; return t

/-- The three numbers of a timing, from a table or a list. -/
def numbers : Datum → Except DataFault (Float × Float × Float)
  | .table entries => do
    let t ← entries.readInto Draft.entry ⟨none, none, none⟩
    return (← need "submit_time" t.submit, ← need "commit_time" t.commit,
      ← need "abort_time" t.abort)
  | .list items => do
    let (submit, items) ← items.next
    let submit ← submit.asFloat
    let (commit, items) ← items.next
    let commit ← commit.asFloat
    let (abort, items) ← items.next
    let abort ← abort.asFloat
    items.finish
    return (submit, commit, abort)
  | d => .error d.mismatch

/-- Reads a timing and checks it. -/
def ofDatum (d : Datum) : Except DataFault Timing := do
  let (submit, commit, abort) ← numbers d
  match ofTimes (readTime submit) (readTime commit) (readTime abort) with
  | .ok t => return t
  | .error violation => throw (.refused violation.message)

end Timing

/-- Reads a record that has one list under one name. -/
def readLevel {α : Type} (name : String) (item : Datum → Except DataFault α) :
    Datum → Except DataFault (List α)
  | .table entries => do
    let found ← entries.readInto
      (fun slot key value =>
        if key = name then fill key slot (value.asList item) else do value.skip; return slot)
      none
    need name found
  | .list items => do
    let (first, items) ← items.next
    let found ← first.asList item
    items.finish
    return found
  | d => .error d.mismatch

/-- A record that has one list under one name. -/
def writeLevel {α : Type} (name : String) (item : α → Datum) (xs : List α) : Datum :=
  .ofEntries [(name, .ofItems (xs.map item))]

namespace LaneResult

def toDatum (r : LaneResult) : Datum := writeLevel "interactions" Timing.toDatum r.interactions

def ofDatum (d : Datum) : Except DataFault LaneResult :=
  (readLevel "interactions" Timing.ofDatum d).map LaneResult.mk

/-- The length of the text of a lane's result. -/
def textLength (r : LaneResult) : Nat :=
  Json.entryLength "interactions"
    (Json.listLength (r.interactions.map fun t => (Json.encode t.toDatum).length))

end LaneResult

namespace SecondaryResult

def toDatum (r : SecondaryResult) : Datum := writeLevel "clients" LaneResult.toDatum r.lanes

def ofDatum (d : Datum) : Except DataFault SecondaryResult :=
  (readLevel "clients" LaneResult.ofDatum d).map SecondaryResult.mk

/-- The document that carries the result of a secondary. -/
def toDocument (r : SecondaryResult) : Document := ⟨[Json.encode r.toDatum]⟩

/-- The length of the JSON text of that document. -/
def documentLength (r : SecondaryResult) : Nat :=
  let length := Json.entryLength "clients" (Json.listLength (r.lanes.map LaneResult.textLength))
  Json.listLength [2 * length + 2]

/-- Reads the result of a secondary from the first element of its document. -/
def ofDocument (d : Document) : Except DocumentFault SecondaryResult :=
  match d.elements with
  | [] => .error (.missingElements 1 0)
  | octets :: _ =>
    match Json.decode ofDatum octets with
    | .ok r => .ok r
    | .error fault => .error (.json fault)

end SecondaryResult

namespace CampaignResult

def toDatum (r : CampaignResult) : Datum :=
  writeLevel "secondaries" SecondaryResult.toDatum r.secondaries

def ofDatum (d : Datum) : Except DataFault CampaignResult :=
  (readLevel "secondaries" SecondaryResult.ofDatum d).map CampaignResult.mk

/-- The octets in which the result of a run is put out, packed if asked for. -/
def encode (r : CampaignResult) (packed : Bool) : Bytes :=
  let plain := Json.encode r.toDatum
  if packed then Lz4.pack plain else plain

end CampaignResult

end LedgerLoad
