import LedgerLoad.Adapter.Connection
import LedgerLoad.Document
import LedgerLoad.Interaction

/-! # The workload of a secondary as a document

A secondary is sent the type of the ledger, the parameters of the run, and its interactions in
schedule order, one element each. -/

namespace LedgerLoad

/-- What a secondary must know of a run besides its interactions. -/
structure RunParameters where
  endpoints : Endpoints
  parameters : Parameters
  /-- Interactions that take longer are logged. -/
  maxDelay : Duration
  /-- Interactions that begin later than this after their time are logged. -/
  maxSkew : Duration
deriving DecidableEq

/-- The work of one secondary. -/
structure WorkloadMessage where
  ledger : String
  parameters : RunParameters
  shard : Shard
deriving DecidableEq

/-! ### Spans of time -/

namespace Duration

def toDatum (d : Duration) : Datum :=
  .ofEntries [("secs", .ofNat d.seconds), ("nanos", .ofNat d.subsecond)]

/-- A span of seconds and nanoseconds, of which there may be more than a second's worth. -/
def ofParts (seconds nanos : Nat) : Except DataFault Duration :=
  let total := seconds * second + nanos
  if total ≤ longest.nanos then .ok ⟨total⟩
  else .error (.refused "overflow deserializing Duration")

/-- Reads one field of a span; there are no others. -/
def entry (parts : Option Nat × Option Nat) (key : String) (value : Datum) :
    Except DataFault (Option Nat × Option Nat) :=
  if key = "secs" then return (← fill key parts.1 value.asWord, parts.2)
  else if key = "nanos" then return (parts.1, ← fill key parts.2 (value.asNat (2 ^ 32)))
  else .error (.unknownField key)

/-- Reads a span from a table or a list. -/
def ofDatum : Datum → Except DataFault Duration
  | .table entries => do
    let parts ← entries.readInto entry (none, none)
    ofParts (← need "secs" parts.1) (← need "nanos" parts.2)
  | .list items => do
    let (seconds, items) ← items.next
    let seconds ← seconds.asWord
    let (nanos, items) ← items.next
    let nanos ← nanos.asNat (2 ^ 32)
    let d ← ofParts seconds nanos
    items.finish
    return d
  | d => .error d.mismatch

end Duration

/-! ### Parameters -/

/-- Parameters as a table. -/
def Parameters.toDatum (p : Parameters) : Datum :=
  .ofEntries (p.entries.map fun (key, value) => (key, .text value))

/-- Reads parameters. -/
def Parameters.ofDatum (d : Datum) : Except DataFault Parameters := d.asDictionary Datum.asText

/-- Groups of endpoints as a table of lists. -/
def Endpoints.toDatum (e : Endpoints) : Datum :=
  .ofEntries (e.entries.map fun (key, group) => (key, .ofItems (group.map Datum.text)))

/-- Reads groups of endpoints. -/
def Endpoints.ofDatum (d : Datum) : Except DataFault Endpoints :=
  d.asDictionary (Datum.asList Datum.asText)

namespace RunParameters

/-- No parameters, and the usual thresholds of five seconds and a hundred milliseconds. -/
def usual : RunParameters :=
  { endpoints := .empty, parameters := .empty, maxDelay := .ofSeconds 5, maxSkew := .ofMillis 100 }

def toDatum (p : RunParameters) : Datum :=
  .ofEntries [("endpoints", Endpoints.toDatum p.endpoints),
    ("parameters", Parameters.toDatum p.parameters),
    ("max_delay", p.maxDelay.toDatum), ("max_skew", p.maxSkew.toDatum)]

/-- Parameters of a run that are being read. -/
structure Draft where
  endpoints : Option Endpoints
  parameters : Option Parameters
  maxDelay : Option Duration
  maxSkew : Option Duration

/-- Reads one field. -/
def Draft.entry (p : Draft) (key : String) (value : Datum) : Except DataFault Draft :=
  if key = "endpoints" then
    return { p with endpoints := ← fill key p.endpoints (Endpoints.ofDatum value) }
  else if key = "parameters" then
    return { p with parameters := ← fill key p.parameters (Parameters.ofDatum value) }
  else if key = "max_delay" then
    return { p with maxDelay := ← fill key p.maxDelay (Duration.ofDatum value) }
  else if key = "max_skew" then
    return { p with maxSkew := ← fill key p.maxSkew (Duration.ofDatum value) }
  else do value.skip; return p

/-- Reads the parameters of a run from a table or a list. -/
def ofDatum : Datum → Except DataFault RunParameters
  | .table entries => do
    let p ← entries.readInto Draft.entry ⟨none, none, none, none⟩
    return ⟨← need "endpoints" p.endpoints, ← need "parameters" p.parameters,
      ← need "max_delay" p.maxDelay, ← need "max_skew" p.maxSkew⟩
  | .list items => do
    let (endpoints, items) ← items.next
    let endpoints ← Endpoints.ofDatum endpoints
    let (parameters, items) ← items.next
    let parameters ← Parameters.ofDatum parameters
    let (maxDelay, items) ← items.next
    let maxDelay ← Duration.ofDatum maxDelay
    let (maxSkew, items) ← items.next
    let maxSkew ← Duration.ofDatum maxSkew
    items.finish
    return ⟨endpoints, parameters, maxDelay, maxSkew⟩
  | d => .error d.mismatch

end RunParameters

/-! ### The document -/

namespace WorkloadMessage

/-- The document that carries a message. -/
def toDocument (m : WorkloadMessage) : Document :=
  ⟨Utf8.encode m.ledger :: Json.encode m.parameters.toDatum :: m.shard.map Interaction.encode⟩

/-- Reads interactions of which the first stands at `index`. -/
def readShard (index : Nat) : List Bytes → Except DocumentFault Shard
  | [] => .ok []
  | octets :: rest =>
    match Interaction.decode octets with
    | .ok i => (readShard (index + 1) rest).map (i :: ·)
    | .error fault => .error (.invalidElement index fault.message)

/-- Reads a message from its document. -/
def ofDocument (d : Document) : Except DocumentFault WorkloadMessage := do
  d.require 2
  let ledger ← d.text 0
  let parameters ←
    match Json.decode RunParameters.ofDatum (d.elements.getD 1 []) with
    | .ok p => pure p
    | .error fault => throw (.json fault)
  let shard ← readShard 2 (d.elements.drop 2)
  return ⟨ledger, parameters, shard⟩

end WorkloadMessage

end LedgerLoad
