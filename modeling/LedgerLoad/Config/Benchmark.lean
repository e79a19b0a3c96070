import LedgerLoad.Config.Setup
import LedgerLoad.Time.Written

/-! # What a run does

A benchmark file says how many accounts to create, which contracts to deploy and which resources to
create, and lists the workloads. A workload is a stream of interactions of one kind at a constant
rate. `Benchmark.validate` asks for what the file alone can tell: rates are positive, and there are
accounts and contracts for the kinds that need them. -/

namespace LedgerLoad

/-- The accounts to create. -/
structure Accounts where
  count : Nat
  /-- What each account has at first. -/
  stake : Nat
deriving DecidableEq, Repr

/-- What the interactions of a workload do. -/
inductive WorkloadKind
  /-- Moves a stake between two accounts drawn at random. -/
  | transfer (stake : Nat)
  /-- Calls the contracts in turn, from an account drawn at random. -/
  | invoke
  /-- Does something that only the adapter knows. -/
  | custom (name : String)
deriving DecidableEq, Repr

/-- Interactions of one kind at a constant rate. -/
structure Workload where
  kind : WorkloadKind
  /-- Interactions per second. -/
  rate : Float
  duration : Duration
  /-- When the workload begins, counted from the start of the run. -/
  start : Duration

/-- The number of interactions of a workload: rate times duration, rounded down to a word. -/
def Workload.count (w : Workload) : Nat := (w.rate * w.duration.toSeconds).toUInt64.toNat

/-- What a run does. -/
structure Benchmark where
  accounts : Accounts
  contracts : List String
  resources : List String
  workloads : List Workload

/-! ### Reading -/

namespace Accounts

/-- What an account has if nothing is said. -/
def usualStake : Nat := 1000000

/-- No accounts. -/
def none : Accounts := ⟨0, usualStake⟩

/-- Reads one entry into the fields read so far. -/
def entry (fields : Option Nat × Option Nat) (key : String) (value : Datum) :
    Except DataFault (Option Nat × Option Nat) :=
  if key = "count" then return (← fill key fields.1 value.asWord, fields.2)
  else if key = "stake" then return (fields.1, ← fill key fields.2 value.asWord)
  else do value.skip; return fields

/-- Reads accounts from a table, or from a list of the count and the stake. -/
def ofDatum : Datum → Except DataFault Accounts
  | .table entries => do
    let fields ← entries.readInto entry (.none, .none)
    return ⟨← need "count" fields.1, fields.2.getD usualStake⟩
  | .list items => do
    let (count, items) ← items.next
    let count ← count.asWord
    match items with
    | .cons stake _ => return ⟨count, ← stake.asWord⟩
    | _ => return ⟨count, usualStake⟩
  | d => .error d.mismatch

end Accounts

/-- Reads a written span of time. -/
def Written.ofDatum (d : Datum) : Except DataFault Duration := do
  match Written.read (← d.asText) with
  | .ok span => return span
  | .error fault => throw (.refused fault.message)

namespace WorkloadKind

/-- What a transfer moves if nothing is said. -/
def usualStake : Nat := 1

/-- Reads the stake of a transfer, if there is one. -/
def stake (slot : Option Nat) (key : String) (value : Datum) : Except DataFault (Option Nat) :=
  if key = "stake" then fill key slot value.asWord else return slot

/-- Reads the name of a custom interaction. -/
def name (slot : Option String) (key : String) (value : Datum) :
    Except DataFault (Option String) :=
  if key = "name" then fill key slot value.asText else return slot

/-- Finds the name of the kind among the entries of a workload. -/
def kindName (slot : Option String) (key : String) (value : Datum) :
    Except DataFault (Option String) :=
  if key = "kind" then do
    let kind ← fill key slot value.asText
    if kind ∈ [some "transfer", some "invoke", some "custom"] then return kind
    else throw (.unknownVariant (kind.getD ""))
  else return slot

/-- Reads the kind of a workload from the entries that are not common to all kinds. -/
def ofEntries (entries : Entries) : Except DataFault WorkloadKind := do
  let kind ← need "kind" (← entries.readInto kindName none)
  if kind = "transfer" then
    return .transfer ((← entries.readInto stake none).getD usualStake)
  else if kind = "invoke" then return .invoke
  else return .custom (← need "name" (← entries.readInto name none))

end WorkloadKind

namespace Workload

/-- A workload that is being read; what is not common to all kinds is set aside, latest first. -/
structure Draft where
  rate : Option Float
  duration : Option Duration
  start : Option Duration
  others : List (String × Datum)

/-- Reads one entry. -/
def Draft.entry (w : Draft) (key : String) (value : Datum) : Except DataFault Draft :=
  if key = "rate" then return { w with rate := ← fill key w.rate value.asFloat }
  else if key = "duration" then
    return { w with duration := ← fill key w.duration (Written.ofDatum value) }
  else if key = "start" then
    return { w with start := ← fill key w.start (Written.ofDatum value) }
  else return { w with others := (key, value) :: w.others }

/-- Reads a workload. -/
def ofDatum : Datum → Except DataFault Workload
  | .table entries => do
    let w ← entries.readInto Draft.entry ⟨none, none, none, []⟩
    let rate ← need "rate" w.rate
    let duration ← need "duration" w.duration
    let kind ← WorkloadKind.ofEntries (.ofList w.others.reverse)
    return ⟨kind, rate, duration, w.start.getD .zero⟩
  | d => .error d.mismatch

end Workload

namespace Benchmark

/-- A benchmark that is being read. -/
structure Draft where
  accounts : Option Accounts
  contracts : Option (List String)
  resources : Option (List String)
  workloads : Option (List Workload)

/-- Reads one entry. -/
def Draft.entry (b : Draft) (key : String) (value : Datum) : Except DataFault Draft :=
  if key = "accounts" then
    return { b with accounts := ← fill key b.accounts (Accounts.ofDatum value) }
  else if key = "contracts" then
    return { b with contracts := ← fill key b.contracts (value.asList Datum.asText) }
  else if key = "resources" then
    return { b with resources := ← fill key b.resources (value.asList Datum.asText) }
  else if key = "workloads" then
    return { b with workloads := ← fill key b.workloads (value.asList Workload.ofDatum) }
  else do value.skip; return b

/-- Reads a benchmark; whatever is left out is empty. -/
def ofDatum : Datum → Except DataFault Benchmark
  | .table entries => do
    let b ← entries.readInto Draft.entry ⟨none, none, none, none⟩
    return ⟨b.accounts.getD .none, b.contracts.getD [], b.resources.getD [],
      b.workloads.getD []⟩
  | d => .error d.mismatch

/-- Reads the text of a benchmark file. -/
def read (text : String) : Except DataFault Benchmark := Toml.decode ofDatum text

/-- The number of interactions of all workloads. -/
def total (b : Benchmark) : Nat := (b.workloads.map Workload.count).sum

end Benchmark

/-! ### Validation -/

/-- What is wrong with a workload, given its place in the list. -/
inductive BenchmarkFault
  | badRate (place : Nat) (rate : Float)
  | fewAccounts (place : Nat)
  | nothingToInvoke (place : Nat)

namespace BenchmarkFault

/-- The place of the workload at fault. -/
def workload : BenchmarkFault → Nat
  | .badRate place _ => place
  | .fewAccounts place => place
  | .nothingToInvoke place => place

/-- The words that report a fault. -/
def message : BenchmarkFault → String
  | .badRate place rate => s!"workload {place} has non-positive rate {Decimal.plain rate}"
  | .fewAccounts place =>
    s!"workload {place} transfers but fewer than 2 accounts are configured"
  | .nothingToInvoke place =>
    s!"workload {place} invokes but no accounts or contracts are configured"

end BenchmarkFault

namespace Benchmark

/-- Whether a rate is a positive number. -/
def isRate (rate : Float) : Bool := rate.isFinite && decide (0 < rate)

/-- The fault of a workload, if it has one; its rate comes first. -/
def fault? (b : Benchmark) (w : Workload) (place : Nat) : Option BenchmarkFault :=
  if !isRate w.rate then some (.badRate place w.rate)
  else match w.kind with
    | .transfer _ => if b.accounts.count < 2 then some (.fewAccounts place) else none
    | .invoke =>
      if b.accounts.count = 0 ∨ b.contracts = [] then some (.nothingToInvoke place) else none
    | .custom _ => none

/-- Finds the first workload at fault. -/
def validate (b : Benchmark) : Except BenchmarkFault Unit :=
  match b.workloads.zipIdx.findSome? fun (w, place) => b.fault? w place with
  | some fault => .error fault
  | none => .ok ()

end Benchmark

end LedgerLoad
