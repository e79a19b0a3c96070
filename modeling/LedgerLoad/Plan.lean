import LedgerLoad.Adapter.Contract
import LedgerLoad.Config.Benchmark
import LedgerLoad.Random.ChaCha
import LedgerLoad.RoundRobin
import LedgerLoad.Interaction

/-! # Planning a run

The plan of a run is one schedule, dealt out to the secondaries. First the builder of the adapter
creates accounts, contracts and resources. Then every workload gives its interactions in order, each
due a whole number of steps after the start, with accounts drawn from one source for all workloads.
The schedule is sorted by time; what is due together keeps the order in which it was made. -/

namespace LedgerLoad

/-- Why a run cannot be planned. -/
inductive PlanFault
  | notEnoughAccounts (workload needed available : Nat)
  | noContracts (workload : Nat)
  | unsupported (what : String)
  | noSecondaries
  | adapter (fault : AdapterFault)
deriving DecidableEq, Repr

/-- The words that report a fault. -/
def PlanFault.message : PlanFault → String
  | .notEnoughAccounts workload needed available =>
    s!"Workload {workload} needs at least {needed} accounts, have {available}"
  | .noContracts workload => s!"Workload {workload} invokes contracts but none are configured"
  | .unsupported what => "Adapter does not support " ++ what
  | .noSecondaries => "No secondaries to plan for"
  | .adapter fault => "Adapter error: " ++ fault.message

/-- Why planning stops on its way: there is a fault to report, or planning breaks down and nobody is
told why. -/
inductive PlanStop
  | fault (fault : PlanFault)
  /-- There are more interactions than a schedule can hold, or a time is no span. -/
  | outOfRange
  /-- A number was to be drawn where there is none. -/
  | emptyDraw
deriving DecidableEq, Repr

/-- When the interaction numbered `i` of a workload is due. -/
def Workload.due? (w : Workload) (i : Nat) : Option Duration := do
  w.start.add? (← Duration.ofSeconds? (Float.ofNat i / w.rate))

namespace Plan

/-- How many interactions a schedule can hold. -/
def greatestLength : Nat := (2 ^ 63 - 1) / 40

variable {β α : Type}

/-! ### What planning uses up -/

/-- A step of planning: it draws numbers and calls the builder, or stops. -/
abbrev Planning (β α : Type) := StateT (Random.Source × β) (Except PlanStop) α

/-- Calls the builder. -/
def call (c : BuilderCall β α) : Planning β α := fun (source, b) =>
  match c b with
  | .ok (answer, b) => .ok (answer, source, b)
  | .error fault => .error (.fault (.adapter fault))

/-- Draws a number below a bound. -/
def draw (bound : Nat) : Planning β Nat := fun (source, b) =>
  if bound = 0 then .error .emptyDraw
  else
    let (n, source) := source.below bound
    .ok (n, source, b)

/-! ### Accounts and contracts -/

/-- What the builder has created. -/
structure Provisions where
  accounts : Array Nat
  contracts : Array Nat

/-- Creates all that a benchmark asks for. -/
def provide (builder : Builder β) (b : Benchmark) : Planning β Provisions := do
  if b.resources ≠ [] ∧ !builder.capabilities.resources then
    throw (.fault (.unsupported "resources"))
  let accounts ← (List.replicate b.accounts.count b.accounts.stake).mapM fun stake =>
    call (builder.createAccount stake)
  let contracts ← b.contracts.mapM fun name => call (builder.createContract name)
  let _ ← b.resources.mapM fun domain => call (builder.createResource domain)
  return ⟨accounts.toArray, contracts.toArray⟩

/-- The ordered pair of different places that two draws stand for, the first below `n` and the
second below `n - 1`: the second passes over the first. -/
def pairOf (first second : Nat) : Nat × Nat :=
  (first, if first ≤ second then second + 1 else second)

/-- Draws two different accounts. -/
def drawPair (accounts : Array Nat) : Planning β (Nat × Nat) := do
  let first ← draw accounts.size
  let second ← draw (accounts.size - 1)
  let (sender, receiver) := pairOf first second
  return (accounts.getD sender 0, accounts.getD receiver 0)

/-! ### Interactions -/

/-- What stands against a workload, given its place in the list. -/
def obstacle? (builder : Builder β) (p : Provisions) (w : Workload) (place : Nat) :
    Option PlanFault :=
  match w.kind with
  | .transfer _ =>
    if p.accounts.size < 2 then some (.notEnoughAccounts place 2 p.accounts.size) else none
  | .invoke =>
    if p.accounts.size = 0 then some (.notEnoughAccounts place 1 0)
    else if p.contracts.size = 0 then some (.noContracts place)
    else none
  | .custom _ =>
    if builder.capabilities.customInteractions then none
    else some (.unsupported "custom interactions")

/-- The payload of all interactions of a workload, if the builder tells one. -/
def fixedPayload (builder : Builder β) : WorkloadKind → Option Bytes
  | .custom name => builder.fixedPayload name
  | _ => none

/-- The payload of the interaction numbered `i` of a workload. -/
def payload (builder : Builder β) (p : Provisions) (kind : WorkloadKind) (i : Nat) :
    Planning β Bytes :=
  match kind with
  | .transfer stake => do
    let (sender, receiver) ← drawPair p.accounts
    call (builder.encodeTransfer stake sender receiver)
  | .invoke => do
    let sender ← draw p.accounts.size
    call (builder.encodeInvoke (p.accounts.getD sender 0)
      (p.contracts.getD (i % p.contracts.size) 0))
  | .custom name => call (builder.encodeInteraction name)

/-- The interaction numbered `i` of a workload, whose payload may be fixed. -/
def interaction (builder : Builder β) (p : Provisions) (w : Workload) (fixed : Option Bytes)
    (i : Nat) : Planning β Interaction := do
  match w.due? i with
  | none => throw .outOfRange
  | some due =>
    match fixed with
    | some octets => return ⟨due, octets⟩
    | none => return ⟨due, ← payload builder p w.kind i⟩

/-- The interactions of a workload. -/
def interactions (builder : Builder β) (p : Provisions) (w : Workload) (place : Nat) :
    Planning β (List Interaction) :=
  match obstacle? builder p w place with
  | some fault => throw (.fault fault)
  | none => (List.range w.count).mapM (interaction builder p w (fixedPayload builder w.kind))

/-! ### The schedule -/

/-- Sorts interactions by time. -/
def sorted (xs : List Interaction) : List Interaction :=
  xs.mergeSort fun a b => decide (a.due ≤ b.due)

/-- The whole schedule of a benchmark. -/
def schedule (builder : Builder β) (b : Benchmark) : Planning β (List Interaction) := do
  let p ← provide builder b
  if greatestLength < b.total then throw .outOfRange
  let parts ← b.workloads.zipIdx.mapM fun (w, place) => interactions builder p w place
  return sorted parts.flatten

/-- Deals a schedule to secondaries, at least one. -/
def deal (secondaries : Nat) (schedule : List Interaction) : List Shard :=
  RoundRobin.deal (max secondaries 1) schedule

end Plan

/-- The shards of a run, one for each secondary; `state` is how the builder is at first. -/
def plan {β : Type} (builder : Builder β) (state : β) (b : Benchmark) (secondaries seed : Nat) :
    Except PlanStop (List Shard) := do
  if secondaries = 0 then throw (.fault .noSecondaries)
  let (schedule, _) ← (Plan.schedule builder b).run (.ofSeed seed, state)
  return Plan.deal secondaries schedule

end LedgerLoad
