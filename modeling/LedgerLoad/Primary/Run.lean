import LedgerLoad.Config.Campaign
import LedgerLoad.Plan
import LedgerLoad.Primary.Basic

/-! # Runs

A run goes through the phases in order: the secondaries are prepared, the work is planned and given
out, the secondaries run, and the results are collected. After each phase the fault policy decides
whether it goes on, and with whom. However it ends, everyone is sent the last request; only if it
breaks down in planning, nobody is. -/

namespace LedgerLoad

/-- Why a run came to nothing. -/
inductive RunFault
  | shardCount (fault : ShardCountFault)
  | phaseFailed (phase : Command) (failures : List Failure)
  | noSecondaries
  | unknownLedger (name : String)
  | adapter (fault : AdapterFault)
  | plan (fault : PlanFault)
deriving DecidableEq, Repr

/-- The words that report a fault. -/
def RunFault.message : RunFault → String
  | .shardCount fault => fault.message
  | .phaseFailed phase failures =>
    s!"{phase.name} phase failed on {failures.length} secondaries"
  | .noSecondaries => "No secondaries left to run the benchmark"
  | .unknownLedger name => "Unknown ledger type: " ++ name
  | .adapter fault => "Adapter error: " ++ fault.message
  | .plan fault => "Planning failed: " ++ fault.message

/-- Why a run stops on its way: there is a fault to report, or it breaks down. -/
inductive RunStop
  | fault (fault : RunFault)
  | crash
deriving DecidableEq, Repr

/-- A run that stops in planning has the fault of the plan, or breaks down with it. -/
def RunStop.ofPlan : PlanStop → RunStop
  | .fault reason => .fault (.plan reason)
  | .outOfRange => .crash
  | .emptyDraw => .crash

namespace Primary

variable {κ σ β : Type}

/-- What becomes of a primary that stops or goes on after a phase. -/
abbrev Running (κ α : Type) := ExceptT RunStop (StateM (Primary κ)) α

/-- Carries out a step that cannot fail. -/
def step {α : Type} (f : Primary κ → α × Primary κ) : Running κ α := ExceptT.lift (modifyGet f)

/-- Goes on after a phase as the policy says: without those who failed, or not at all. -/
def settle (policy : FaultPolicy) (phase : Command) (failures : List Failure) :
    Running κ Unit := do
  if failures.isEmpty then return
  match policy with
  | .abort => throw (.fault (.phaseFailed phase failures))
  | .degrade =>
    let left ← step fun p =>
      let p := p.exclude (failures.map Failure.secondary)
      (p.active, p)
    if left.isEmpty then throw (.fault .noSecondaries)

/-- A phase with the same request for all, settled. -/
def settledPhase (execute : Executor κ) (policy : FaultPolicy) (r : Request Document) :
    Running κ Unit := do
  settle policy r.command (← step (phase execute r))

/-- What the secondaries are told of a run. -/
def parametersOf (setup : Setup) (campaign : Campaign) : RunParameters :=
  { endpoints := setup.endpoints, parameters := setup.parameters
    maxDelay := campaign.maxDelay, maxSkew := campaign.maxSkew }

/-- The shards for the secondaries that take part. -/
def planShards (adapter : Adapter σ β) (setup : Setup) (benchmark : Benchmark)
    (campaign : Campaign) (secondaries : Nat) : Except RunStop (List Shard) :=
  match adapter.builder setup.parameters campaign.environment setup.endpoints with
  | .error fault => .error (.fault (.adapter fault))
  | .ok (builder, state) =>
    (plan builder state benchmark secondaries campaign.seed).mapError .ofPlan

/-- Goes through all phases. -/
def phases (execute : Executor κ) (registry : Registry σ β) (setup : Setup)
    (benchmark : Benchmark) (campaign : Campaign) : Running κ CampaignResult := do
  match registry.find? setup.ledger with
  | none => throw (.fault (.unknownLedger setup.ledger))
  | some adapter =>
    settledPhase execute campaign.policy .prepare
    let active ← step fun p => (p.active, p)
    let shards ← ExceptT.mk (pure (planShards adapter setup benchmark campaign active.length))
    let given ← step (distribute execute setup.ledger (parametersOf setup campaign) shards)
    let failures ← ExceptT.mk (pure (given.mapError fun fault => .fault (.shardCount fault)))
    settle campaign.policy .workload failures
    settledPhase execute campaign.policy .run
    let (result, failures) ← step (collect execute)
    settle campaign.policy .results failures
    return result

/-- How a run leaves the primary. One that breaks down does not come to the last request. -/
def closed (execute : Executor κ) (outcome : Except RunStop CampaignResult) (p : Primary κ) :
    Primary κ :=
  match outcome with
  | .error .crash => p
  | .error (.fault _) | .ok _ => p.finish execute

/-- A whole run, with how it leaves the primary. -/
def run (execute : Executor κ) (registry : Registry σ β) (setup : Setup) (benchmark : Benchmark)
    (campaign : Campaign) (p : Primary κ) : Except RunStop CampaignResult × Primary κ :=
  let (outcome, p) := ((phases execute registry setup benchmark campaign).run).run p
  (outcome, p.closed execute outcome)

end Primary

end LedgerLoad
