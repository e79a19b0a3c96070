import LedgerLoad.Adapter.Contract
import LedgerLoad.Lane.Crew
import LedgerLoad.Results.Text
import LedgerLoad.Wire.Request
import LedgerLoad.Workload.Message

/-! # Secondaries

A secondary is led through its stages by commands: it is prepared, loaded with work, set to run, and
asked for its results. Each command is a function of the stage that either gives the next stage or
refuses; so a command that was refused leaves the stage as it was. -/

namespace LedgerLoad

/-- How a secondary is set up. -/
structure SecondarySettings where
  /-- The host of the primary. -/
  primary : String
  port : Nat
  environment : Environment
  tags : List String
  /-- How many lanes run at once. -/
  lanes : Nat
deriving DecidableEq, Repr

namespace SecondarySettings

/-- One lane, and nothing to tell the adapter. -/
def usual (primary : String) (port : Nat) : SecondarySettings := ⟨primary, port, ⟨[]⟩, [], 1⟩

/-- Sets the number of lanes, at least one. -/
def withLanes (s : SecondarySettings) (lanes : Nat) : SecondarySettings :=
  { s with lanes := max lanes 1 }

end SecondarySettings

/-- A secondary and the adapters it knows. -/
structure Secondary (σ β : Type) where
  registry : Registry σ β
  settings : SecondarySettings

/-- Work that waits to be run. -/
structure Work (σ : Type) where
  client : Client σ
  /-- What the client's interactions share at first. -/
  shared : σ
  shard : Shard
  settings : LaneSettings

/-- Where a secondary stands. -/
inductive Stage (σ : Type)
  | connected
  | prepared
  | loaded (work : Work σ)
  | running (crew : Crew σ)
  | finished (result : SecondaryResult)

/-- The word for a stage. -/
def Stage.name {σ : Type} : Stage σ → String
  | .connected => "connected"
  | .prepared => "prepared"
  | .loaded _ => "loaded"
  | .running _ => "running"
  | .finished _ => "finished"

/-- Why a command is refused. -/
inductive CommandFault
  | notAllowed (command : Command) (stage : String)
  | malformed (fault : DocumentFault)
  | unknownLedger (name : String)
  | adapter (fault : AdapterFault)
deriving DecidableEq, Repr

/-- The words that report a fault. -/
def CommandFault.message : CommandFault → String
  | .notAllowed command stage => s!"{command.name} not allowed while {stage}"
  | .malformed fault => "malformed workload: " ++ fault.message
  | .unknownLedger name => "unknown ledger type: " ++ name
  | .adapter fault => "failed to create client: " ++ fault.message

namespace Stage

variable {σ : Type}

/-! ### Commands -/

/-- Forgets all work, unless lanes are running. -/
def prepare : Stage σ → Except CommandFault (Stage σ)
  | stage@(.running _) => .error (.notAllowed .prepare stage.name)
  | _ => .ok .prepared

/-- Starts the lanes on the work at hand, from a moment on the clock. -/
def start (clock : Duration) : Stage σ → Except CommandFault (Stage σ)
  | .loaded work => .ok (.running (.start work.shard work.client work.shared work.settings clock))
  | stage => .error (.notAllowed .run stage.name)

/-- Lets the lanes run to their ends and gives their results, or gives them again. -/
def finish : Stage σ → Except CommandFault (SecondaryResult × Stage σ)
  | .running crew =>
    let result := crew.finish.result
    .ok (result, .finished result)
  | .finished result => .ok (result, .finished result)
  | stage => .error (.notAllowed .results stage.name)

/-- Whether the stage takes new work. -/
def takesWork : Stage σ → Bool
  | .prepared => true
  | .loaded _ => true
  | _ => false

end Stage

namespace Secondary

variable {σ β : Type}

/-- What the adapter is told for a run. -/
def view (s : Secondary σ β) (p : RunParameters) : ConnectionView :=
  { endpoints := p.endpoints, parameters := p.parameters
    environment := s.settings.environment, tags := s.settings.tags }

/-- How the lanes are run. -/
def laneSettings (s : Secondary σ β) (p : RunParameters) : LaneSettings :=
  { LaneSettings.usual.withLanes s.settings.lanes with maxDelay := p.maxDelay, maxSkew := p.maxSkew }

/-- The work that a document asks for. -/
def workOf (s : Secondary σ β) (d : Document) : Except CommandFault (Work σ) :=
  match WorkloadMessage.ofDocument d with
  | .error fault => .error (.malformed fault)
  | .ok message =>
    match s.registry.find? message.ledger with
    | none => .error (.unknownLedger message.ledger)
    | some adapter =>
      match adapter.client (s.view message.parameters) with
      | .error fault => .error (.adapter fault)
      | .ok (client, shared) =>
        .ok { client, shared, shard := message.shard
              settings := s.laneSettings message.parameters }

/-- Takes work in. A document that makes no sense is refused whatever the stage is. -/
def load (s : Secondary σ β) (work : Except DocumentFault Document) (stage : Stage σ) :
    Except CommandFault (Stage σ) :=
  match work with
  | .error fault => .error (.malformed fault)
  | .ok d =>
    if stage.takesWork then (s.workOf d).map Stage.loaded
    else .error (.notAllowed .workload stage.name)

end Secondary

/-! ### Answers -/

/-- The answer to a request. -/
inductive Answer
  /-- The last request has no answer. -/
  | silence
  | ok
  | result (r : SecondaryResult)
  | refused (fault : CommandFault)

namespace Answer

/-- What is written for an answer. -/
def write : Answer → Wire.Written
  | .silence => ⟨[], none⟩
  | .ok => ⟨[Reply.ok.octet], none⟩
  | .result r =>
    if Document.limit < r.documentLength then
      ⟨[Reply.ok.octet], some (.tooLarge r.documentLength)⟩
    else Wire.octetThenDocument Reply.ok.octet r.toDocument
  | .refused fault => Wire.err fault.message

/-- What is logged of an answer to a command. -/
def notices (command : Command) : Answer → List Notice
  | .refused fault =>
    [⟨.warn, "Rejecting command", [("command", command.name), ("error", fault.message)]⟩]
  | _ => []

end Answer

namespace Secondary

variable {σ β : Type}

/-- Carries out a request at a moment, or refuses it. -/
def carryOut (s : Secondary σ β) (clock : Duration) (stage : Stage σ) :
    Received → Except CommandFault (Answer × Stage σ)
  | .prepare => stage.prepare.map fun next => (.ok, next)
  | .workload work => (s.load work stage).map fun next => (.ok, next)
  | .run => (stage.start clock).map fun next => (.ok, next)
  | .results => stage.finish.map fun (result, next) => (.result result, next)
  | .fin => .ok (.silence, stage)

/-- The answer to a request at a moment, and the stage after it. -/
def answer (s : Secondary σ β) (clock : Duration) (stage : Stage σ) (r : Received) :
    Answer × Stage σ :=
  match s.carryOut clock stage r with
  | .ok next => next
  | .error fault => (.refused fault, stage)

end Secondary

end LedgerLoad
