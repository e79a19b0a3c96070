import LedgerLoad.Primary.Link
import LedgerLoad.Workload.Message

/-! # Primaries

A primary leads all its secondaries through a phase at once: it sends each active one a request and
waits for all answers. A phase does not fail because a secondary does; it tells which ones failed.
How a request is carried out on one link is given from outside. Main statement: `fanOut` treats
every link on its own, so that the order in which answers come in shows nowhere. -/

namespace LedgerLoad

/-- How requests are carried out on links. -/
abbrev Executor (κ : Type) := Request Document → κ → Response × κ

/-- The place of a secondary: its link, and whether it still takes part. -/
structure Seat (κ : Type) where
  link : κ
  active : Bool

/-- A primary with a seat for each secondary, in the order of their arrival. -/
structure Primary (κ : Type) where
  seats : List (Seat κ)

/-- How a secondary is called. -/
def secondaryName (id : Nat) : String := s!"Secondary({id})"

/-- A secondary that failed a phase. -/
structure Failure where
  secondary : Nat
  phase : Command
  fault : LinkFault
deriving DecidableEq, Repr

/-- The words that report a failure. -/
def Failure.message (f : Failure) : String :=
  s!"{secondaryName f.secondary} failed {f.phase.name}: {f.fault.message}"

/-- A number of shards that is not the number of active secondaries. -/
structure ShardCountFault where
  expected : Nat
  actual : Nat
deriving DecidableEq, Repr

/-- The words that report a wrong number of shards. -/
def ShardCountFault.message (fault : ShardCountFault) : String :=
  s!"Expected {fault.expected} shards, got {fault.actual}"

namespace Primary

variable {κ : Type}

/-- A primary with links to all its secondaries. -/
def ofLinks (links : List κ) : Primary κ := ⟨links.map fun link => ⟨link, true⟩⟩

/-- The number of secondaries, whether they still take part or not. -/
def size (p : Primary κ) : Nat := p.seats.length

/-- The secondaries that still take part, in ascending order. -/
def active (p : Primary κ) : List Nat :=
  (p.seats.zipIdx).filterMap fun (seat, id) => if seat.active then some id else none

/-- Lets secondaries take part no longer. -/
def exclude (ids : List Nat) (p : Primary κ) : Primary κ :=
  ⟨p.seats.zipIdx.map fun (seat, id) => if id ∈ ids then { seat with active := false } else seat⟩

/-! ### Requests to many -/

/-- Carries out the request for one seat, if there is one. -/
def askSeat (execute : Executor κ) (request : Option (Request Document)) (seat : Seat κ) :
    Option Response × Seat κ :=
  match request with
  | none => (none, seat)
  | some r =>
    let (response, link) := execute r seat.link
    (some response, { seat with link })

/-- Carries out a request on every seat for which there is one, and gives the responses in the
order of the seats. -/
def fanOut (execute : Executor κ) (request : Nat → Option (Request Document)) (p : Primary κ) :
    List (Nat × Response) × Primary κ :=
  let asked := p.seats.zipIdx.map fun (seat, id) => (id, askSeat execute (request id) seat)
  (asked.filterMap fun (id, response, _) => response.map fun r => (id, r),
    ⟨asked.map fun (_, _, seat) => seat⟩)

/-- The same request for everyone in a list. -/
def forAll (ids : List Nat) (r : Request Document) (id : Nat) : Option (Request Document) :=
  if id ∈ ids then some r else none

/-- The failures among responses. -/
def failures (phase : Command) (responses : List (Nat × Response)) : List Failure :=
  responses.filterMap fun (secondary, response) =>
    match response with
    | .ok _ => none
    | .error fault => some { secondary, phase, fault }

/-! ### Phases -/

/-- A phase in which every active secondary is sent the same request. -/
def phase (execute : Executor κ) (r : Request Document) (p : Primary κ) :
    List Failure × Primary κ :=
  let (responses, p) := p.fanOut execute (forAll p.active r)
  (failures r.command responses, p)

/-- The request for work of each active secondary; the shards are given out in order. -/
def workFor (active : List Nat) (ledger : String) (parameters : RunParameters)
    (shards : List Shard) (id : Nat) : Option (Request Document) :=
  ((active.zip shards).find? fun e => e.1 == id).map fun e =>
    .workload (WorkloadMessage.toDocument { ledger, parameters, shard := e.2 })

/-- Gives each active secondary its shard; there must be one for each. -/
def distribute (execute : Executor κ) (ledger : String) (parameters : RunParameters)
    (shards : List Shard) (p : Primary κ) : Except ShardCountFault (List Failure) × Primary κ :=
  let active := p.active
  if shards.length = active.length then
    let (responses, p) := p.fanOut execute (workFor active ledger parameters shards)
    (.ok (failures .workload responses), p)
  else (.error ⟨active.length, shards.length⟩, p)

/-- The result in the slot of a secondary: what it answered, or an empty one. -/
def slot (responses : List (Nat × Response)) (id : Nat) : SecondaryResult :=
  match responses.find? fun e => e.1 == id with
  | some (_, .ok (some result)) => result
  | _ => .empty

/-- Asks every active secondary for its result. There is one slot for every secondary. -/
def collect (execute : Executor κ) (p : Primary κ) :
    (CampaignResult × List Failure) × Primary κ :=
  let (responses, p) := p.fanOut execute (forAll p.active .results)
  ((⟨(List.range p.size).map (slot responses)⟩, failures .results responses), p)

/-- Sends everyone the last request, whether he still takes part or not. -/
def finish (execute : Executor κ) (p : Primary κ) : Primary κ :=
  (p.fanOut execute fun _ => some .fin).2

end Primary

end LedgerLoad
