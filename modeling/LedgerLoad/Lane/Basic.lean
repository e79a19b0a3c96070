import LedgerLoad.Adapter.Timer
import LedgerLoad.Clock.Pool
import LedgerLoad.Interaction
import LedgerLoad.Results
import LedgerLoad.RoundRobin

/-! # Lanes

A lane goes through its portion of a shard in order. It sleeps until an interaction is due, lets the
client decode and trigger it, and stores the timing in the slot of the interaction. The first
payload that cannot be decoded and the first failing trigger stop the lane, and the slots behind stay
unreached. -/

namespace LedgerLoad

/-- Why a lane stopped early. -/
inductive LaneFault
  | decode (slot : Nat) (fault : PayloadFault)
  | adapter (slot : Nat) (fault : AdapterFault)
  /-- The lane broke down, and nothing of what it did is known but this report. -/
  | aborted (report : String)
deriving DecidableEq, Repr

/-- The words that report a fault. -/
def LaneFault.message : LaneFault → String
  | .decode slot fault => s!"Interaction {slot} could not be decoded: " ++ fault.message
  | .adapter slot fault => s!"Interaction {slot} failed in the adapter: " ++ fault.message
  | .aborted report => "Lane task panicked or was cancelled: " ++ report

/-- What a lane leaves behind. -/
structure LaneOutcome where
  result : LaneResult
  fault : Option LaneFault

/-- How lanes are run. -/
structure LaneSettings where
  /-- The number of lanes; none counts as one. -/
  lanes : Nat
  /-- Triggers that take longer are logged. -/
  maxDelay : Duration
  /-- Interactions that begin later than this after their time are logged. -/
  maxSkew : Duration
deriving DecidableEq, Repr

namespace LaneSettings

/-- One lane, and thresholds of five seconds and a hundred milliseconds. -/
def usual : LaneSettings := ⟨1, .ofSeconds 5, .ofMillis 100⟩

/-- Sets the number of lanes, at least one. -/
def withLanes (s : LaneSettings) (lanes : Nat) : LaneSettings := { s with lanes := max lanes 1 }

/-- The number of lanes there are. -/
def count (s : LaneSettings) : Nat := max s.lanes 1

end LaneSettings

/-- A lane: its number, and what it has in common with the other lanes of its secondary. -/
structure Lane (σ : Type) where
  id : Nat
  shard : Shard
  client : Client σ
  settings : LaneSettings

/-- How a lane is called. -/
def laneName (id : Nat) : String := s!"Lane({id})"

namespace Lane

variable {σ : Type}

/-- The number of interactions a lane has to do. -/
def length (l : Lane σ) : Nat := RoundRobin.shareLength l.shard.length l.settings.count l.id

/-- The interactions a lane goes through, in order. -/
def portion (l : Lane σ) : Shard := RoundRobin.share l.settings.count l.id l.shard

/-! ### The log -/

/-- An entry of the log about a slot. -/
def notice (l : Lane σ) (level : Level) (message : String) (slot : Nat)
    (more : List (String × String)) : Notice :=
  ⟨level, message, ("lane", laneName l.id) :: ("slot", toString slot) :: more⟩

/-- Notes that an interaction begins late, if it does. -/
def noteSkew {α : Type} (l : Lane σ) (slot : Nat) (skew : Duration) (next : Task σ α) :
    Task σ α :=
  if l.settings.maxSkew < skew then
    .note (l.notice .warn "Interaction started late" slot [("skew_ms", toString skew.millis)]) next
  else next

/-- Notes that a trigger took long, if it did. -/
def noteDelay {α : Type} (l : Lane σ) (slot : Nat) (elapsed : Duration) (next : Task σ α) :
    Task σ α :=
  if l.settings.maxDelay < elapsed then
    .note (l.notice .warn "Interaction exceeded max delay" slot
      [("delay_ms", toString elapsed.millis)]) next
  else next

/-- Notes that a trigger that went well left no outcome, if so. -/
def noteIncomplete {α : Type} (l : Lane σ) (slot : Nat) (ending : Ending) (timing : Timing)
    (next : Task σ α) : Task σ α :=
  if ending = .done ∧ !timing.isComplete then
    .note (l.notice .warn "Client returned without a terminal outcome" slot []) next
  else next

/-! ### The run -/

/-- What a lane does after a trigger: it stores the timing in its slot, and goes on if the trigger
went well. A slot that is not there breaks the lane down. -/
def settle (l : Lane σ) (slot : Nat) (r : LaneResult) (timing : Timing) (ending : Ending)
    (next : LaneResult → Task σ LaneOutcome) : Task σ LaneOutcome :=
  l.noteIncomplete slot ending timing <|
    if slot < r.interactions.length then
      let r := r.store slot timing
      match ending with
      | .done => next r
      | .failed fault =>
        .note (l.notice .error "Adapter failure, stopping lane" slot [("error", fault.message)])
          (.done ⟨r, some (.adapter slot fault)⟩)
    else .crash

/-- Goes through interactions of which the first belongs into `slot`. Times that were sent are less
than `2 ^ 64` microseconds, so the clock reaches every moment they name (`Work.moment_lt`). -/
def walk (l : Lane σ) (origin : Duration) :
    (slot : Nat) → Shard → LaneResult → Task σ LaneOutcome
  | _, [], r => .done ⟨r, none⟩
  | slot, i :: rest, r =>
    let target := origin + i.due
    .sleepUntil target <| .now fun clock => l.noteSkew slot (clock.since target) <|
      l.client.decoding i.payload fun
        | .error fault =>
          .note (l.notice .error "Failed to decode interaction" slot [("error", fault.message)])
            (.done ⟨r, some (.decode slot fault)⟩)
        | .ok handle =>
          .now fun started => l.client.triggering handle (.start origin) fun timer ending =>
            .now fun ended => l.noteDelay slot (ended.since started) <|
              l.settle slot r timer.timing ending (walk l origin (slot + 1) rest)

/-- The run of a lane, with times counted from `origin`. -/
def task (l : Lane σ) (origin : Duration) : Task σ LaneOutcome :=
  l.walk origin 0 l.portion (.unreached l.length)

end Lane

end LedgerLoad
