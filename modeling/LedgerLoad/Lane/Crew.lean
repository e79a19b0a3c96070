import LedgerLoad.Lane.Basic

/-! # All lanes of a secondary

The lanes of a secondary run together from the same start. When all have ended their results are
put together in the order of the lanes; a lane that broke down counts as unreached. -/

namespace LedgerLoad

/-- The lanes of a secondary at work. -/
structure Crew (σ : Type) where
  /-- How many interactions each lane has to do. -/
  lengths : List Nat
  pool : Pool σ LaneOutcome

namespace Crew

variable {σ : Type}

/-- The lanes for a shard. -/
def lanes (shard : Shard) (client : Client σ) (settings : LaneSettings) : List (Lane σ) :=
  (List.range settings.count).map fun id => ⟨id, shard, client, settings⟩

/-- Sets the lanes to work; `shared` is what the client's interactions share at first. -/
def start (shard : Shard) (client : Client σ) (shared : σ) (settings : LaneSettings)
    (origin : Duration) : Crew σ :=
  let lanes := lanes shard client settings
  { lengths := lanes.map Lane.length
    pool :=
      { clock := origin, shared, tasks := lanes.map fun l => l.task origin, log := [] } }

/-- What is reported of a lane that broke down. Nothing is known of its last words. -/
def breakdown : String := "task panicked"

/-- What is known of a lane that has ended. -/
def outcome (length : Nat) (task : Task σ LaneOutcome) : LaneOutcome :=
  match task.result? with
  | some outcome => outcome
  | none => ⟨.unreached length, some (.aborted breakdown)⟩

/-- The outcomes of all lanes, in order. -/
def outcomes (c : Crew σ) : List LaneOutcome :=
  c.lengths.zipWith outcome c.pool.tasks

/-- The result of the secondary. -/
def result (c : Crew σ) : SecondaryResult := ⟨c.outcomes.map LaneOutcome.result⟩

/-- The faults that stopped lanes, each with its lane, in order. -/
def faults (c : Crew σ) : List (Nat × LaneFault) :=
  (c.outcomes.zipIdx).filterMap fun (o, id) => o.fault.map fun fault => (id, fault)

/-- What is logged when the lanes are put together: the lanes that broke down. -/
def notices (c : Crew σ) : List Notice :=
  c.faults.filterMap fun
    | (id, .aborted report) =>
      some ⟨.warn, "Lane task did not complete", [("lane", laneName id), ("error", report)]⟩
    | _ => none

/-- What is logged of a lane that stopped early. -/
def stopNotice (id : Nat) (fault : LaneFault) : Notice :=
  ⟨.warn, "Lane stopped early", [("lane", laneName id), ("error", fault.message)]⟩

/-- The log of the lanes from first to last, with what is logged when a secondary puts them
together. -/
def report (c : Crew σ) : List Notice :=
  c.pool.log.reverse ++ c.notices ++ c.faults.map fun (id, fault) => stopNotice id fault

/-- Lets the lanes run up to a limit, or to their ends. -/
def run (limit : Option Duration) (c : Crew σ) : Crew σ := { c with pool := c.pool.run limit }

/-- Lets time go by up to a moment. -/
def waitUntil (moment : Duration) (c : Crew σ) : Crew σ :=
  { c with pool := c.pool.waitUntil moment }

/-- Moves the clock in one go to a moment; the lanes come to know of it when they run next. -/
def setClock (moment : Duration) (c : Crew σ) : Crew σ :=
  { c with pool := { c.pool with clock := moment } }

/-- Lets the lanes run until all have ended. -/
def finish (c : Crew σ) : Crew σ := { c with pool := c.pool.drain }

/-- Whether all lanes have ended. -/
def ended (c : Crew σ) : Bool := c.pool.ended

end Crew

end LedgerLoad
