import LedgerLoad.Timing

/-! # The tree of results

A run gives one result per secondary, in the order of their arrival; a secondary gives one per
lane, and a lane one timing per interaction of its portion, in schedule order. -/

namespace LedgerLoad

/-- The timings of one lane. -/
structure LaneResult where
  interactions : List Timing
deriving BEq

/-- The timings of one secondary, lane by lane. -/
structure SecondaryResult where
  lanes : List LaneResult
deriving BEq

/-- The timings of a whole run, secondary by secondary. -/
structure CampaignResult where
  secondaries : List SecondaryResult
deriving BEq

namespace LaneResult

/-- The result of a lane before it begins: `n` interactions not reached. -/
def unreached (n : Nat) : LaneResult := ⟨List.replicate n .unreached⟩

/-- Stores the timing of one interaction. -/
def store (r : LaneResult) (slot : Nat) (t : Timing) : LaneResult := ⟨r.interactions.set slot t⟩

@[simp] theorem length_store (r : LaneResult) (slot : Nat) (t : Timing) :
    (r.store slot t).interactions.length = r.interactions.length := by simp [store]

end LaneResult

namespace SecondaryResult

/-- The result of a secondary that reported none. -/
def empty : SecondaryResult := ⟨[]⟩

/-- All timings, lane by lane. -/
def interactions (r : SecondaryResult) : List Timing := r.lanes.flatMap LaneResult.interactions

end SecondaryResult

/-- All timings, secondary by secondary. -/
def CampaignResult.interactions (r : CampaignResult) : List Timing :=
  r.secondaries.flatMap SecondaryResult.interactions

end LedgerLoad
