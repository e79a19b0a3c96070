import LedgerLoad.Proofs.Lane.Course

/-! # The slots of a lane

Before it begins, a lane announces how many slots its result has (`Lane.length`). It stores in as
many slots as it goes through interactions (`Lane.portion`), and breaks down at a slot that is not
there.

* `length_eq_length_portion_iff`: the two numbers agree for each lane with a number below the count
  of lanes. A lane beyond the count announces nothing, but begins at its number in the shard all the
  same, so that they agree only if the shard ends before.
* `taskOr_eq_task`: if they agree, no slot is missing. What a lane would go on with at a missing
  slot (`Lane.taskOr`) makes no difference to it, whatever its client does.
* `ends_beyond`, `ends_of_triggers`: if not, the lane has an interaction and no slot. It gets no
  further than to a payload that cannot be decoded; if the client triggers it, the lane breaks down.

Main statement: `Lane.slots_fit` (`Lane.Slots`). -/

namespace LedgerLoad.Lane

variable {σ : Type} {l : Lane σ} {outside : Task σ LaneOutcome} {origin clock clock' : Duration}
  {i : Interaction} {rest : Shard}

/-! ### As many slots as interactions -/

theorem length_of_count_le (hid : l.settings.count ≤ l.id) : l.length = 0 := if_pos hid

theorem length_portion_pos : 0 < l.portion.length ↔ l.id < l.shard.length := by
  have hcount : 0 < l.settings.count := Nat.le_max_right _ _
  rw [portion, RoundRobin.lt_length_share hcount, Nat.zero_mul, Nat.add_zero]

/-- **A lane announces as many slots as it goes through interactions** if it is one of the lanes
there are; beyond them, only if there is nothing left for it. -/
theorem length_eq_length_portion_iff :
    l.length = l.portion.length ↔ l.id < l.settings.count ∨ l.shard.length ≤ l.id := by
  have hpos := length_portion_pos (l := l)
  by_cases hid : l.id < l.settings.count
  · exact ⟨fun _ => Or.inl hid, fun _ => (length_portion hid).symm⟩
  · rw [length_of_count_le (Nat.not_lt.mp hid)]
    omega

/-- The lanes there are announce together as many slots as the shard has interactions. -/
theorem sum_length (l : Lane σ) :
    ((List.range l.settings.count).map fun id => length { l with id }).sum = l.shard.length :=
  RoundRobin.sum_shareLength (n := l.settings.count) (Nat.le_max_right _ _) l.shard.length

/-! ### Missing slots -/

/-- What a lane does after a trigger, if at a missing slot it goes on with `outside`. -/
def settleOr (l : Lane σ) (outside : Task σ LaneOutcome) (slot : Nat) (r : LaneResult)
    (timing : Timing) (ending : Ending) (next : LaneResult → Task σ LaneOutcome) :
    Task σ LaneOutcome :=
  if slot < r.interactions.length then l.settle slot r timing ending next
  else l.noteIncomplete slot ending timing outside

/-- The walk of a lane that at a missing slot goes on with `outside`. -/
def walkOr (l : Lane σ) (outside : Task σ LaneOutcome) (origin : Duration) :
    (slot : Nat) → Shard → LaneResult → Task σ LaneOutcome
  | _, [], r => .done ⟨r, none⟩
  | slot, i :: rest, r =>
    let target := origin + i.due
    .sleepUntil target <| .now fun clock => l.noteSkew slot (clock.since target) <|
      l.client.decoding i.payload fun
        | .error fault =>
          .note (l.notice .error "Failed to decode interaction" slot [("error", fault.message)])
            (.done ⟨r, some (.decode slot fault)⟩)
        | .ok handle =>
          .now fun started => l.client.triggering handle (.start origin) fun timer ending =>
            .now fun ended => l.noteDelay slot (ended.since started) <|
              l.settleOr outside slot r timer.timing ending
                (l.walkOr outside origin (slot + 1) rest)

/-- The run of a lane that at a missing slot goes on with `outside`. -/
def taskOr (l : Lane σ) (outside : Task σ LaneOutcome) (origin : Duration) : Task σ LaneOutcome :=
  l.walkOr outside origin 0 l.portion (.unreached l.length)

theorem settle_missing {slot : Nat} {r : LaneResult} (h : r.interactions.length ≤ slot)
    (timing : Timing) (ending : Ending) (next : LaneResult → Task σ LaneOutcome) :
    l.settle slot r timing ending next = l.noteIncomplete slot ending timing .crash := by
  rw [settle, if_neg (Nat.not_lt.mpr h)]

/-- What follows after a trigger matters for results with as many slots only. -/
theorem settle_congr {slot : Nat} {r : LaneResult} {next next' : LaneResult → Task σ LaneOutcome}
    (h : ∀ r' : LaneResult, r'.interactions.length = r.interactions.length → next r' = next' r')
    (timing : Timing) (ending : Ending) :
    l.settle slot r timing ending next = l.settle slot r timing ending next' := by
  unfold settle
  cases ending with
  | done => simp only [h (r.store slot timing) (LaneResult.length_store r slot timing)]
  | failed fault => rfl

/-- Two walks that store their first timing alike and go on alike are the same. -/
theorem walkOr_cons {slot : Nat} {r : LaneResult}
    (h : ∀ timing ending,
      l.settleOr outside slot r timing ending (l.walkOr outside origin (slot + 1) rest) =
        l.settle slot r timing ending (l.walk origin (slot + 1) rest)) :
    l.walkOr outside origin slot (i :: rest) r = l.walk origin slot (i :: rest) r := by
  refine congrArg (Task.sleepUntil _) (congrArg Task.now (funext fun clock => ?_))
  refine congrArg (l.noteSkew slot _) (congrArg (Task.call _) ?_)
  cases l.client.decode i.payload with
  | error fault => rfl
  | ok handle => simp only [h]

/-- A lane breaks down at a missing slot. -/
theorem walkOr_crash (rest : Shard) (slot : Nat) (r : LaneResult) :
    l.walkOr .crash origin slot rest r = l.walk origin slot rest r := by
  induction rest generalizing slot r with
  | nil => rfl
  | cons i rest ih =>
    refine walkOr_cons fun timing ending => ?_
    rw [funext (ih (slot + 1))]
    by_cases hslot : slot < r.interactions.length
    · exact if_pos hslot
    · rw [settleOr, if_neg hslot, settle_missing (Nat.not_lt.mp hslot)]

/-- **Where there are slots for all that is left, none is missing.** -/
theorem walkOr_eq_walk (rest : Shard) (slot : Nat) (r : LaneResult)
    (h : slot + rest.length ≤ r.interactions.length) :
    l.walkOr outside origin slot rest r = l.walk origin slot rest r := by
  induction rest generalizing slot r with
  | nil => rfl
  | cons i rest ih =>
    rw [List.length_cons] at h
    refine walkOr_cons fun timing ending => ?_
    -- A store keeps the number of slots, so that there is room for the rest as well.
    rw [settleOr, if_pos (by omega)]
    exact settle_congr (fun r' hr' => ih (slot + 1) r' (by omega)) timing ending

theorem taskOr_crash (l : Lane σ) (origin : Duration) : l.taskOr .crash origin = l.task origin :=
  walkOr_crash l.portion 0 _

/-- A lane that announces as many slots as it goes through interactions never misses one. -/
theorem taskOr_eq_task (h : l.length = l.portion.length) (outside : Task σ LaneOutcome)
    (origin : Duration) : l.taskOr outside origin = l.task origin := by
  refine walkOr_eq_walk l.portion 0 _ ?_
  rw [LaneResult.unreached, List.length_replicate, h, Nat.zero_add]

/-! ### Lanes beyond the count -/

/-- A lane with an interaction and no slot ends only where it cannot decode the payload. -/
theorem ends_beyond (hlength : l.length = 0) (hportion : l.portion = i :: rest) {o : LaneOutcome}
    (h : Task.Ends clock (l.task origin) (some o)) :
    ∃ fault, l.client.decode i.payload = .error fault ∧
      o = ⟨.unreached 0, some (.decode 0 fault)⟩ := by
  rw [task, hportion, hlength] at h
  rcases walk_cases h with ⟨hnone, -⟩ | ⟨fault, hdecode, hsome⟩ |
    ⟨clock', later, timer, ending, -, -, h⟩
  · cases hnone
  · exact ⟨fault, hdecode, Option.some.inj hsome⟩
  · rw [settle_missing (Nat.zero_le _)] at h
    cases h.of_quiet (quiet_noteIncomplete _ _ _)

/-- Such a lane breaks down when its interaction has been triggered. -/
theorem ends_of_triggers (hlength : l.length = 0) (hportion : l.portion = i :: rest) {timer : Timer}
    {ending : Ending} (h : l.Triggers origin clock i clock' timer ending) :
    Task.Ends clock (l.task origin) none := by
  obtain ⟨started, handle, hle, hdue, hdecode, hscript⟩ := h
  rw [task, hportion, hlength]
  refine ends_of_triggered (.triggered hle hdue hdecode hscript) (Duration.le_refl clock') ?_
  rw [settle_missing (Nat.zero_le _)]
  exact Task.Ends.of_quiet .crash (quiet_noteIncomplete _ _ _).symm

/-! ### Main statement -/

/-- How the slots that a lane announces fit its interactions. -/
structure Slots (l : Lane σ) : Prop where
  /-- There are as many exactly if the lane is one of those there are, or the shard ends before it
  begins. -/
  agree : l.length = l.portion.length ↔ l.id < l.settings.count ∨ l.shard.length ≤ l.id
  /-- At a missing slot a lane breaks down. -/
  missing : ∀ origin : Duration, l.taskOr .crash origin = l.task origin
  /-- It never comes to one if it has a slot for each interaction: whatever it would go on with
  there, its run is the same. -/
  within : l.length = l.portion.length → ∀ (outside : Task σ LaneOutcome) (origin : Duration),
    l.taskOr outside origin = l.task origin
  /-- Otherwise it has no slot, but interactions of other lanes. At the first of them it stops if it
  cannot decode the payload, and breaks down if it triggers it. -/
  beyond : l.length ≠ l.portion.length → l.length = 0 ∧ ∃ i rest, l.portion = i :: rest ∧
    l.shard[l.id]? = some i ∧
    (∀ origin clock o, Task.Ends clock (l.task origin) (some o) →
      ∃ fault, l.client.decode i.payload = .error fault ∧
        o = ⟨.unreached 0, some (.decode 0 fault)⟩) ∧
    ∀ origin clock clock' timer ending, l.Triggers origin clock i clock' timer ending →
      Task.Ends clock (l.task origin) none
  /-- All lanes there are announce together a slot for each interaction of the shard. -/
  total : ((List.range l.settings.count).map fun id => length { l with id }).sum = l.shard.length

/-- **The slots of a lane fit its interactions** exactly if it is one of the lanes there are, or
there is nothing left for it. -/
theorem slots_fit (l : Lane σ) : l.Slots where
  agree := length_eq_length_portion_iff
  missing := taskOr_crash l
  within := taskOr_eq_task
  beyond hne := by
    obtain ⟨hid, hshard⟩ := not_or.mp (mt length_eq_length_portion_iff.mpr hne)
    have hlength := length_of_count_le (Nat.not_lt.mp hid)
    have hpos := length_portion_pos.mpr (Nat.not_le.mp hshard)
    cases hportion : l.portion with
    | nil => simp [hportion] at hpos
    | cons i rest =>
      -- The portion begins at the lane's own number in the shard, whoever that place belongs to.
      have hfirst : l.portion[0]? = l.shard[l.id + 0 * l.settings.count]? :=
        RoundRobin.getElem?_share (Nat.le_max_right _ _) l.id 0 l.shard
      rw [hportion, Nat.zero_mul, Nat.add_zero] at hfirst
      exact ⟨hlength, i, rest, rfl, hfirst.symm, fun _ _ _ h => ends_beyond hlength hportion h,
        fun _ _ _ _ _ h => ends_of_triggers hlength hportion h⟩
  total := sum_length l

end LedgerLoad.Lane

/-! ### A lane beyond the count -/

namespace LedgerLoad

namespace Stray

/-- A client that understands what is not empty, and does nothing with it. -/
def client : Client Unit where
  decode
    | [] => .error (.malformed "empty")
    | payload => .ok (.number payload.length)
  trigger _ := .done

/-- The second lane where there is to be one only; the shard has two interactions. -/
def lane (payload : Bytes) : Lane Unit := ⟨1, [⟨⟨0⟩, [7]⟩, ⟨⟨0⟩, payload⟩], client, .usual⟩

end Stray

/-- It announces no slot and goes through an interaction, stops at a slot that is not there if it
cannot decode it, and breaks down if it can. -/
theorem Lane.stray_unslotted : (Stray.lane []).length = 0 ∧ (Stray.lane []).portion.length = 1 ∧
    (((Stray.lane []).task ⟨0⟩).advance ⟨0⟩ () []).task =
      .done ⟨⟨[]⟩, some (.decode 0 (.malformed "empty"))⟩ ∧
    (((Stray.lane [7]).task ⟨0⟩).advance ⟨0⟩ () []).task = .crash :=
  ⟨rfl, rfl, rfl, rfl⟩

end LedgerLoad
