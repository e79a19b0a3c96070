import LedgerLoad.Mock.Ledger
import LedgerLoad.Proofs.Clock.Accesses
import LedgerLoad.Proofs.Lane.Walk

/-! # What a mock client does for a lane

An interaction with a mock ledger accesses what is shared at most twice: it counts its trigger, and
unless that is the trigger that fails, it decides the transaction after the delay. `Mock.Serves`
goes through the interactions of a lane with the accesses they make and the timings they store. Main
statement: `Mock.serves_of_runs`, a lane that has ended in a run, beside any others, has been served
like that, and never breaks down. -/

namespace LedgerLoad

/-- A timing of an interaction on which a ledger has decided: it was submitted, and committed if it
was accepted, aborted otherwise. -/
structure Timing.Shows (t : Timing) (accepted : Bool) : Prop where
  submitted : t.submit.isSome = true
  committed : t.commit.isSome = accepted
  aborted : t.abort.isSome = !accepted

theorem Timing.Shows.isComplete {t : Timing} {accepted : Bool} (h : t.Shows accepted) :
    t.isComplete = true := by
  rw [Timing.isComplete, h.submitted, h.committed, h.aborted]
  cases accepted <;> rfl

/-! ### Accesses of a lane -/

namespace Lane

variable {σ : Type} {l : Lane σ} {origin : Duration} {slot : Nat} {i : Interaction} {rest : Shard}
  {r : LaneResult} {as : List (Access σ)} {o : Option LaneOutcome}

/-- A lane makes no access of its own: it stops at a payload that cannot be decoded, or leaves it to
the client. -/
theorem makes_cases (h : Task.Makes (l.walk origin slot (i :: rest) r) as o) :
    (∃ fault, l.client.decode i.payload = .error fault ∧ as = [] ∧
      o = some ⟨r, some (.decode slot fault)⟩) ∨
    ∃ handle started, l.client.decode i.payload = .ok handle ∧
      Task.Makes ((l.client.trigger handle).toTask (.start origin) fun timer ending =>
        .now fun ended => l.noteDelay slot (ended.since started) <|
          l.settle slot r timer.timing ending (l.walk origin (slot + 1) rest)) as o := by
  cases h with
  | sleepUntil h =>
    cases h with
    | now _ h =>
      cases h.of_quiet (quiet_noteSkew _ _) with
      | call h =>
        cases hdecode : l.client.decode i.payload with
        | error fault =>
          rw [hdecode] at h
          cases h with
          | note h =>
            cases h with
            | done => exact Or.inl ⟨fault, rfl, rfl, rfl⟩
        | ok handle =>
          rw [hdecode] at h
          cases h with
          | now started h =>
            cases h with
            | call h => exact Or.inr ⟨handle, started, rfl, h⟩

/-- After the trigger the lane stores what the timer recorded, without an access. -/
theorem makes_settle {stored : List Timing} {left : Nat} {timing : Timing} {ending : Ending}
    {started : Duration} (h : Task.Makes (.now fun ended =>
      l.noteDelay stored.length (ended.since started) <|
        l.settle stored.length (table stored (left + 1)) timing ending
          (l.walk origin (stored.length + 1) rest)) as o) :
    match ending with
    | .done => Task.Makes (l.walk origin (stored ++ [timing]).length rest
        (table (stored ++ [timing]) left)) as o
    | .failed fault => as = [] ∧
        o = some ⟨table (stored ++ [timing]) left, some (.adapter stored.length fault)⟩ := by
  cases h with
  | now _ h =>
    have h := h.of_quiet (quiet_noteDelay _ _)
    rw [settle_table] at h
    have h := h.of_quiet (quiet_noteIncomplete _ _ _)
    cases ending with
    | done =>
      rw [List.length_append, List.length_singleton]
      exact h
    | failed fault =>
      cases h with
      | note h =>
        cases h with
        | done => exact ⟨rfl, rfl⟩

end Lane

namespace Mock

/-! ### One interaction -/

/-- The access that counts a trigger. -/
def counting (l : Ledger) : Access Ledger := ⟨l, l.countTrigger⟩

/-- The access that decides a transaction. -/
def deciding (s : Settings) (tx : Transaction) (l : Ledger) : Access Ledger :=
  ⟨l, l.apply s.initialBalance tx⟩

/-- What an access of a mock client does: it counts a trigger, or decides a transaction. -/
def Does (s : Settings) (a : Access Ledger) : Prop :=
  (∃ l, a = counting l) ∨ ∃ tx l, a = deciding s tx l

/-- Whether an access counts a trigger. -/
def Counts (a : Access Ledger) : Bool := a.left.triggers ≠ a.found.triggers

/-- The fault of the trigger that fails. -/
def injected (count : Nat) : AdapterFault := .transport s!"injected failure at trigger {count}"

variable {s : Settings} {tx : Transaction} {origin : Duration} {as : List (Access Ledger)}

@[simp] theorem counts_counting (l : Ledger) : Counts (counting l) = true := by
  simp [Counts, counting, Ledger.countTrigger]

@[simp] theorem counts_deciding (tx : Transaction) (l : Ledger) :
    Counts (deciding s tx l) = false := by
  simp [Counts, deciding, Ledger.triggers_apply]

section Interaction

variable {α : Type} {finish : Timer → Ending → Task Ledger α} {o : Option α}

/-- The timer of a confirmation shows what was decided, whenever that was. -/
theorem shows_entered (origin submitted decided : Duration) (accepted : Bool) :
    (((Timer.start origin).enter .submit submitted).1.enter (if accepted then .commit else .abort)
      decided).1.timing.Shows accepted := by
  cases accepted <;> exact ⟨rfl, rfl, rfl⟩

/-- A confirmation makes one access, and its timer shows what the ledger decided. -/
theorem makes_confirm (h : Task.Makes ((confirm s tx).toTask (.start origin) finish) as o) :
    ∃ (found : Ledger) (timer : Timer) (later : List (Access Ledger)),
      as = deciding s tx found :: later ∧
        timer.timing.Shows (found.accepts s.initialBalance tx) ∧
        Task.Makes (finish timer .done) later o := by
  cases h with
  | now submitted h =>
    cases h with
    | now _ h =>
      cases h with
      | sleepUntil h =>
        cases h with
        | access found h =>
          cases h with
          | now decided h =>
            have h := h.of_quiet (Task.quiet_noteRefusal _ _)
            exact ⟨found, _, _, rfl, shows_entered origin submitted decided _, h⟩

/-- **What a mock client does with a transaction**: it counts the trigger, and fails or decides. -/
theorem makes_trigger
    (h : Task.Makes ((trigger s (.transaction tx)).toTask (.start origin) finish) as o) :
    ∃ (counted : Ledger) (after : List (Access Ledger)), as = counting counted :: after ∧
      ((s.failAt = some (counted.triggers + 1) ∧
        Task.Makes (finish (.start origin) (.failed (injected (counted.triggers + 1)))) after o) ∨
      (s.failAt ≠ some (counted.triggers + 1) ∧
        ∃ (found : Ledger) (timer : Timer) (later : List (Access Ledger)),
          after = deciding s tx found :: later ∧
            timer.timing.Shows (found.accepts s.initialBalance tx) ∧
            Task.Makes (finish timer .done) later o)) := by
  cases h with
  | access counted h =>
    dsimp only at h
    by_cases hfail : s.failAt = some (counted.triggers + 1)
    · rw [if_pos hfail] at h
      exact ⟨counted, _, rfl, Or.inl ⟨hfail, h⟩⟩
    · rw [if_neg hfail] at h
      exact ⟨counted, _, rfl, Or.inr ⟨hfail, makes_confirm h⟩⟩

end Interaction

/-! ### The interactions of a lane -/

/-- `Serves s slot rest as ts fault`: going through the interactions `rest`, the first of which
belongs into `slot`, a lane of a mock client makes the accesses `as`, stores the timings `ts` and
then is through with all, or stops at a fault. -/
inductive Serves (s : Settings) :
    Nat → Shard → List (Access Ledger) → List Timing → Option LaneFault → Prop
  | done {slot : Nat} : Serves s slot [] [] [] none
  | undecodable {slot : Nat} {i : Interaction} {rest : Shard} {fault : PayloadFault}
      (h : Transaction.decode i.payload = .error fault) :
      Serves s slot (i :: rest) [] [] (some (.decode slot fault))
  | fails {slot : Nat} {i : Interaction} {rest : Shard} {tx : Transaction} {counted : Ledger}
      (h : Transaction.decode i.payload = .ok tx)
      (hfail : s.failAt = some (counted.triggers + 1)) :
      Serves s slot (i :: rest) [counting counted] [.unreached]
        (some (.adapter slot (injected (counted.triggers + 1))))
  | decides {slot : Nat} {i : Interaction} {rest : Shard} {tx : Transaction}
      {counted found : Ledger} {timing : Timing} {as : List (Access Ledger)} {ts : List Timing}
      {fault : Option LaneFault} (h : Transaction.decode i.payload = .ok tx)
      (hfail : s.failAt ≠ some (counted.triggers + 1))
      (hshows : timing.Shows (found.accepts s.initialBalance tx))
      (hrest : Serves s (slot + 1) rest as ts fault) :
      Serves s slot (i :: rest) (counting counted :: deciding s tx found :: as) (timing :: ts) fault

variable {slot : Nat} {rest : Shard} {ts : List Timing} {fault : Option LaneFault}

theorem Serves.length_le (h : Serves s slot rest as ts fault) : ts.length ≤ rest.length := by
  induction h with
  | done | undecodable => simp
  | fails => simp
  | decides _ _ _ _ ih => simpa using ih

theorem client_decode {payload : Bytes} :
    (client s).decode payload = (Transaction.decode payload).map Handle.transaction := rfl

/-- **A lane of a mock client is served** and leaves what was stored in its table; it does not break
down. -/
theorem serves_of_makes {l : Lane Ledger} (hclient : l.client = client s) {o : Option LaneOutcome}
    (stored : List Timing) (h : Task.Makes
      (l.walk origin stored.length rest (Lane.table stored rest.length)) as o) :
    ∃ ts fault, Serves s stored.length rest as ts fault ∧
      o = some ⟨Lane.table (stored ++ ts) (rest.length - ts.length), fault⟩ := by
  induction rest generalizing stored as with
  | nil =>
    cases h with
    | done => exact ⟨[], none, .done, by simp⟩
  | cons i rest ih =>
    rcases Lane.makes_cases h with ⟨fault, hdecode, rfl, rfl⟩ | ⟨handle, started, hdecode, h⟩
    · rw [hclient, client_decode] at hdecode
      cases hread : Transaction.decode i.payload with
      | ok tx =>
        rw [hread] at hdecode
        cases hdecode
      | error fault' =>
        rw [hread] at hdecode
        cases hdecode
        exact ⟨[], _, .undecodable hread, by simp⟩
    · rw [hclient] at h
      rw [hclient, client_decode] at hdecode
      cases hread : Transaction.decode i.payload with
      | error fault =>
        rw [hread] at hdecode
        cases hdecode
      | ok tx =>
        rw [hread] at hdecode
        cases hdecode
        obtain ⟨counted, after, rfl, ⟨hfail, h⟩ | ⟨hfail, found, timer, later, rfl, hshows, h⟩⟩ :=
          makes_trigger h
        · obtain ⟨rfl, rfl⟩ := Lane.makes_settle h
          exact ⟨[.unreached], _, .fails hread hfail, by simp [Timer.start]⟩
        · obtain ⟨ts, fault, hserves, rfl⟩ := ih _ (Lane.makes_settle h)
          rw [List.length_append, List.length_singleton] at hserves
          exact ⟨timer.timing :: ts, fault, .decides hread hfail hshows hserves, by simp⟩

theorem Serves.does (h : Serves s slot rest as ts fault) : ∀ a ∈ as, Does s a := by
  induction h with
  | done | undecodable => exact nofun
  | @fails slot i rest tx counted _ _ =>
    intro a ha
    exact Or.inl ⟨counted, List.mem_singleton.mp ha⟩
  | @decides slot i rest tx counted found _ _ _ _ _ _ _ _ ih =>
    intro a ha
    rcases List.mem_cons.mp ha with rfl | ha
    · exact Or.inl ⟨counted, rfl⟩
    · rcases List.mem_cons.mp ha with rfl | ha
      · exact Or.inr ⟨tx, found, rfl⟩
      · exact ih a ha

/-! ### The lanes of a secondary -/

variable {shard : Shard} {settings : LaneSettings} {id : Nat} {p q : Pool Ledger LaneOutcome}
  {record : Record Ledger}

/-- The lanes of a secondary with a mock client, before they begin. -/
def crew (s : Settings) (shard : Shard) (settings : LaneSettings) (origin : Duration) :
    Crew Ledger := Crew.start shard (client s) .fresh settings origin

/-- The lanes of a secondary that have come to a pool. -/
def crewAt (s : Settings) (shard : Shard) (settings : LaneSettings) (origin : Duration)
    (q : Pool Ledger LaneOutcome) : Crew Ledger :=
  { crew s shard settings origin with pool := q }

/-- The lane with a number. -/
def lane (s : Settings) (shard : Shard) (settings : LaneSettings) (id : Nat) : Lane Ledger :=
  ⟨id, shard, client s, settings⟩

theorem task_crew (hid : id < settings.count) : (crew s shard settings origin).pool.tasks[id]? =
    some ((lane s shard settings id).task origin) := by
  simp [crew, lane, Crew.start, Crew.lanes, hid]

theorem length_tasks_crew :
    (crew s shard settings origin).pool.tasks.length = settings.count := by
  simp [crew, Crew.start, Crew.lanes]

/-- **A lane that has ended was served**, whoever else ran in the pool and however long anybody was
kept waiting. -/
theorem serves_of_runs (hrun : (crew s shard settings origin).pool.Runs record q)
    (hid : id < settings.count) {last : Task Ledger LaneOutcome} (hlast : q.tasks[id]? = some last)
    (hended : last.ended = true) :
    ∃ ts fault, Serves s 0 (lane s shard settings id).portion (record.ofPlace id) ts fault ∧
      last = .done ⟨Lane.table ts ((lane s shard settings id).length - ts.length), fault⟩ := by
  have hmakes := hrun.makes (task_crew hid) hlast hended
  have hportion : (lane s shard settings id).portion.length = (lane s shard settings id).length :=
    Lane.length_portion hid
  have htask : (lane s shard settings id).task origin = (lane s shard settings id).walk origin
      ([] : List Timing).length (lane s shard settings id).portion
      (Lane.table [] (lane s shard settings id).portion.length) := by
    rw [Lane.task, hportion]
    rfl
  rw [htask] at hmakes
  obtain ⟨ts, fault, hserves, hresult⟩ := serves_of_makes rfl [] hmakes
  refine ⟨ts, fault, hserves, ?_⟩
  cases last with
  | done o =>
    rw [List.nil_append, hportion] at hresult
    exact congrArg Task.done (Option.some.inj hresult)
  | crash => cases hresult
  | now | sleepUntil | access | call | note => cases hended

/-- In a run of the lanes there is no access but those of a mock client. -/
theorem does_of_runs (hrun : (crew s shard settings origin).pool.Runs record q) :
    ∀ e ∈ record, Does s e.2 := by
  rintro ⟨id, a⟩ he
  -- A lane that has not ended is brought to its end first.
  obtain ⟨after, r, hafter, hended⟩ := Pool.exists_runs_ended q
  have hall := hrun.trans hafter
  have hid : id < (crew s shard settings origin).pool.tasks.length := hrun.place_lt _ he
  rw [length_tasks_crew] at hid
  have hlast : id < r.tasks.length := by rwa [hall.length_tasks, length_tasks_crew]
  have hlane := List.all_eq_true.mp hended _ (List.getElem_mem hlast)
  obtain ⟨ts, fault, hserves, -⟩ :=
    serves_of_runs hall hid (List.getElem?_eq_getElem hlast) hlane
  exact hserves.does a (Trace.mem_ofPlace.mpr (List.mem_append_left after he))

end Mock

end LedgerLoad
