import LedgerLoad.Lane.Crew
import LedgerLoad.Proofs.Clock.Pool
import LedgerLoad.Proofs.RoundRobin

/-! # What lanes leave behind

A script can end in as many ways as the clock and what is shared allow; `Script.Ends` lists them,
and `Lane.Walks` does so for a lane that goes through interactions one after another. Main
statement: `Crew.leaves_finish`, each lane of a crew leaves what such a walk through its portion
stores, the slots behind the walk being unreached, or nothing at all if it breaks down
(`Lane.Leaves`). So whatever stands in a slot belongs to the interaction of that slot
(`Lane.Leaves.slot`). -/

namespace LedgerLoad

variable {σ : Type}

/-! ### Scripts -/

/-- `Ends clock script timer clock' timer' ending`: a script that goes on with a timer can end at a
later moment, leaving the timer behind. -/
inductive Script.Ends : Duration → Script σ → Timer → Duration → Timer → Ending → Prop
  | done {clock : Duration} {timer : Timer} : Ends clock .done timer clock timer .done
  | fail {clock : Duration} {timer : Timer} {fault : AdapterFault} :
      Ends clock (.fail fault) timer clock timer (.failed fault)
  | record {clock read clock' : Duration} {timer timer' : Timer} {event : Event} {ending : Ending}
      {next : Except TimingViolation Unit → Script σ} (hle : clock ≤ read)
      (h : Ends read (next (timer.enter event read).2) (timer.enter event read).1 clock' timer'
        ending) :
      Ends clock (.record event next) timer clock' timer' ending
  | sleep {clock read woken clock' : Duration} {timer timer' : Timer} {span : Duration}
      {ending : Ending} {next : Script σ} (hle : clock ≤ read) (hwoken : read ≤ woken)
      (hspan : read + span ≤ woken) (h : Ends woken next timer clock' timer' ending) :
      Ends clock (.sleep span next) timer clock' timer' ending
  | access {clock clock' : Duration} {timer timer' : Timer} {change : σ → σ} {ending : Ending}
      {next : σ → Script σ} (shared : σ) (h : Ends clock (next shared) timer clock' timer' ending) :
      Ends clock (.access change next) timer clock' timer' ending

/-- A script that may break down, by what it finds shared or by what its timer answers. -/
inductive Script.MayCrash : Script σ → Prop
  | crash : MayCrash .crash
  | record {event : Event} {next : Except TimingViolation Unit → Script σ}
      (answer : Except TimingViolation Unit) (h : MayCrash (next answer)) :
      MayCrash (.record event next)
  | sleep {span : Duration} {next : Script σ} (h : MayCrash next) : MayCrash (.sleep span next)
  | access {change : σ → σ} {next : σ → Script σ} (shared : σ) (h : MayCrash (next shared)) :
      MayCrash (.access change next)

theorem Task.quiet_noteRefusal {α : Type} (answer : Except TimingViolation Unit) (next : Task σ α) :
    (Task.noteRefusal answer next).quiet = next.quiet := by
  cases answer <;> rfl

/-- A script that runs as a task breaks down, or ends and what follows goes on and makes all the
calls. -/
theorem Script.asks_of_toTask {α : Type} {script : Script σ} {clock : Duration} {timer : Timer}
    {finish : Timer → Ending → Task σ α} {calls : List Client.Call} {o : Option α}
    (h : Task.Asks clock (script.toTask timer finish) calls o) :
    (o = none ∧ script.MayCrash) ∨ ∃ clock' timer' ending,
      script.Ends clock timer clock' timer' ending ∧
        Task.Asks clock' (finish timer' ending) calls o := by
  induction script generalizing clock timer with
  | done => exact Or.inr ⟨clock, timer, .done, .done, h⟩
  | fail fault => exact Or.inr ⟨clock, timer, .failed fault, .fail, h⟩
  | crash =>
    cases h with
    | crash => exact Or.inl ⟨rfl, .crash⟩
  | record event next ih =>
    cases h with
    | now hle h =>
      have h := h.of_quiet (Task.quiet_noteRefusal _ _)
      rcases ih _ h with ⟨rfl, hcrash⟩ | ⟨clock', timer', ending, hscript, hfinish⟩
      · exact Or.inl ⟨rfl, .record _ hcrash⟩
      · exact Or.inr ⟨clock', timer', ending, .record hle hscript, hfinish⟩
  | sleep span next ih =>
    cases h with
    | now hle h =>
      cases h with
      | sleepUntil hwoken hspan h =>
        rcases ih h with ⟨rfl, hcrash⟩ | ⟨clock', timer', ending, hscript, hfinish⟩
        · exact Or.inl ⟨rfl, .sleep hcrash⟩
        · exact Or.inr ⟨clock', timer', ending, .sleep hle hwoken hspan hscript, hfinish⟩
  | access change next ih =>
    cases h with
    | access shared h =>
      rcases ih shared h with ⟨rfl, hcrash⟩ | ⟨clock', timer', ending, hscript, hfinish⟩
      · exact Or.inl ⟨rfl, .access shared hcrash⟩
      · exact Or.inr ⟨clock', timer', ending, .access shared hscript, hfinish⟩

namespace Lane

/-! ### Turns -/

/-- What came of an interaction whose turn it was: its payload could not be decoded, or it was
triggered and left its timer behind. -/
inductive Turn
  | undecodable (fault : PayloadFault)
  | triggered (handle : Handle) (timer : Timer) (ending : Ending)

namespace Turn

/-- The calls of a turn, in order. -/
def calls (i : Interaction) : Turn → List Client.Call
  | undecodable _ => [.decode i.payload]
  | triggered handle _ _ => [.decode i.payload, .trigger handle]

/-- What a turn recorded. -/
def timing : Turn → Timing
  | undecodable _ => .unreached
  | triggered _ timer _ => timer.timing

/-- Whether a turn failed, and was the last. -/
def fails : Turn → Bool
  | undecodable _ => true
  | triggered _ _ ending => ending ≠ .done

/-- The fault of a turn that failed. -/
def fault (slot : Nat) : Turn → Option LaneFault
  | undecodable fault => some (.decode slot fault)
  | triggered _ _ (.failed fault) => some (.adapter slot fault)
  | triggered _ _ .done => none

theorem fault_eq_none {turn : Turn} {slot : Nat} : turn.fault slot = none ↔ turn.fails = false := by
  cases turn with
  | undecodable fault => simp [Turn.fault, fails]
  | triggered handle timer ending => cases ending <;> simp [Turn.fault, fails]

end Turn

/-! ### Walks -/

variable {l : Lane σ} {origin : Duration}

/-- `Takes l origin clock i turn clock'`: from a moment on, the turn of an interaction can be this
one, and it is over at a later moment. No interaction is triggered before it is due. -/
inductive Takes (l : Lane σ) (origin : Duration) :
    Duration → Interaction → Turn → Duration → Prop
  | undecodable {clock : Duration} {i : Interaction} {fault : PayloadFault}
      (h : l.client.decode i.payload = .error fault) :
      Takes l origin clock i (.undecodable fault) clock
  | triggered {clock started clock' : Duration} {i : Interaction} {handle : Handle} {timer : Timer}
      {ending : Ending} (hle : clock ≤ started) (hdue : origin + i.due ≤ started)
      (hdecode : l.client.decode i.payload = .ok handle)
      (h : (l.client.trigger handle).Ends started (.start origin) clock' timer ending) :
      Takes l origin clock i (.triggered handle timer ending) clock'

/-- `Triggers l origin clock i clock' timer ending`: from a moment on the lane waits until the
interaction is due, decodes it and triggers it, and the script leaves its timer behind. -/
def Triggers (l : Lane σ) (origin clock : Duration) (i : Interaction) (clock' : Duration)
    (timer : Timer) (ending : Ending) : Prop :=
  ∃ started handle, clock ≤ started ∧ origin + i.due ≤ started ∧
    l.client.decode i.payload = .ok handle ∧
    (l.client.trigger handle).Ends started (.start origin) clock' timer ending

theorem Takes.triggers {clock clock' : Duration} {i : Interaction} {handle : Handle} {timer : Timer}
    {ending : Ending} (h : l.Takes origin clock i (.triggered handle timer ending) clock') :
    l.Triggers origin clock i clock' timer ending := by
  cases h with
  | triggered hle hdue hdecode hscript => exact ⟨_, handle, hle, hdue, hdecode, hscript⟩

/-- Whether the client may break down in triggering an interaction. -/
def MayCrash (l : Lane σ) (i : Interaction) : Prop :=
  ∃ handle, l.client.decode i.payload = .ok handle ∧ (l.client.trigger handle).MayCrash

/-- `Walks l origin clock slot rest ts fault`: from a moment on the lane can go through the
interactions `rest`, the first of which belongs into `slot`, store the timings `ts` one after
another, and then be through with all, or stop at a fault. -/
inductive Walks (l : Lane σ) (origin : Duration) :
    Duration → Nat → Shard → List Timing → Option LaneFault → Prop
  | done {clock : Duration} {slot : Nat} : Walks l origin clock slot [] [] none
  | undecodable {clock : Duration} {slot : Nat} {i : Interaction} {rest : Shard}
      {fault : PayloadFault} (h : l.client.decode i.payload = .error fault) :
      Walks l origin clock slot (i :: rest) [] (some (.decode slot fault))
  | failed {clock clock' : Duration} {slot : Nat} {i : Interaction} {rest : Shard} {timer : Timer}
      {fault : AdapterFault} (h : l.Triggers origin clock i clock' timer (.failed fault)) :
      Walks l origin clock slot (i :: rest) [timer.timing] (some (.adapter slot fault))
  | next {clock clock' later : Duration} {slot : Nat} {i : Interaction} {rest : Shard}
      {timer : Timer} {ts : List Timing} {fault : Option LaneFault}
      (h : l.Triggers origin clock i clock' timer .done) (hle : clock' ≤ later)
      (hrest : Walks l origin later (slot + 1) rest ts fault) :
      Walks l origin clock slot (i :: rest) (timer.timing :: ts) fault

theorem Walks.length_le {clock : Duration} {slot : Nat} {rest : Shard} {ts : List Timing}
    {fault : Option LaneFault} (h : l.Walks origin clock slot rest ts fault) :
    ts.length ≤ rest.length := by
  induction h with
  | done => simp
  | undecodable => simp
  | failed => simp
  | next _ _ _ ih => simpa using ih

/-- A timing that a walk stored was recorded in triggering the interaction in its place. -/
theorem Walks.triggers {clock : Duration} {slot : Nat} {rest : Shard} {ts : List Timing}
    {fault : Option LaneFault} (h : l.Walks origin clock slot rest ts fault) {k : Nat} {t : Timing}
    (ht : ts[k]? = some t) : ∃ i begun clock' timer ending, rest[k]? = some i ∧
      l.Triggers origin begun i clock' timer ending ∧ timer.timing = t := by
  induction h generalizing k with
  | done => simp at ht
  | undecodable => simp at ht
  | @failed clock clock' slot i rest timer fault h =>
    cases k with
    | zero => exact ⟨i, clock, clock', timer, _, rfl, h, Option.some.inj ht⟩
    | succ k => simp at ht
  | @next clock clock' later slot i rest timer ts fault h _ _ ih =>
    cases k with
    | zero => exact ⟨i, clock, clock', timer, _, rfl, h, Option.some.inj ht⟩
    | succ k => exact ih ht

/-! ### Notes on the way -/

section Notes

variable {α : Type} {slot : Nat}

theorem quiet_noteSkew (skew : Duration) (next : Task σ α) :
    (l.noteSkew slot skew next).quiet = next.quiet := by
  unfold noteSkew
  split <;> rfl

theorem quiet_noteDelay (elapsed : Duration) (next : Task σ α) :
    (l.noteDelay slot elapsed next).quiet = next.quiet := by
  unfold noteDelay
  split <;> rfl

theorem quiet_noteIncomplete (ending : Ending) (timing : Timing) (next : Task σ α) :
    (l.noteIncomplete slot ending timing next).quiet = next.quiet := by
  unfold noteIncomplete
  split <;> rfl

end Notes

/-! ### The run of a lane -/

/-- The table of a lane after it has stored some timings, with `left` interactions not reached. -/
def table (stored : List Timing) (left : Nat) : LaneResult :=
  ⟨stored ++ List.replicate left .unreached⟩

theorem store_table (stored : List Timing) (left : Nat) (t : Timing) :
    (table stored (left + 1)).store stored.length t = table (stored ++ [t]) left := by
  simp [table, LaneResult.store, List.replicate_succ]

theorem length_table (stored : List Timing) (left : Nat) :
    (table stored left).interactions.length = stored.length + left := by simp [table]

/-- Storing in a slot of the table puts the timing behind those stored before. -/
theorem settle_table (stored : List Timing) (left : Nat) (timing : Timing) (ending : Ending)
    (next : LaneResult → Task σ LaneOutcome) :
    l.settle stored.length (table stored (left + 1)) timing ending next =
      l.noteIncomplete stored.length ending timing (match ending with
        | .done => next (table (stored ++ [timing]) left)
        | .failed fault =>
          .note (l.notice .error "Adapter failure, stopping lane" stored.length
            [("error", fault.message)])
            (.done ⟨table (stored ++ [timing]) left, some (.adapter stored.length fault)⟩)) := by
  have hslot : stored.length < (table stored (left + 1)).interactions.length := by
    rw [length_table]
    omega
  unfold settle
  cases ending <;> simp only [if_pos hslot, store_table]

/-- **What a lane does with its next interaction**: it breaks down in the client, or stops at a
payload that cannot be decoded, or stores what the timer recorded and goes on from there. The client
is called for the interaction's turn first, and not again for it. -/
theorem walk_asks {clock : Duration} {slot : Nat} {i : Interaction} {rest : Shard} {r : LaneResult}
    {calls : List Client.Call} {o : Option LaneOutcome}
    (h : Task.Asks clock (l.walk origin slot (i :: rest) r) calls o) :
    (o = none ∧ l.MayCrash i) ∨
      (∃ fault, l.client.decode i.payload = .error fault ∧
        calls = Turn.calls i (.undecodable fault) ∧ o = some ⟨r, some (.decode slot fault)⟩) ∨
      ∃ clock' later handle timer ending calls',
        l.Takes origin clock i (.triggered handle timer ending) clock' ∧ clock' ≤ later ∧
        calls = Turn.calls i (.triggered handle timer ending) ++ calls' ∧
        Task.Asks later
          (l.settle slot r timer.timing ending (l.walk origin (slot + 1) rest)) calls' o := by
  cases h with
  | @sleepUntil _ woken _ _ _ _ hclock hdue h =>
    cases h with
    | @now _ begun _ _ _ hbegun h =>
      cases h.of_quiet (quiet_noteSkew _ _) with
      | @call _ _ _ calls _ h =>
        cases hdecode : l.client.decode i.payload with
        | error fault =>
          rw [hdecode] at h
          cases h with
          | note h =>
            cases h with
            | done => exact Or.inr (Or.inl ⟨fault, rfl, rfl, rfl⟩)
        | ok handle =>
          rw [hdecode] at h
          cases h with
          | @now _ started _ _ _ hstarted h =>
            have hwoken := Duration.le_trans hbegun hstarted
            cases h with
            | @call _ _ _ calls' _ h =>
              rcases Script.asks_of_toTask h with
                ⟨rfl, hcrash⟩ | ⟨clock', timer, ending, hscript, h⟩
              · exact Or.inl ⟨rfl, handle, hdecode, hcrash⟩
              · cases h with
                | @now _ later _ _ _ hlater h =>
                  exact Or.inr (Or.inr ⟨clock', later, handle, timer, ending, calls',
                    .triggered (Duration.le_trans hclock hwoken) (Duration.le_trans hdue hwoken)
                      hdecode hscript, hlater, rfl, h.of_quiet (quiet_noteDelay _ _)⟩)

theorem walk_cases {clock : Duration} {slot : Nat} {i : Interaction} {rest : Shard} {r : LaneResult}
    {o : Option LaneOutcome} (h : Task.Ends clock (l.walk origin slot (i :: rest) r) o) :
    (o = none ∧ l.MayCrash i) ∨
      (∃ fault, l.client.decode i.payload = .error fault ∧
        o = some ⟨r, some (.decode slot fault)⟩) ∨
      ∃ clock' later timer ending, l.Triggers origin clock i clock' timer ending ∧
        clock' ≤ later ∧
        Task.Ends later
          (l.settle slot r timer.timing ending (l.walk origin (slot + 1) rest)) o := by
  obtain ⟨calls, h⟩ := h.asks
  rcases walk_asks h with hcrash | ⟨fault, hdecode, -, ho⟩ |
    ⟨clock', later, handle, timer, ending, calls', htakes, hlater, -, h⟩
  · exact Or.inl hcrash
  · exact Or.inr (Or.inl ⟨fault, hdecode, ho⟩)
  · exact Or.inr (Or.inr ⟨clock', later, timer, ending, htakes.triggers, hlater, h.ends⟩)

/-- A lane that stopped at a payload has an interaction of which the payload cannot be decoded. -/
theorem undecodable_of_ends {rest : Shard} {clock : Duration} {slot : Nat} {r : LaneResult}
    {o : LaneOutcome} (h : Task.Ends clock (l.walk origin slot rest r) (some o)) {place : Nat}
    {fault : PayloadFault} (hfault : o.fault = some (.decode place fault)) :
    ∃ i ∈ rest, l.client.decode i.payload = .error fault := by
  induction rest generalizing clock slot r with
  | nil =>
    cases h with
    | done => cases hfault
  | cons i rest ih =>
    rcases walk_cases h with ⟨hnone, -⟩ | ⟨fault', hdecode, hsome⟩ |
      ⟨clock', later, timer, ending, -, -, h⟩
    · cases hnone
    · obtain rfl := Option.some.inj hsome
      cases hfault
      exact ⟨i, List.mem_cons_self, hdecode⟩
    · unfold settle at h
      have h := h.of_quiet (quiet_noteIncomplete _ _ _)
      by_cases hslot : slot < r.interactions.length
      · rw [if_pos hslot] at h
        cases ending with
        | done =>
          obtain ⟨j, hj, hdecode⟩ := ih h
          exact ⟨j, List.mem_cons_of_mem i hj, hdecode⟩
        | failed _ =>
          cases h with
          | note h =>
            cases h with
            | done => cases hfault
      · rw [if_neg hslot] at h
        cases h

/-- **A lane breaks down with its client, or it has walked** and its table holds what the walk
stored. -/
theorem walks_of_ends {rest : Shard} (stored : List Timing) {clock : Duration}
    {o : Option LaneOutcome}
    (h : Task.Ends clock (l.walk origin stored.length rest (table stored rest.length)) o) :
    (o = none ∧ ∃ i ∈ rest, l.MayCrash i) ∨
      ∃ ts fault, l.Walks origin clock stored.length rest ts fault ∧
        o = some ⟨table (stored ++ ts) (rest.length - ts.length), fault⟩ := by
  induction rest generalizing stored clock with
  | nil =>
    cases h with
    | done => exact Or.inr ⟨[], none, .done, by simp⟩
  | cons i rest ih =>
    rcases walk_cases h with ⟨rfl, hcrash⟩ | ⟨fault, hdecode, rfl⟩ |
      ⟨clock', later, timer, ending, htriggers, hlater, h⟩
    · exact Or.inl ⟨rfl, i, List.mem_cons_self, hcrash⟩
    · exact Or.inr ⟨[], _, .undecodable hdecode, by simp⟩
    · rw [List.length_cons, settle_table] at h
      have h := h.of_quiet (quiet_noteIncomplete _ _ _)
      cases ending with
      | failed fault =>
        cases h with
        | note h =>
          cases h with
          | done => exact Or.inr ⟨[timer.timing], _, .failed htriggers, by simp⟩
      | done =>
        have hlength : stored.length + 1 = (stored ++ [timer.timing]).length := by simp
        rw [hlength] at h
        rcases ih _ h with ⟨rfl, j, hj, hcrash⟩ | ⟨ts, fault, hwalks, rfl⟩
        · exact Or.inl ⟨rfl, j, List.mem_cons_of_mem i hj, hcrash⟩
        · rw [← hlength] at hwalks
          exact Or.inr ⟨timer.timing :: ts, fault, .next htriggers hlater hwalks, by simp⟩

/-- What a lane can leave behind: nothing, or what a walk through its portion stores. -/
inductive Leaves (l : Lane σ) (origin : Duration) : LaneOutcome → Prop
  | nothing : Leaves l origin ⟨.unreached l.length, some (.aborted Crew.breakdown)⟩
  | walk {ts : List Timing} {fault : Option LaneFault}
      (h : l.Walks origin origin 0 l.portion ts fault) :
      Leaves l origin ⟨table ts (l.portion.length - ts.length), fault⟩

theorem length_portion {l : Lane σ} (h : l.id < l.settings.count) : l.portion.length = l.length :=
  RoundRobin.length_share h l.shard

theorem leaves_of_ends (hid : l.id < l.settings.count) {t : Task σ LaneOutcome}
    (h : Task.Ends origin (l.task origin) t.result?) :
    l.Leaves origin (Crew.outcome l.length t) := by
  rw [task, ← length_portion hid] at h
  have htable : LaneResult.unreached l.portion.length = table [] l.portion.length := rfl
  rw [htable] at h
  rcases walks_of_ends [] h with ⟨hnone, -⟩ | ⟨ts, fault, hwalks, hsome⟩
  · rw [Crew.outcome, hnone]
    exact .nothing
  · rw [Crew.outcome, hsome]
    exact .walk hwalks

theorem Leaves.length {outcome : LaneOutcome} (h : l.Leaves origin outcome)
    (hid : l.id < l.settings.count) : outcome.result.interactions.length = l.length := by
  cases h with
  | nothing => simp [LaneResult.unreached]
  | walk h =>
    have := h.length_le
    have := length_portion hid
    rw [length_table]
    omega

/-- What stands in a slot was recorded in triggering the interaction of that slot, or stands for an
interaction that was not reached. -/
theorem Leaves.slot {outcome : LaneOutcome} (h : l.Leaves origin outcome) {k : Nat} {t : Timing}
    (ht : outcome.result.interactions[k]? = some t) : t = .unreached ∨
      ∃ i begun clock' timer ending, l.portion[k]? = some i ∧
        l.Triggers origin begun i clock' timer ending ∧ timer.timing = t := by
  cases h with
  | nothing =>
    simp only [LaneResult.unreached, List.getElem?_replicate, Option.ite_none_right_eq_some] at ht
    exact Or.inl (Option.some.inj ht.2).symm
  | @walk ts fault h =>
    by_cases hk : k < ts.length
    · rw [table, List.getElem?_append_left hk] at ht
      exact Or.inr (h.triggers ht)
    · simp only [table, List.getElem?_append_right (Nat.not_lt.mp hk), List.getElem?_replicate,
        Option.ite_none_right_eq_some] at ht
      exact Or.inl (Option.some.inj ht.2).symm

end Lane

/-! ### The lanes of a secondary -/

namespace Crew

variable {shard : Shard} {client : Client σ} {shared : σ} {settings : LaneSettings}
  {origin : Duration}

theorem getElem?_outcomes {c : Crew σ} {id length : Nat} {t : Task σ LaneOutcome}
    (hlength : c.lengths[id]? = some length) (ht : c.pool.tasks[id]? = some t) :
    c.outcomes[id]? = some (outcome length t) := by
  rw [outcomes, List.getElem?_zipWith, hlength, ht]

theorem length_outcomes_finish :
    (start shard client shared settings origin).finish.outcomes.length = settings.count := by
  simp [outcomes, finish, start, lanes, Pool.drain, Pool.length_tasks_run]

/-- **Each lane leaves what a lane can leave**, in the place of its number. -/
theorem leaves_finish {id : Nat} (hid : id < settings.count) :
    ∃ outcome, (start shard client shared settings origin).finish.outcomes[id]? = some outcome ∧
      Lane.Leaves ⟨id, shard, client, settings⟩ origin outcome := by
  have htask : (start shard client shared settings origin).pool.tasks[id]? =
      some (Lane.task ⟨id, shard, client, settings⟩ origin) := by
    simp [start, lanes, hid]
  obtain ⟨last, hlast, -, hends⟩ := Pool.ends_drain _ htask
  refine ⟨_, ?_, Lane.leaves_of_ends hid hends⟩
  have hlength : (start shard client shared settings origin).finish.lengths[id]? =
      some (Lane.length ⟨id, shard, client, settings⟩) := by
    simp [start, finish, lanes, hid]
  exact getElem?_outcomes hlength hlast

end Crew

end LedgerLoad
