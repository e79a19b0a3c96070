import LedgerLoad.Proofs.Clock.Traces
import LedgerLoad.Proofs.Lane.Walk

/-! # The course of a lane

A lane takes its interactions one by one. Each has one turn: its payload is decoded, and what was
made of it is triggered with a timer of its own. The first turn that fails is the last
(`Lane.Course`). So the calls that a lane makes of its client are those of its turns, one turn after
another (`Lane.callsOf`), and what it leaves behind is a function of the turns (`Lane.outcomeOf`):
each slot holds what its own turn recorded. `course_of_asks`: a lane that does not break down has
such a course, with these calls and no others. Main statement: `Lane.accounted`, every run of a lane
ends, and if the client does not break down it has had such a course, whoever else runs in the pool
and however long anybody is kept waiting; the thresholds for the log have no part in it. -/

namespace LedgerLoad

variable {σ : Type}

namespace Lane

variable {l : Lane σ} {origin clock clock' : Duration} {i : Interaction} {rest : Shard}
  {turn : Turn} {turns : List Turn} {slot : Nat}

/-- `Course l origin clock rest turns`: from a moment on, these can be the turns of a lane that goes
through interactions. Each is taken in its turn, and none after one that failed. -/
inductive Course (l : Lane σ) (origin : Duration) : Duration → Shard → List Turn → Prop
  | done {clock : Duration} : Course l origin clock [] []
  | stops {clock clock' : Duration} {i : Interaction} {rest : Shard} {turn : Turn}
      (h : l.Takes origin clock i turn clock') (hfails : turn.fails = true) :
      Course l origin clock (i :: rest) [turn]
  | goesOn {clock clock' later : Duration} {i : Interaction} {rest : Shard} {turn : Turn}
      {turns : List Turn} (h : l.Takes origin clock i turn clock') (hfails : turn.fails = false)
      (hle : clock' ≤ later) (hrest : Course l origin later rest turns) :
      Course l origin clock (i :: rest) (turn :: turns)

/-- The fault of the first turn that failed, if the first turn is that of `slot`. -/
def faultOf : (slot : Nat) → List Turn → Option LaneFault
  | _, [] => none
  | slot, turn :: turns => (turn.fault slot).or (faultOf (slot + 1) turns)

/-- What a lane leaves behind by its turns: what they recorded, and nothing in the slots behind. -/
def outcomeOf (length : Nat) (turns : List Turn) : LaneOutcome :=
  ⟨⟨turns.map Turn.timing ++ List.replicate (length - turns.length) .unreached⟩, faultOf 0 turns⟩

/-! ### Calls of a course -/

/-- The calls of a course, in order. -/
def callsOf (rest : Shard) (turns : List Turn) : List Client.Call :=
  (rest.zip turns).flatMap fun (i, turn) => turn.calls i

theorem callsOf_nil (rest : Shard) : callsOf rest [] = [] := by simp [callsOf]

theorem callsOf_cons (i : Interaction) (rest : Shard) (turn : Turn) (turns : List Turn) :
    callsOf (i :: rest) (turn :: turns) = turn.calls i ++ callsOf rest turns := rfl

end Lane

/-- The payload that is to be decoded. -/
def Client.Call.payload? : Client.Call → Option Bytes
  | .decode payload => some payload
  | .trigger _ => none

/-- What is to be triggered. -/
def Client.Call.handle? : Client.Call → Option Handle
  | .decode _ => none
  | .trigger handle => some handle

/-- What was triggered in a turn. -/
def Lane.Turn.handle? : Lane.Turn → Option Handle
  | .undecodable _ => none
  | .triggered handle _ _ => some handle

namespace Lane

variable {l : Lane σ} {origin clock clock' : Duration} {i : Interaction} {rest : Shard}
  {turn : Turn} {turns : List Turn} {slot : Nat}

theorem Turn.payloads_calls (turn : Turn) (i : Interaction) :
    (turn.calls i).filterMap Client.Call.payload? = [i.payload] := by
  cases turn <;> rfl

theorem Turn.handles_calls (turn : Turn) (i : Interaction) :
    (turn.calls i).filterMap Client.Call.handle? = turn.handle?.toList := by
  cases turn <;> rfl

/-- Each payload is decoded once, as far as the turns go. -/
theorem payloads_callsOf (h : turns.length ≤ rest.length) :
    (callsOf rest turns).filterMap Client.Call.payload? =
      (rest.take turns.length).map Interaction.payload := by
  induction turns generalizing rest with
  | nil => rw [callsOf_nil]; rfl
  | cons turn turns ih =>
    cases rest with
    | nil => exact absurd h (Nat.not_succ_le_zero _)
    | cons i rest =>
      rw [callsOf_cons, List.filterMap_append, turn.payloads_calls i,
        ih (Nat.le_of_succ_le_succ h)]
      rfl

/-- What was made of each payload is triggered once. -/
theorem handles_callsOf (h : turns.length ≤ rest.length) :
    (callsOf rest turns).filterMap Client.Call.handle? = turns.filterMap Turn.handle? := by
  induction turns generalizing rest with
  | nil => rw [callsOf_nil]; rfl
  | cons turn turns ih =>
    cases rest with
    | nil => exact absurd h (Nat.not_succ_le_zero _)
    | cons i rest =>
      rw [callsOf_cons, List.filterMap_append, turn.handles_calls i,
        ih (Nat.le_of_succ_le_succ h), List.filterMap_cons]
      cases turn <;> rfl

/-- There is no call after those of a turn that failed. -/
theorem Course.calls_of_fails (h : l.Course origin clock rest turns) {k : Nat}
    (hturn : turns[k]? = some turn) (hfails : turn.fails = true) (hi : rest[k]? = some i) :
    callsOf rest turns = callsOf (rest.take k) (turns.take k) ++ turn.calls i := by
  induction h generalizing k with
  | done => simp at hturn
  | @stops _ _ j rest t =>
    cases k with
    | zero =>
      obtain rfl : t = turn := by simpa using hturn
      obtain rfl : j = i := by simpa using hi
      simp [callsOf]
    | succ k => simp at hturn
  | @goesOn _ _ _ j rest t turns _ hgood _ _ ih =>
    cases k with
    | zero =>
      obtain rfl : t = turn := by simpa using hturn
      rw [hgood] at hfails
      cases hfails
    | succ k =>
      rw [callsOf_cons, ih (by simpa using hturn) (by simpa using hi), List.take_succ_cons,
        List.take_succ_cons, callsOf_cons, List.append_assoc]

/-! ### Courses of walks -/

theorem Course.length_le (h : l.Course origin clock rest turns) : turns.length ≤ rest.length := by
  induction h with
  | done => simp
  | stops => simp
  | goesOn _ _ _ _ ih => simpa using ih

/-- **A lane breaks down with its client, or it has a course.** It has made the calls of the course,
and its table holds what the turns recorded. -/
theorem course_of_asks (stored : List Timing) {calls : List Client.Call} {o : Option LaneOutcome}
    (h : Task.Asks clock (l.walk origin stored.length rest (table stored rest.length)) calls o) :
    (o = none ∧ ∃ i ∈ rest, l.MayCrash i) ∨
      ∃ turns, l.Course origin clock rest turns ∧ calls = callsOf rest turns ∧
        o = some ⟨⟨stored ++ (turns.map Turn.timing ++
          List.replicate (rest.length - turns.length) .unreached)⟩,
          faultOf stored.length turns⟩ := by
  induction rest generalizing stored clock calls with
  | nil =>
    cases h with
    | done => exact Or.inr ⟨[], .done, rfl, rfl⟩
  | cons i rest ih =>
    rcases walk_asks h with ⟨rfl, hcrash⟩ | ⟨fault, hdecode, rfl, rfl⟩ |
      ⟨clock', later, handle, timer, ending, calls', htakes, hlater, rfl, hsettle⟩
    · exact Or.inl ⟨rfl, i, List.mem_cons_self, hcrash⟩
    · refine Or.inr ⟨[.undecodable fault], .stops (.undecodable hdecode) rfl, ?_, ?_⟩
      · simp [callsOf]
      · simp [table, faultOf, Turn.fault, Turn.timing, List.replicate_succ]
    · rw [List.length_cons, settle_table] at hsettle
      have hrest := hsettle.of_quiet (quiet_noteIncomplete _ _ _)
      cases ending with
      | failed fault =>
        cases hrest with
        | note hrest =>
          cases hrest with
          | done =>
            refine Or.inr ⟨[_], .stops htakes rfl, ?_, ?_⟩
            · simp [callsOf]
            · simp [table, faultOf, Turn.fault, Turn.timing]
      | done =>
        have hlength : stored.length + 1 = (stored ++ [timer.timing]).length := by simp
        rw [hlength] at hrest
        rcases ih _ hrest with ⟨rfl, j, hj, hcrash⟩ | ⟨turns, hcourse, rfl, rfl⟩
        · exact Or.inl ⟨rfl, j, List.mem_cons_of_mem i hj, hcrash⟩
        · refine Or.inr ⟨.triggered handle timer .done :: turns, .goesOn htakes rfl hlater hcourse,
            ?_, ?_⟩
          · simp [callsOf]
          · simp [faultOf, Turn.fault, Turn.timing]

theorem course_of_asks_task (hid : l.id < l.settings.count) {calls : List Client.Call}
    {o : Option LaneOutcome} (h : Task.Asks clock (l.task origin) calls o) :
    (o = none ∧ ∃ i ∈ l.portion, l.MayCrash i) ∨
      ∃ turns, l.Course origin clock l.portion turns ∧ calls = callsOf l.portion turns ∧
        o = some (outcomeOf l.length turns) := by
  unfold outcomeOf
  rw [task, ← length_portion hid] at h
  rw [← length_portion hid]
  exact course_of_asks [] h

theorem course_of_ends (hid : l.id < l.settings.count) {o : Option LaneOutcome}
    (h : Task.Ends clock (l.task origin) o) : (o = none ∧ ∃ i ∈ l.portion, l.MayCrash i) ∨
      ∃ turns, l.Course origin clock l.portion turns ∧ o = some (outcomeOf l.length turns) := by
  obtain ⟨calls, h⟩ := h.asks
  rcases course_of_asks_task hid h with hcrash | ⟨turns, hcourse, -, ho⟩
  · exact Or.inl hcrash
  · exact Or.inr ⟨turns, hcourse, ho⟩

/-! ### Walks of courses -/

end Lane

/-- A script that can end goes on with what follows it. -/
theorem Script.Ends.toTask {α : Type} {script : Script σ} {clock clock' : Duration}
    {timer timer' : Timer} {ending : Ending} {finish : Timer → Ending → Task σ α} {o : Option α}
    (h : script.Ends clock timer clock' timer' ending)
    (hfinish : Task.Ends clock' (finish timer' ending) o) :
    Task.Ends clock (script.toTask timer finish) o := by
  induction h with
  | done | fail => exact hfinish
  | record hle _ ih => exact .now hle ((ih hfinish).of_quiet (Task.quiet_noteRefusal _ _).symm)
  | sleep hle hwoken hspan _ ih => exact .now hle (.sleepUntil hwoken hspan (ih hfinish))
  | access shared _ ih => exact .access shared (ih hfinish)

namespace Lane

variable {l : Lane σ} {origin clock clock' : Duration} {i : Interaction} {rest : Shard}
  {turn : Turn} {turns : List Turn} {slot : Nat}

/-- A turn with a trigger goes on with storing what was recorded. -/
theorem ends_of_triggered {handle : Handle} {timer : Timer} {ending : Ending} {later : Duration}
    {r : LaneResult} {o : Option LaneOutcome}
    (h : l.Takes origin clock i (.triggered handle timer ending) clock') (hle : clock' ≤ later)
    (hsettle : Task.Ends later (l.settle slot r timer.timing ending (l.walk origin (slot + 1) rest))
      o) : Task.Ends clock (l.walk origin slot (i :: rest) r) o := by
  cases h with
  | triggered hstarted hdue hdecode hscript =>
    refine .sleepUntil hstarted hdue (.now (Duration.le_refl _) ?_)
    refine Task.Ends.of_quiet (.call ?_) (quiet_noteSkew _ _).symm
    rw [hdecode]
    refine .now (Duration.le_refl _) (.call (hscript.toTask (.now hle ?_)))
    exact hsettle.of_quiet (quiet_noteDelay _ _).symm

/-! ### Faults and slots -/

theorem faultOf_eq_none (slot : Nat) (h : ∀ turn ∈ turns, turn.fails = false) :
    faultOf slot turns = none := by
  induction turns generalizing slot with
  | nil => rfl
  | cons turn turns ih =>
    obtain ⟨hturn, hturns⟩ := List.forall_mem_cons.mp h
    rw [faultOf, Turn.fault_eq_none.mpr hturn, ih _ hturns]
    rfl

theorem faultOf_append (slot : Nat) {before : List Turn} (h : ∀ t ∈ before, t.fails = false) :
    faultOf slot (before ++ [turn]) = turn.fault (slot + before.length) := by
  induction before generalizing slot with
  | nil => simp [faultOf]
  | cons t before ih =>
    obtain ⟨ht, hbefore⟩ := List.forall_mem_cons.mp h
    rw [List.cons_append, faultOf, Turn.fault_eq_none.mpr ht, ih _ hbefore, List.length_cons,
      Nat.succ_add_eq_add_succ]
    rfl

/-- Every interaction had its turn and none failed, or the last turn did. -/
theorem Course.cases (h : l.Course origin clock rest turns) :
    (turns.length = rest.length ∧ ∀ turn ∈ turns, turn.fails = false) ∨
      ∃ before turn, turns = before ++ [turn] ∧ (∀ t ∈ before, t.fails = false) ∧
        turn.fails = true := by
  induction h with
  | done => exact Or.inl ⟨rfl, nofun⟩
  | @stops _ _ _ _ turn _ hfails => exact Or.inr ⟨[], turn, rfl, nofun, hfails⟩
  | @goesOn _ _ _ _ _ turn turns _ hfails _ _ ih =>
    rcases ih with ⟨hlength, hturns⟩ | ⟨before, last, rfl, hbefore, hlast⟩
    · exact Or.inl ⟨congrArg (· + 1) hlength, List.forall_mem_cons.mpr ⟨hfails, hturns⟩⟩
    · exact Or.inr ⟨turn :: before, last, rfl, List.forall_mem_cons.mpr ⟨hfails, hbefore⟩, hlast⟩

/-- Each turn is that of the interaction in its place. -/
theorem Course.takes (h : l.Course origin clock rest turns) {k : Nat}
    (hturn : turns[k]? = some turn) : ∃ i begun ended, rest[k]? = some i ∧
      l.Takes origin begun i turn ended := by
  induction h generalizing k with
  | done => simp at hturn
  | @stops clock clock' i rest t h =>
    cases k with
    | zero =>
      obtain rfl : t = turn := by simpa using hturn
      exact ⟨i, clock, clock', rfl, h⟩
    | succ k => simp at hturn
  | @goesOn clock clock' later i rest t turns h _ _ _ ih =>
    cases k with
    | zero =>
      obtain rfl : t = turn := by simpa using hturn
      exact ⟨i, clock, clock', rfl, h⟩
    | succ k => exact ih (by simpa using hturn)

/-! ### The thresholds for the log -/

/-- A lane with other thresholds for what is logged. -/
def withThresholds (l : Lane σ) (maxDelay maxSkew : Duration) : Lane σ :=
  { l with settings := { l.settings with maxDelay, maxSkew } }

theorem quiet_toTask {α : Type} {finish finish' : Timer → Ending → Task σ α}
    (h : ∀ timer ending, (finish timer ending).quiet = (finish' timer ending).quiet)
    (script : Script σ) (timer : Timer) :
    (script.toTask timer finish).quiet = (script.toTask timer finish').quiet := by
  induction script generalizing timer with
  | done => exact h timer .done
  | fail fault => exact h timer (.failed fault)
  | crash => rfl
  | record event next ih =>
    refine congrArg Task.now (funext fun clock => ?_)
    simp only [Task.quiet_noteRefusal]
    exact ih _ _
  | sleep span next ih =>
    exact congrArg Task.now (funext fun clock => congrArg (Task.sleepUntil _) (ih timer))
  | access change next ih =>
    exact congrArg (Task.access change) (funext fun shared => ih shared timer)

theorem quiet_settle {l' : Lane σ} {r : LaneResult} {timing : Timing} {ending : Ending}
    {next next' : LaneResult → Task σ LaneOutcome} (h : ∀ r, (next r).quiet = (next' r).quiet) :
    (l.settle slot r timing ending next).quiet = (l'.settle slot r timing ending next').quiet := by
  unfold settle
  rw [quiet_noteIncomplete, quiet_noteIncomplete]
  by_cases hslot : slot < r.interactions.length
  · rw [if_pos hslot, if_pos hslot]
    cases ending with
    | done => exact h _
    | failed fault => rfl
  · rw [if_neg hslot, if_neg hslot]

/-- **The thresholds have a part in what is logged only.** -/
theorem quiet_walk (maxDelay maxSkew : Duration) (rest : Shard) (slot : Nat) (r : LaneResult) :
    ((l.withThresholds maxDelay maxSkew).walk origin slot rest r).quiet =
      (l.walk origin slot rest r).quiet := by
  induction rest generalizing slot r with
  | nil => rfl
  | cons i rest ih =>
    refine congrArg (Task.sleepUntil _) (congrArg Task.now (funext fun clock => ?_))
    simp only [quiet_noteSkew]
    refine congrArg (Task.call _) ?_
    have hclient : (l.withThresholds maxDelay maxSkew).client = l.client := rfl
    rw [hclient]
    cases l.client.decode i.payload with
    | error fault => rfl
    | ok handle =>
      refine congrArg Task.now (funext fun started => congrArg (Task.call _) ?_)
      refine quiet_toTask (fun timer ending => ?_) _ _
      refine congrArg Task.now (funext fun ended => ?_)
      simp only [quiet_noteDelay]
      exact quiet_settle fun r => ih (slot + 1) r

/-! ### Runs -/

/-- What is known of a lane that runs from a moment on, makes these calls, takes these turns and
leaves this behind. -/
structure Accounted (l : Lane σ) (origin clock : Duration) (made : List Client.Call)
    (turns : List Turn) (o : LaneOutcome) : Prop where
  /-- The interactions of the lane had their turns in order, each at most once, and none after one
  that failed. -/
  course : l.Course origin clock l.portion turns
  /-- Each turn is that of the interaction in its place. -/
  own : ∀ (k : Nat) (turn : Turn), turns[k]? = some turn → ∃ i begun ended, l.portion[k]? = some i ∧
    l.Takes origin begun i turn ended
  /-- The calls of the client were those of the turns, turn by turn: -/
  calls : made = callsOf l.portion turns
  /-- each payload was decoded once and in its order, as far as there were turns, -/
  decoded : made.filterMap Client.Call.payload? =
    (l.portion.take turns.length).map Interaction.payload
  /-- what was made of a payload was triggered once and in its order, -/
  triggered : made.filterMap Client.Call.handle? = turns.filterMap Turn.handle?
  /-- and after the calls of a turn that failed there was none. -/
  noneAfter : ∀ (k : Nat) (turn : Turn) (i : Interaction), turns[k]? = some turn →
    turn.fails = true → l.portion[k]? = some i →
    made = callsOf (l.portion.take k) (turns.take k) ++ turn.calls i
  /-- There is a slot for each interaction of the lane. -/
  length : o.result.interactions.length = l.length
  /-- The slot of a turn holds what the turn recorded, -/
  stored : ∀ (k : Nat) (turn : Turn), turns[k]? = some turn →
    o.result.interactions[k]? = some turn.timing
  /-- and the slots behind hold nothing. -/
  behind : ∀ k : Nat, turns.length ≤ k → k < l.length → o.result.interactions[k]? = some .unreached
  /-- If there is no fault, every interaction had its turn and none failed. -/
  complete : o.fault = none → turns.length = l.length ∧ ∀ turn ∈ turns, turn.fails = false
  /-- A fault is that of the last turn and names its slot. -/
  stopped : ∀ fault, o.fault = some fault → ∃ before last, turns = before ++ [last] ∧
    (∀ turn ∈ before, turn.fails = false) ∧ last.fault before.length = some fault

theorem accounted_of_course (hid : l.id < l.settings.count)
    (hcourse : l.Course origin clock l.portion turns) :
    l.Accounted origin clock (callsOf l.portion turns) turns (outcomeOf l.length turns) := by
  have hlength := length_portion hid
  have hle := hcourse.length_le
  refine ⟨hcourse, fun k turn hturn => hcourse.takes hturn, rfl, payloads_callsOf hle,
    handles_callsOf hle, fun k turn i => hcourse.calls_of_fails, ?_, fun k turn hturn => ?_,
    fun k hk hlt => ?_, fun hnone => ?_, fun fault hfault => ?_⟩
  · simp only [outcomeOf, List.length_append, List.length_map, List.length_replicate]
    omega
  · obtain ⟨hk, rfl⟩ := List.getElem?_eq_some_iff.mp hturn
    simp [outcomeOf, List.getElem?_append_left, hk]
  · simp only [outcomeOf]
    rw [List.getElem?_append_right (by simpa using hk), List.length_map, List.getElem?_replicate,
      if_pos (by omega)]
  · rcases hcourse.cases with ⟨hall, hturns⟩ | ⟨before, last, rfl, hbefore, hlast⟩
    · exact ⟨hall.trans hlength, hturns⟩
    · have hfault : faultOf 0 (before ++ [last]) = _ := faultOf_append 0 hbefore
      rw [outcomeOf, hfault, Turn.fault_eq_none, hlast] at hnone
      cases hnone
  · rcases hcourse.cases with ⟨-, hturns⟩ | ⟨before, last, rfl, hbefore, hlast⟩
    · rw [outcomeOf, faultOf_eq_none 0 hturns] at hfault
      cases hfault
    · rw [outcomeOf, faultOf_append 0 hbefore, Nat.zero_add] at hfault
      exact ⟨before, last, rfl, hbefore, hfault⟩

variable {p q : Pool σ LaneOutcome} {record : Trace Client.Call} {k : Nat}

/-- **Every run of a lane** can be brought to its end, however long it was kept waiting so far. A
lane that has ended has broken down with its client, or has gone through its interactions in order,
with one call to decode and one to trigger each, stopped at the first that failed, and left behind
what their timers recorded. With other thresholds for the log the same run, with the same calls,
ends in the same way. -/
theorem accounted (hid : l.id < l.settings.count) (ht : p.tasks[k]? = some (l.task origin))
    (hrun : p.Calls record q) :
    (∃ more q' last, q.Calls more q' ∧ q'.tasks[k]? = some last ∧ last.ended = true) ∧
      ∀ last, q.tasks[k]? = some last → last.ended = true →
        (last = .crash ∧ ∃ i ∈ l.portion, l.MayCrash i) ∨
        ∃ o, last = .done o ∧
          (∃ turns, l.Accounted origin p.clock (record.ofPlace k) turns o) ∧
          ∀ maxDelay maxSkew, ∃ q', Pool.Calls
              { p with tasks := p.tasks.set k ((l.withThresholds maxDelay maxSkew).task origin) }
              record q' ∧
            q'.tasks[k]? = some (.done o) ∧ q'.quiet = q.quiet := by
  obtain ⟨q', end', hdelayed, hend, hended'⟩ := Pool.exists_ended hrun.delayed ht
  obtain ⟨more, hmore⟩ := Pool.exists_traced Task.calling hdelayed
  refine ⟨⟨more, q', end', hmore, hend, hended'⟩, fun last hlast hended => ?_⟩
  have hasks := Pool.Calls.asks hrun ht hlast hended
  rcases course_of_asks_task hid hasks with ⟨hnone, hcrash⟩ | ⟨turns, hcourse, hcalls, hsome⟩
  · refine Or.inl ⟨?_, hcrash⟩
    cases last with
    | crash => rfl
    | done => cases hnone
    | now | sleepUntil | access | call | note => cases hended
  · cases last with
    | crash => cases hsome
    | now | sleepUntil | access | call | note => cases hended
    | done o =>
      obtain rfl := Option.some.inj hsome
      refine Or.inr ⟨_, rfl, ⟨turns, hcalls ▸ accounted_of_course hid hcourse⟩,
        fun maxDelay maxSkew => ?_⟩
      refine Pool.calls_of_quiet ?_ hrun hlast hended
      -- Only the notes of this lane are others.
      have hquiet : ((l.withThresholds maxDelay maxSkew).task origin).quiet =
          (l.task origin).quiet := quiet_walk maxDelay maxSkew l.portion 0 _
      have hset : (p.put k ⟨(l.withThresholds maxDelay maxSkew).task origin, p.shared,
          p.log⟩).quiet = p.quiet := Pool.quiet_put_of_note ht hquiet rfl
      exact hset

end Lane

/-! ### A lane that fails on its way -/

namespace Fragile

/-- A client that loses its connection on payloads of one octet. -/
def client : Client Unit where
  decode
    | [] => .error (.malformed "empty")
    | payload => .ok (.number payload.length)
  trigger
    | .number 1 => .record .submit fun _ => .fail (.transport "lost")
    | _ => .record .submit fun _ => .record .commit fun _ => .done

/-- The first of two lanes has three interactions, and fails at the second. -/
def lane : Lane Unit where
  id := 0
  shard := [⟨.ofMillis 1, [1, 2]⟩, ⟨.ofMillis 1, []⟩, ⟨.ofMillis 2, [7]⟩, ⟨.ofMillis 3, []⟩,
    ⟨.ofMillis 4, [1, 2]⟩]
  client := client
  settings := { LaneSettings.usual with lanes := 2 }

/-- The lane with nobody beside it. -/
def pool : Pool Unit LaneOutcome := ⟨⟨0⟩, (), [lane.task ⟨0⟩], []⟩

end Fragile

namespace Lane

/-- It is kept waiting until all is due, and then runs to its end, with four calls. -/
theorem accounted_fragile : ∃ record q o turns, Fragile.pool.Calls record q ∧
    q.tasks[0]? = some (.done o) ∧ o.result.interactions.length = 3 ∧
    o.fault = some (.adapter 1 (.transport "lost")) ∧
    record.ofPlace 0 = [.decode [1, 2], .trigger (.number 2), .decode [7], .trigger (.number 1)] ∧
    Fragile.lane.Accounted ⟨0⟩ ⟨0⟩ (record.ofPlace 0) turns o := by
  obtain ⟨q, hdelayed, o, hlast, hlength, hfault⟩ : ∃ q, Fragile.pool.Delayed q ∧ ∃ o,
      q.tasks[0]? = some (.done o) ∧ o.result.interactions.length = 3 ∧
        o.fault = some (.adapter 1 (.transport "lost")) :=
    have hdue : Fragile.pool.clock ≤ .ofMillis 5 := by decide
    ⟨_, Pool.delayed_wake (i := 0) hdue rfl, _, rfl, rfl, rfl⟩
  obtain ⟨record, hrun⟩ := Pool.exists_traced Task.calling hdelayed
  have hended := (accounted (l := Fragile.lane) (k := 0) (by decide) rfl hrun).2 _ hlast rfl
  rcases hended with ⟨hcrash, -⟩ | ⟨o', hdone, ⟨turns, haccounted⟩, -⟩
  · cases hcrash
  · obtain rfl := Task.done.inj hdone
    refine ⟨record, q, o, turns, hrun, hlast, hlength, hfault, ?_, haccounted⟩
    -- The fault is that of the second turn, so that there were two.
    obtain ⟨before, last, rfl, hbefore, hstopped⟩ := haccounted.stopped _ hfault
    have hone : before.length = 1 := by
      rcases last with fault | ⟨handle, timer, _ | fault⟩
      · cases hstopped
      · cases hstopped
      · exact (LaneFault.adapter.inj (Option.some.inj hstopped)).1
    obtain ⟨first, rfl⟩ := List.length_eq_one_iff.mp hone
    have hcalls := haccounted.calls
    obtain ⟨i, _, _, hi, hfirst⟩ := haccounted.own 0 first rfl
    obtain ⟨j, _, _, hj, hsecond⟩ := haccounted.own 1 last rfl
    obtain rfl := Option.some.inj hi
    obtain rfl := Option.some.inj hj
    cases hfirst with
    | undecodable h => cases h
    | triggered _ _ hdecode =>
      obtain rfl := Except.ok.inj hdecode
      cases hsecond with
      | undecodable h => cases h
      | triggered _ _ hdecode =>
        obtain rfl := Except.ok.inj hdecode
        exact hcalls

end Lane

end LedgerLoad
