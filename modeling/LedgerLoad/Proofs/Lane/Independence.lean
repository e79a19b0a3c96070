import LedgerLoad.Proofs.Clock.Interleaving
import LedgerLoad.Proofs.Lane.Walk

/-! # Lanes beside one another

What a client does with an interaction may depend on what its interactions share, and so on what
other lanes have done before. Nothing of that shows in the table of a lane if the timer calls, the
sleeps and the end of a script are the same whatever it finds shared (`Client.Determined`). Main
statement: `Crew.lanes_independent`, the secondary then reports of each lane what the lane leaves
behind when it runs with nobody beside it, in whatever order the lanes take their steps. -/

namespace LedgerLoad

variable {σ : Type}

/-! ### Scripts that hide what is shared -/

/-- What a timer and a clock see of a script. -/
inductive Script.View : Type
  | done
  | fail (fault : AdapterFault)
  | crash
  | record (event : Event) (next : Except TimingViolation Unit → View)
  | sleep (span : Duration) (next : View)

/-- `Shows script seen`: whatever it finds shared, a timer and a clock see the same of a script. -/
inductive Script.Shows : Script σ → View → Prop
  | done : Shows .done .done
  | fail {fault : AdapterFault} : Shows (.fail fault) (.fail fault)
  | crash : Shows .crash .crash
  | record {event : Event} {next : Except TimingViolation Unit → Script σ}
      {seen : Except TimingViolation Unit → View}
      (h : ∀ answer, Shows (next answer) (seen answer)) :
      Shows (.record event next) (.record event seen)
  | sleep {span : Duration} {next : Script σ} {seen : View} (h : Shows next seen) :
      Shows (.sleep span next) (.sleep span seen)
  | access {change : σ → σ} {next : σ → Script σ} {seen : View}
      (h : ∀ shared, Shows (next shared) seen) : Shows (.access change next) seen

/-- A client whose scripts show nothing but what the payload says. -/
def Client.Determined (client : Client σ) : Prop :=
  ∃ view : Bytes → Script.View, ∀ payload handle, client.decode payload = .ok handle →
    (client.trigger handle).Shows (view payload)

/-- How a script that is not kept waiting ends: when, with what timer, and whether well. -/
structure Finale where
  clock : Duration
  timer : Timer
  ending : Ending

/-- How a script that is not kept waiting ends, by what is seen of it; none if it breaks down. -/
def Script.View.finale (clock : Duration) (timer : Timer) : View → Option Finale
  | .done => some ⟨clock, timer, .done⟩
  | .fail fault => some ⟨clock, timer, .failed fault⟩
  | .crash => none
  | .record event next =>
    let entered := timer.enter event clock
    (next entered.2).finale clock entered.1
  | .sleep span next => next.finale (clock.woken (clock + span)) timer

/-! ### Tasks that can end in one way only -/

namespace Task

variable {α : Type}

/-- There is at most one way in which a task ends if nobody keeps it waiting. -/
def Certain (clock : Duration) (t : Task σ α) : Prop :=
  ∀ ⦃o o'⦄, Settles clock t o → Settles clock t o' → o = o'

variable {clock : Duration} {o : Option α}

theorem Settles.of_noteRefusal {answer : Except TimingViolation Unit} {next : Task σ α}
    (h : Settles clock (noteRefusal answer next) o) : Settles clock next o := by
  unfold noteRefusal at h
  split at h
  · exact h
  · cases h with
    | note h => exact h

theorem certain_done {result : α} : Certain (σ := σ) clock (.done result) := by
  intro o o' h h'
  cases h
  cases h'
  rfl

theorem certain_crash : Certain clock (.crash : Task σ α) := by
  intro o o' h h'
  cases h
  cases h'
  rfl

theorem Certain.now {next : Duration → Task σ α} (h : Certain clock (next clock)) :
    Certain clock (.now next) := by
  intro o o' hnext hnext'
  cases hnext with
  | now hnext =>
    cases hnext' with
    | now hnext' => exact h hnext hnext'

theorem Certain.sleepUntil {moment : Duration} {next : Task σ α}
    (h : Certain (clock.woken moment) next) : Certain clock (.sleepUntil moment next) := by
  intro o o' hnext hnext'
  cases hnext with
  | sleepUntil hnext =>
    cases hnext' with
    | sleepUntil hnext' => exact h hnext hnext'

theorem Certain.call {asked : Client.Call} {next : Task σ α} (h : Certain clock next) :
    Certain clock (.call asked next) := by
  intro o o' hnext hnext'
  cases hnext with
  | call hnext =>
    cases hnext' with
    | call hnext' => exact h hnext hnext'

theorem Certain.note {notice : Notice} {next : Task σ α} (h : Certain clock next) :
    Certain clock (.note notice next) := by
  intro o o' hnext hnext'
  cases hnext with
  | note hnext =>
    cases hnext' with
    | note hnext' => exact h hnext hnext'

theorem Certain.of_ite {c : Prop} [Decidable c] {t u : Task σ α} (ht : Certain clock t)
    (hu : Certain clock u) : Certain clock (if c then t else u) := by
  by_cases h : c
  · rw [if_pos h]
    exact ht
  · rw [if_neg h]
    exact hu

end Task

/-- What follows a script goes on where the script ends by what is seen of it. -/
theorem Script.settles_of_toTask {α : Type} {script : Script σ} {seen : Script.View}
    {clock : Duration} {timer : Timer} {finish : Timer → Ending → Task σ α} {o : Option α}
    (hshows : script.Shows seen) (h : Task.Settles clock (script.toTask timer finish) o) :
    (seen.finale clock timer).elim (o = none) fun e =>
      Task.Settles e.clock (finish e.timer e.ending) o := by
  induction hshows generalizing clock timer with
  | done | fail => exact h
  | crash =>
    cases h
    rfl
  | record _ ih =>
    cases h with
    | now h => exact ih _ h.of_noteRefusal
  | sleep _ ih =>
    cases h with
    | now h =>
      cases h with
      | sleepUntil h => exact ih h
  | access _ ih =>
    cases h with
    | access shared h => exact ih shared h

/-- What is shared leaves a script that hides it no choice. -/
theorem Script.certain_toTask {α : Type} {script : Script σ} {seen : Script.View}
    {clock : Duration} {timer : Timer} {finish : Timer → Ending → Task σ α}
    (hshows : script.Shows seen)
    (hfinish : ∀ clock timer ending, Task.Certain clock (finish timer ending)) :
    Task.Certain clock (script.toTask timer finish) := by
  intro o o' h h'
  have hend := settles_of_toTask hshows h
  have hend' := settles_of_toTask hshows h'
  cases hseen : seen.finale clock timer with
  | none =>
    rw [hseen] at hend hend'
    exact Eq.trans hend (Eq.symm hend')
  | some e =>
    rw [hseen] at hend hend'
    exact hfinish e.clock e.timer e.ending hend hend'

/-! ### One lane -/

namespace Lane

variable {l : Lane σ} {origin clock : Duration}

theorem certain_noteSkew {slot : Nat} {skew : Duration} {next : Task σ LaneOutcome}
    (h : Task.Certain clock next) : Task.Certain clock (l.noteSkew slot skew next) :=
  .of_ite h.note h

theorem certain_noteDelay {slot : Nat} {elapsed : Duration} {next : Task σ LaneOutcome}
    (h : Task.Certain clock next) : Task.Certain clock (l.noteDelay slot elapsed next) :=
  .of_ite h.note h

theorem certain_noteIncomplete {slot : Nat} {ending : Ending} {timing : Timing}
    {next : Task σ LaneOutcome} (h : Task.Certain clock next) :
    Task.Certain clock (l.noteIncomplete slot ending timing next) := .of_ite h.note h

theorem certain_settle {slot : Nat} {r : LaneResult} {timing : Timing} {ending : Ending}
    {next : LaneResult → Task σ LaneOutcome} (hnext : ∀ r, Task.Certain clock (next r)) :
    Task.Certain clock (l.settle slot r timing ending next) := by
  refine certain_noteIncomplete (.of_ite ?_ Task.certain_crash)
  cases ending with
  | done => exact hnext _
  | failed fault => exact Task.certain_done.note

/-- **A lane ends in one way only** if its client goes by the payloads. -/
theorem certain_walk (hclient : l.client.Determined) (rest : Shard) (slot : Nat) (r : LaneResult) :
    Task.Certain clock (l.walk origin slot rest r) := by
  obtain ⟨view, hview⟩ := hclient
  induction rest generalizing clock slot r with
  | nil => exact Task.certain_done
  | cons i rest ih =>
    refine .sleepUntil (.now (certain_noteSkew (.call ?_)))
    cases hdecode : l.client.decode i.payload with
    | error fault => exact Task.certain_done.note
    | ok handle =>
      refine .now (.call (Script.certain_toTask (hview _ _ hdecode) fun clock timer ending => ?_))
      refine .now ?_
      exact certain_noteDelay (certain_settle fun r => ih (slot + 1) r)

/-- A lane with nobody beside it, and what its client's interactions share at first. -/
def solo (l : Lane σ) (shared : σ) (origin : Duration) : Pool σ LaneOutcome :=
  { clock := origin, shared, tasks := [l.task origin], log := [] }

/-- What a lane with nobody beside it ends with, none if it breaks down. -/
def alone (l : Lane σ) (shared : σ) (origin : Duration) : Option LaneOutcome :=
  (l.solo shared origin).drain.tasks.head?.bind Task.result?

theorem settles_alone (l : Lane σ) (shared : σ) (origin : Duration) :
    Task.Settles origin (l.task origin) (l.alone shared origin) := by
  obtain ⟨last, hlast, -, hsettles⟩ :=
    Pool.settles_of_reaches (i := 0) (Pool.reaches_run none (l.solo shared origin))
      (Pool.ended_drain _) rfl
  have halone : l.alone shared origin = last.result? := by
    rw [alone, List.head?_eq_getElem?]
    exact congrArg (·.bind Task.result?) hlast
  rw [halone]
  exact hsettles

end Lane

/-! ### All lanes -/

namespace Crew

/-- What it means that the lanes of a secondary do not get in one another's way. -/
structure Independent (shard : Shard) (client : Client σ) (shared : σ) (settings : LaneSettings)
    (origin : Duration) : Prop where
  /-- The crew's own way to run the lanes is one among others. -/
  own : (start shard client shared settings origin).pool.Reaches
    (start shard client shared settings origin).finish.pool
  /-- In whatever order the lanes take their steps, they take only so many. -/
  ends : Acc (fun q p => Pool.Moves p q) (start shard client shared settings origin).pool
  /-- Nor do they stop before all have ended. -/
  goesOn : ∀ p, (start shard client shared settings origin).pool.Reaches p → p.ended = false →
    ∃ q, Pool.Moves p q
  /-- What is reported once all have ended is in the order of the lanes, and of each it is what the
  lane alone ends with; of one that breaks down alone no interaction counts as reached. -/
  result : ∀ lone q, (start shard client shared settings origin).pool.Reaches q →
    q.ended = true →
    Crew.result { start shard client shared settings origin with pool := q } =
      ⟨(lanes shard client settings).map fun l =>
        match l.alone lone origin with
        | some outcome => outcome.result
        | none => .unreached l.length⟩
  /-- So are the faults; the one of a lane that breaks down alone says no more than that. -/
  faults : ∀ lone q, (start shard client shared settings origin).pool.Reaches q →
    q.ended = true →
    Crew.faults { start shard client shared settings origin with pool := q } =
      (lanes shard client settings).filterMap fun l =>
        match l.alone lone origin with
        | some outcome => outcome.fault.map fun fault => (l.id, fault)
        | none => some (l.id, .aborted breakdown)

variable {shard : Shard} {client : Client σ} {shared : σ} {settings : LaneSettings}
  {origin : Duration} {q : Pool σ LaneOutcome}

theorem outcome_eq (length : Nat) (t : Task σ LaneOutcome) :
    outcome length t = t.result?.getD ⟨.unreached length, some (.aborted breakdown)⟩ := by
  unfold outcome
  cases t.result? <;> rfl

/-- Once all lanes have ended, each has ended as it does alone. -/
theorem outcomes_of_reaches (h : client.Determined) (lone : σ)
    (hq : (start shard client shared settings origin).pool.Reaches q) (hended : q.ended = true) :
    outcomes { start shard client shared settings origin with pool := q } =
      (lanes shard client settings).map fun l =>
        (l.alone lone origin).getD ⟨.unreached l.length, some (.aborted breakdown)⟩ := by
  refine List.ext_getElem? fun id => ?_
  rw [outcomes, List.getElem?_zipWith]
  simp only [start, List.getElem?_map]
  cases hl : (lanes shard client settings)[id]? with
  | none => rfl
  | some l =>
    have htask : (start shard client shared settings origin).pool.tasks[id]? =
        some (l.task origin) := by
      simp [start, hl]
    obtain ⟨last, hlast, -, hsettles⟩ := Pool.settles_of_reaches hq hended htask
    have hclient : l.client.Determined := by
      obtain ⟨-, -, rfl⟩ := List.mem_map.mp (List.mem_of_getElem? hl)
      exact h
    have hsame : last.result? = l.alone lone origin :=
      Lane.certain_walk hclient _ _ _ hsettles (l.settles_alone lone origin)
    simp only [hlast, Option.map_some]
    rw [outcome_eq, hsame]

/-- The faults of a crew, by the outcomes of its lanes. -/
theorem faults_of_outcomes {c : Crew σ} {f : Lane σ → LaneOutcome}
    (h : c.outcomes = (lanes shard client settings).map f) :
    c.faults = (lanes shard client settings).filterMap fun l =>
      (f l).fault.map fun fault => (l.id, fault) := by
  have hnumbers : (List.range settings.count).zipIdx =
      (List.range settings.count).map fun id => (id, id) := by
    refine List.ext_getElem (by simp) fun id h h' => ?_
    simp
  rw [faults, h, lanes, List.map_map, List.zipIdx_map, hnumbers, List.map_map, List.filterMap_map,
    List.filterMap_map]
  rfl

/-- **The lanes of a secondary do not get in one another's way** if the client goes by the payloads:
in whatever order they take their steps, what the secondary reports of each lane is what that lane
ends with when it runs alone from the same start. -/
theorem lanes_independent (h : client.Determined) :
    Independent shard client shared settings origin where
  own := Pool.reaches_run none _
  ends := Pool.wellFounded_moves.apply _
  goesOn := fun _ _ hopen => Pool.exists_moves hopen
  result := by
    intro lone q hq hended
    rw [result, outcomes_of_reaches h lone hq hended, List.map_map]
    refine congrArg SecondaryResult.mk (List.map_congr_left fun l _ => ?_)
    simp only [Function.comp_apply]
    cases l.alone lone origin <;> rfl
  faults := by
    intro lone q hq hended
    rw [faults_of_outcomes (outcomes_of_reaches h lone hq hended)]
    refine congrArg (List.filterMap · _) (funext fun l => ?_)
    cases l.alone lone origin <;> rfl

end Crew

/-! ### Two lanes that stop early -/

namespace Tally

/-- A client that counts its interactions, and breaks down where a payload is too short. -/
def client : Client Nat where
  decode
    | [] => .error (.malformed "empty")
    | [_] => .ok (.text "short")
    | _ :: _ :: _ => .ok (.number 0)
  trigger handle := .access (· + 1) fun _ =>
    match handle with
    | .number _ => .record .submit fun _ => .sleep (.ofMillis 3) (.record .commit fun _ => .done)
    | _ => .crash

/-- What is seen of an interaction of this client. -/
def view : Bytes → Script.View
  | [_] => .crash
  | _ => .record .submit fun _ => .sleep (.ofMillis 3) (.record .commit fun _ => .done)

theorem determined : client.Determined := by
  refine ⟨view, fun payload handle hdecode => .access fun _ => ?_⟩
  match payload with
  | [] => cases hdecode
  | [_] =>
    obtain rfl := Except.ok.inj hdecode
    exact .crash
  | _ :: _ :: _ =>
    obtain rfl := Except.ok.inj hdecode
    exact .record fun _ => .sleep (.record fun _ => .done)

/-- The first lane breaks down, the second finds nothing to decode. -/
def shard : Shard := [⟨.ofMillis 2, [7]⟩, ⟨.ofMillis 2, []⟩, ⟨.ofMillis 5, [1, 2]⟩]

def settings : LaneSettings := { LaneSettings.usual with lanes := 2 }

theorem alone_first : Lane.alone ⟨0, shard, client, settings⟩ 0 ⟨0⟩ = none := by
  refine Lane.certain_walk determined _ _ _ (Lane.settles_alone _ _ _) ?_
  exact .sleepUntil (.now (.call (.now (.call (.access 0 .crash)))))

theorem alone_second : Lane.alone ⟨1, shard, client, settings⟩ 0 ⟨0⟩ =
    some ⟨.unreached 1, some (.decode 0 (.malformed "empty"))⟩ := by
  refine Lane.certain_walk determined _ _ _ (Lane.settles_alone _ _ _) ?_
  exact .sleepUntil (.now (.call (.note .done)))

end Tally

/-- Two lanes whose client counts what both do; the one that breaks down takes nothing from the
other. -/
theorem Crew.lanes_independent_tally : Tally.client.Determined ∧
    Crew.Independent Tally.shard Tally.client 0 Tally.settings ⟨0⟩ ∧
    (Crew.start Tally.shard Tally.client 0 Tally.settings ⟨0⟩).finish.faults =
      [(0, .aborted Crew.breakdown), (1, .decode 0 (.malformed "empty"))] := by
  have hindependent : Crew.Independent Tally.shard Tally.client 0 Tally.settings ⟨0⟩ :=
    lanes_independent Tally.determined
  have hfaults := hindependent.faults 0 _ hindependent.own (Pool.ended_drain _)
  refine ⟨Tally.determined, hindependent, hfaults.trans ?_⟩
  show List.filterMap _ [(⟨0, _, _, _⟩ : Lane Nat), ⟨1, _, _, _⟩] = _
  simp only [List.filterMap_cons, Tally.alone_first, Tally.alone_second]
  rfl

end LedgerLoad
