import LedgerLoad.Adapter.Script
import LedgerLoad.Clock.Task

/-! # Timers

A timer enters the events of one interaction with their times since the start of the run. An event
out of order is refused, counted and logged, and changes no time. -/

namespace LedgerLoad

/-- The timer of one interaction. -/
structure Timer where
  /-- The start of the run on the clock. -/
  origin : Duration
  timing : Timing
  /-- How many events were refused. There are never more than events were entered, so a counter of 32
  bits holds the number for up to `2 ^ 32 - 1` events (`Timer.Followed.counter`). -/
  violations : Nat

namespace Timer

/-- A timer that has entered nothing. -/
def start (origin : Duration) : Timer := ⟨origin, .unreached, 0⟩

/-- A moment in seconds since the start of the run; before the start it is zero. -/
def secondsAt (t : Timer) (clock : Duration) : Float := (clock.since t.origin).toSeconds

/-- Enters an event at a moment. -/
def enter (t : Timer) (event : Event) (clock : Duration) :
    Timer × Except TimingViolation Unit :=
  match t.timing.record event (t.secondsAt clock) with
  | .ok timing => ({ t with timing }, .ok ())
  | .error violation => ({ t with violations := t.violations + 1 }, .error violation)

/-- What is logged of a refused event. -/
def notice (violation : TimingViolation) : Notice :=
  ⟨.warn, "Adapter broke the timing protocol", [("violation", violation.message)]⟩

end Timer

/-- How a script ended. -/
inductive Ending
  | done
  | failed (fault : AdapterFault)
deriving DecidableEq, Repr

/-- Notes a refused event, and goes on. -/
def Task.noteRefusal {σ α : Type} (answer : Except TimingViolation Unit) (next : Task σ α) :
    Task σ α :=
  match answer with
  | .ok () => next
  | .error violation => .note (Timer.notice violation) next

/-- A script as a task, with a timer; `finish` goes on after its end. -/
def Script.toTask {σ α : Type} (script : Script σ) (timer : Timer)
    (finish : Timer → Ending → Task σ α) : Task σ α :=
  match script with
  | .done => finish timer .done
  | .fail fault => finish timer (.failed fault)
  | .crash => .crash
  | .record event next =>
    .now fun clock =>
      let entered := timer.enter event clock
      .noteRefusal entered.2 ((next entered.2).toTask entered.1 finish)
  | .sleep span next => .now fun clock => .sleepUntil (clock + span) (next.toTask timer finish)
  | .access change next => .access change fun shared => (next shared).toTask timer finish

namespace Client

variable {σ α : Type}

/-- Lets a client decode a payload. -/
def decoding (c : Client σ) (payload : Bytes) (next : Except PayloadFault Handle → Task σ α) :
    Task σ α := .call (.decode payload) (next (c.decode payload))

/-- Lets a client trigger what it made of a payload, with a timer. -/
def triggering (c : Client σ) (handle : Handle) (timer : Timer)
    (finish : Timer → Ending → Task σ α) : Task σ α :=
  .call (.trigger handle) ((c.trigger handle).toTask timer finish)

end Client

end LedgerLoad
