import LedgerLoad.Adapter.Script

/-! # Tasks on a clock

A task is a program that reads the clock, sleeps until a moment, looks at and changes what it shares
with other tasks, calls a client, notes something in the log, and at last ends with a result or breaks
down. Between two sleeps no time passes. Main statements: `wellFounded_next`, every task comes to an end whatever it
is told, and `resume_next`, a task that goes on has less before it. -/

namespace LedgerLoad

/-- How serious an entry of the log is. -/
inductive Level
  | warn
  | error
deriving DecidableEq, Repr

/-- An entry of the log: what happened, and to what. -/
structure Notice where
  level : Level
  message : String
  fields : List (String × String)
deriving DecidableEq, Repr

/-- A program that runs on a clock; tasks that run together share a `σ`. -/
inductive Task (σ α : Type) : Type
  | done (result : α)
  /-- The task breaks down and has no result. -/
  | crash
  | now (next : Duration → Task σ α)
  /-- Sleeps until the clock has reached a moment. -/
  | sleepUntil (moment : Duration) (next : Task σ α)
  /-- Changes what is shared, in one step, and goes on with what it was before. -/
  | access (change : σ → σ) (next : σ → Task σ α)
  /-- Calls a client, and goes on with what the client answers. -/
  | call (call : Client.Call) (next : Task σ α)
  | note (notice : Notice) (next : Task σ α)

namespace Task

variable {σ α : Type}

/-! ### What is left of a task -/

/-- `Next u t`: the task `t` has taken one step and is now `u`. -/
inductive Next : Task σ α → Task σ α → Prop
  | now {next : Duration → Task σ α} (clock : Duration) : Next (next clock) (.now next)
  | sleepUntil {moment : Duration} {next : Task σ α} : Next next (.sleepUntil moment next)
  | access {change : σ → σ} {next : σ → Task σ α} (shared : σ) :
      Next (next shared) (.access change next)
  | call {call : Client.Call} {next : Task σ α} : Next next (.call call next)
  | note {notice : Notice} {next : Task σ α} : Next next (.note notice next)

theorem wellFounded_next : WellFounded (Next (σ := σ) (α := α)) := by
  refine ⟨fun t => ?_⟩
  induction t with
  | done => exact ⟨_, fun u h => nomatch h⟩
  | crash => exact ⟨_, fun u h => nomatch h⟩
  | now next ih => exact ⟨_, fun u h => by cases h; exact ih _⟩
  | sleepUntil moment next ih => exact ⟨_, fun u h => by cases h; exact ih⟩
  | access change next ih => exact ⟨_, fun u h => by cases h; exact ih _⟩
  | call call next ih => exact ⟨_, fun u h => by cases h; exact ih⟩
  | note notice next ih => exact ⟨_, fun u h => by cases h; exact ih⟩

/-! ### Going on -/

/-- A task between two sleeps, what is shared, and what was written to the log, latest first. -/
structure Progress (σ α : Type) where
  task : Task σ α
  shared : σ
  log : List Notice

/-- Goes on with a task at a moment until it ends or has to sleep. -/
def advance (clock : Duration) : Task σ α → σ → List Notice → Progress σ α
  | .done result, shared, log => ⟨.done result, shared, log⟩
  | .crash, shared, log => ⟨.crash, shared, log⟩
  | .now next, shared, log => advance clock (next clock) shared log
  | .sleepUntil moment next, shared, log =>
    if moment ≤ clock then advance clock next shared log
    else ⟨.sleepUntil moment next, shared, log⟩
  | .access change next, shared, log => advance clock (next shared) (change shared) log
  | .call _ next, shared, log => advance clock next shared log
  | .note notice next, shared, log => advance clock next shared (notice :: log)

/-- Goes on with a task whose time has come: a sleep at its head is over. -/
def resume (clock : Duration) : Task σ α → σ → List Notice → Progress σ α
  | .sleepUntil _ next, shared, log => advance clock next shared log
  | t, shared, log => advance clock t shared log

/-- The first moment at which a task can go on, if it has not ended. A sleep is over at the first
whole millisecond that is not before its moment, and a task that does not sleep goes on at once. -/
def wakes (clock : Duration) : Task σ α → Option Duration
  | .done _ => none
  | .crash => none
  | .sleepUntil moment _ => some (if moment ≤ clock then clock else moment.roundUp)
  | _ => some clock

/-- Whether a task has ended. -/
def ended : Task σ α → Bool
  | .done _ => true
  | .crash => true
  | _ => false

/-- The result of a task that has ended well. -/
def result? : Task σ α → Option α
  | .done result => some result
  | _ => none

/-- What is left after one step, or less than that, is less than there was. -/
theorem less_of_next {u v t : Task σ α} (hu : Next u t)
    (hv : v = u ∨ Relation.TransGen Next v u) : Relation.TransGen Next v t := by
  rcases hv with rfl | hv
  · exact .single hu
  · exact .tail hv hu

/-- What going on leaves of a task is the task itself or less. -/
theorem advance_next (clock : Duration) (t : Task σ α) (shared : σ) (log : List Notice) :
    (advance clock t shared log).task = t ∨
      Relation.TransGen Next (advance clock t shared log).task t := by
  induction t generalizing shared log with
  | done => exact Or.inl rfl
  | crash => exact Or.inl rfl
  | now next ih => exact Or.inr (less_of_next (.now clock) (ih clock shared log))
  | sleepUntil moment next ih =>
    unfold advance
    split
    · exact Or.inr (less_of_next .sleepUntil (ih shared log))
    · exact Or.inl rfl
  | access change next ih =>
    exact Or.inr (less_of_next (.access shared) (ih shared (change shared) log))
  | call call next ih => exact Or.inr (less_of_next .call (ih shared log))
  | note notice next ih => exact Or.inr (less_of_next .note (ih shared (notice :: log)))

/-- A task that has not ended has less before it after it went on. -/
theorem resume_next {clock : Duration} {t : Task σ α} (shared : σ) (log : List Notice)
    (h : t.wakes clock ≠ none) (moment : Duration) :
    Relation.TransGen Next (resume moment t shared log).task t := by
  cases t with
  | done => exact absurd rfl h
  | crash => exact absurd rfl h
  | now next => exact less_of_next (.now moment) (advance_next moment (next moment) shared log)
  | sleepUntil _ next => exact less_of_next .sleepUntil (advance_next moment next shared log)
  | access change next =>
    exact less_of_next (.access shared) (advance_next moment (next shared) (change shared) log)
  | call call next => exact less_of_next .call (advance_next moment next shared log)
  | note notice next => exact less_of_next .note (advance_next moment next shared (notice :: log))

end Task

end LedgerLoad
