import LedgerLoad.Clock.Pool

/-! # Runs of a pool

A pool that runs without a limit stops only when all its tasks have ended (`ended_drain`), and a
stop at a limit on the way does not change where it ends (`drain_run`). What each task does on its
own is said by `Task.Ends`: it reads a clock that never goes back, no sleep of it ends early, and of
what is shared nothing is assumed. `Task.Asks` says it with the calls that the task makes. Main statement: `Pool.ends_drain`, in a pool every task ends as
it can end on its own, whatever the others do. -/

namespace LedgerLoad

variable {σ α : Type}

namespace Duration

theorem le_refl (a : Duration) : a ≤ a := Nat.le_refl a.nanos

theorem le_trans {a b c : Duration} (h : a ≤ b) (h' : b ≤ c) : a ≤ c :=
  Nat.le_trans (m := b.nanos) h h'

theorem not_lt {a b : Duration} : ¬ a < b ↔ b ≤ a := Nat.not_lt

theorem le_of_not_le {a b : Duration} (h : ¬ a ≤ b) : b ≤ a := Nat.le_of_not_le h

theorem le_roundUp (d : Duration) : d ≤ d.roundUp := by
  show d.nanos ≤ (d.nanos + 999999) / 1000000 * 1000000
  omega

end Duration

/-! ### One task on its own -/

/-- `Ends clock t o`: from a moment on, a task can end with the result `o`, none if it breaks down.
The clock never goes back and no sleep ends early. -/
inductive Task.Ends : Duration → Task σ α → Option α → Prop
  | done {clock : Duration} {result : α} : Ends clock (.done result) (some result)
  | crash {clock : Duration} : Ends clock .crash none
  | now {clock read : Duration} {next : Duration → Task σ α} {o : Option α} (hle : clock ≤ read)
      (h : Ends read (next read) o) : Ends clock (.now next) o
  | sleepUntil {clock woken moment : Duration} {next : Task σ α} {o : Option α}
      (hle : clock ≤ woken)
      (hmoment : moment ≤ woken) (h : Ends woken next o) : Ends clock (.sleepUntil moment next) o
  | access {clock : Duration} {change : σ → σ} {next : σ → Task σ α} {o : Option α} (shared : σ)
      (h : Ends clock (next shared) o) : Ends clock (.access change next) o
  | call {clock : Duration} {call : Client.Call} {next : Task σ α} {o : Option α}
      (h : Ends clock next o) : Ends clock (.call call next) o
  | note {clock : Duration} {notice : Notice} {next : Task σ α} {o : Option α}
      (h : Ends clock next o) : Ends clock (.note notice next) o

/-- `Asks clock t calls o`: from a moment on, a task can make these calls, one after another, and
end with the result `o`, none if it breaks down. -/
inductive Task.Asks : Duration → Task σ α → List Client.Call → Option α → Prop
  | done {clock : Duration} {result : α} : Asks clock (.done result) [] (some result)
  | crash {clock : Duration} : Asks clock .crash [] none
  | now {clock read : Duration} {next : Duration → Task σ α} {calls : List Client.Call}
      {o : Option α} (hle : clock ≤ read) (h : Asks read (next read) calls o) :
      Asks clock (.now next) calls o
  | sleepUntil {clock woken moment : Duration} {next : Task σ α} {calls : List Client.Call}
      {o : Option α} (hle : clock ≤ woken) (hmoment : moment ≤ woken)
      (h : Asks woken next calls o) : Asks clock (.sleepUntil moment next) calls o
  | access {clock : Duration} {change : σ → σ} {next : σ → Task σ α} {calls : List Client.Call}
      {o : Option α} (shared : σ) (h : Asks clock (next shared) calls o) :
      Asks clock (.access change next) calls o
  | call {clock : Duration} {call : Client.Call} {next : Task σ α} {calls : List Client.Call}
      {o : Option α} (h : Asks clock next calls o) : Asks clock (.call call next) (call :: calls) o
  | note {clock : Duration} {notice : Notice} {next : Task σ α} {calls : List Client.Call}
      {o : Option α} (h : Asks clock next calls o) : Asks clock (.note notice next) calls o

namespace Task

theorem Asks.ends {clock : Duration} {t : Task σ α} {calls : List Client.Call} {o : Option α}
    (h : Asks clock t calls o) : Ends clock t o := by
  induction h with
  | done => exact .done
  | crash => exact .crash
  | now hle _ ih => exact .now hle ih
  | sleepUntil hle hmoment _ ih => exact .sleepUntil hle hmoment ih
  | access shared _ ih => exact .access shared ih
  | call _ ih => exact .call ih
  | note _ ih => exact .note ih

/-- However a task ends, it has made some calls by then. -/
theorem Ends.asks {clock : Duration} {t : Task σ α} {o : Option α} (h : Ends clock t o) :
    ∃ calls, Asks clock t calls o := by
  induction h with
  | done => exact ⟨_, .done⟩
  | crash => exact ⟨_, .crash⟩
  | now hle _ ih => exact ih.imp fun _ => .now hle
  | sleepUntil hle hmoment _ ih => exact ih.imp fun _ => .sleepUntil hle hmoment
  | access shared _ ih => exact ih.imp fun _ => .access shared
  | call _ ih =>
    obtain ⟨calls, ih⟩ := ih
    exact ⟨_, .call ih⟩
  | note _ ih => exact ih.imp fun _ => .note

theorem Asks.earlier {clock clock' : Duration} {t : Task σ α} {calls : List Client.Call}
    {o : Option α} (h : Asks clock' t calls o) (hle : clock ≤ clock') : Asks clock t calls o := by
  induction h generalizing clock with
  | done => exact .done
  | crash => exact .crash
  | now hread h _ => exact .now (Duration.le_trans hle hread) h
  | sleepUntil hwoken hmoment h _ => exact .sleepUntil (Duration.le_trans hle hwoken) hmoment h
  | access shared _ ih => exact .access shared (ih hle)
  | call _ ih => exact .call (ih hle)
  | note _ ih => exact .note (ih hle)

theorem Ends.earlier {clock clock' : Duration} {t : Task σ α} {o : Option α} (h : Ends clock' t o)
    (hle : clock ≤ clock') : Ends clock t o := by
  obtain ⟨calls, h⟩ := h.asks
  exact (h.earlier hle).ends

/-- What a task does between two sleeps is a part of what it can do on its own. -/
theorem Ends.of_advance {clock : Duration} {t : Task σ α} {shared : σ} {log : List Notice}
    {o : Option α} (h : Ends clock (advance clock t shared log).task o) : Ends clock t o := by
  induction t generalizing shared log with
  | done => exact h
  | crash => exact h
  | now next ih => exact .now (Duration.le_refl clock) (ih clock h)
  | sleepUntil moment next ih =>
    unfold advance at h
    split at h
    · rename_i hmoment
      exact .sleepUntil (Duration.le_refl clock) hmoment (ih h)
    · exact h
  | access change next ih => exact .access shared (ih shared h)
  | call call next ih => exact .call (ih h)
  | note notice next ih => exact .note (ih h)

theorem le_wakes {clock moment : Duration} {t : Task σ α} (h : t.wakes clock = some moment) :
    clock ≤ moment := by
  unfold wakes at h
  split at h
  · cases h
  · cases h
  · split at h <;> obtain rfl := Option.some.inj h
    · exact Duration.le_refl _
    · rename_i hle
      exact Duration.le_trans (Duration.le_of_not_le hle) (Duration.le_roundUp _)
  · obtain rfl := Option.some.inj h
    exact Duration.le_refl _

/-- A task whose turn has come does a part of what it can do on its own. -/
theorem Ends.of_resume {clock moment : Duration} {t : Task σ α} {shared : σ} {log : List Notice}
    {o : Option α} (hwakes : t.wakes clock = some moment)
    (h : Ends moment (resume moment t shared log).task o) : Ends clock t o := by
  have hle := le_wakes hwakes
  cases t with
  | sleepUntil target next =>
    have htarget : target ≤ moment := by
      rw [wakes] at hwakes
      split at hwakes <;> obtain rfl := Option.some.inj hwakes
      · assumption
      · exact Duration.le_roundUp target
    exact .sleepUntil hle htarget (of_advance h)
  | done | crash | now | access | call | note => exact (of_advance h).earlier hle

theorem wakes_eq_none_iff (clock : Duration) {t : Task σ α} :
    t.wakes clock = none ↔ t.ended = true := by
  cases t <;> simp [wakes, ended]

theorem Asks.of_ended {clock : Duration} {t : Task σ α} (h : t.ended = true) :
    Asks clock t [] t.result? := by
  cases t with
  | done => exact .done
  | crash => exact .crash
  | now | sleepUntil | access | call | note => cases h

theorem Ends.of_ended {clock : Duration} {t : Task σ α} (h : t.ended = true) :
    Ends clock t t.result? := (Asks.of_ended h).ends

/-- What a task does, without what it notes in the log. -/
def quiet : Task σ α → Task σ α
  | .done result => .done result
  | .crash => .crash
  | .now next => .now fun clock => (next clock).quiet
  | .sleepUntil moment next => .sleepUntil moment next.quiet
  | .access change next => .access change fun shared => (next shared).quiet
  | .call asked next => .call asked next.quiet
  | .note _ next => next.quiet

/-- What a task notes has no part in what it calls and how it ends. -/
theorem asks_quiet {clock : Duration} {t : Task σ α} {calls : List Client.Call} {o : Option α} :
    Asks clock t.quiet calls o ↔ Asks clock t calls o := by
  constructor
  · intro h
    induction t generalizing clock calls with
    | done | crash => exact h
    | now next ih =>
      cases h with
      | now hle h => exact .now hle (ih _ h)
    | sleepUntil moment next ih =>
      cases h with
      | sleepUntil hle hmoment h => exact .sleepUntil hle hmoment (ih h)
    | access change next ih =>
      cases h with
      | access shared h => exact .access shared (ih shared h)
    | call call next ih =>
      cases h with
      | call h => exact .call (ih h)
    | note notice next ih => exact .note (ih h)
  · intro h
    induction h with
    | done => exact .done
    | crash => exact .crash
    | now hle _ ih => exact .now hle ih
    | sleepUntil hle hmoment _ ih => exact .sleepUntil hle hmoment ih
    | access shared _ ih => exact .access shared ih
    | call _ ih => exact .call ih
    | note _ ih => exact ih

/-- Tasks that differ in their notes only can make the same calls and end in the same ways. -/
theorem Asks.of_quiet {clock : Duration} {t u : Task σ α} {calls : List Client.Call} {o : Option α}
    (h : Asks clock t calls o) (hquiet : t.quiet = u.quiet) : Asks clock u calls o := by
  rw [← asks_quiet, ← hquiet]
  exact asks_quiet.mpr h

theorem Ends.of_quiet {clock : Duration} {t u : Task σ α} {o : Option α} (h : Ends clock t o)
    (hquiet : t.quiet = u.quiet) : Ends clock u o := by
  obtain ⟨calls, h⟩ := h.asks
  exact (h.of_quiet hquiet).ends

end Task

/-! ### Steps of a pool -/

namespace Pool

theorem soonest_eq_none_iff (clock : Duration) {ts : List (Task σ α)} :
    soonest clock ts = none ↔ ts.all Task.ended = true := by
  induction ts with
  | nil => simp [soonest]
  | cons t ts ih =>
    rw [List.all_cons, Bool.and_eq_true, ← ih, ← Task.wakes_eq_none_iff clock, soonest]
    rcases hw : t.wakes clock with _ | moment <;> rcases hs : soonest clock ts with _ | ⟨other, i⟩
    · simp
    · simp
    · simp
    · simp only [reduceCtorEq, and_self, iff_false]
      split <;> simp

/-- A pool whose tasks have ended is not searched, but nothing would be found in it. -/
theorem step_eq (limit : Option Duration) (p : Pool σ α) : p.step limit =
    match soonest p.clock p.tasks with
    | none => none
    | some (moment, i) =>
      if beyond limit moment then none
      else
        match p.tasks[i]? with
        | none => none
        | some t =>
          let r := t.resume moment p.shared p.log
          some { clock := moment, shared := r.shared, tasks := p.tasks.set i r.task,
                 log := r.log } := by
  rw [step]
  split
  · rename_i hended
    rw [(soonest_eq_none_iff p.clock).mpr hended]
  · rfl

/-- What a step does: the clock moves to the moment at which some task can go on, and that task goes
on alone. -/
theorem step_cases {limit : Option Duration} {p q : Pool σ α} (h : p.step limit = some q) :
    ∃ moment i t, soonest p.clock p.tasks = some (moment, i) ∧ beyond limit moment = false ∧
      p.tasks[i]? = some t ∧ t.wakes p.clock = some moment ∧
      q = { clock := moment, shared := (t.resume moment p.shared p.log).shared,
            tasks := p.tasks.set i (t.resume moment p.shared p.log).task,
            log := (t.resume moment p.shared p.log).log } := by
  rw [step_eq] at h
  split at h
  · cases h
  · rename_i moment i hs
    split at h
    · cases h
    · rename_i hbeyond
      obtain ⟨t, ht, hw⟩ := soonest_wakes hs
      rw [ht] at h
      exact ⟨moment, i, t, hs, by simpa using hbeyond, ht, hw, (Option.some.inj h).symm⟩

theorem step_none_eq_none_iff {p : Pool σ α} : p.step none = none ↔ p.ended = true := by
  rw [ended, ← soonest_eq_none_iff p.clock, step_eq]
  rcases hs : soonest p.clock p.tasks with _ | ⟨moment, i⟩
  · simp
  · obtain ⟨t, ht, -⟩ := soonest_wakes hs
    simp [beyond, ht]

theorem step_of_limit {m : Duration} {p q : Pool σ α} (h : p.step (some m) = some q) :
    p.step none = some q := by
  obtain ⟨moment, i, t, hs, -, ht, -, rfl⟩ := step_cases h
  simp [step_eq, hs, beyond, ht]

theorem run_eq {limit : Option Duration} {p : Pool σ α} :
    p.run limit = match p.step limit with
      | none => p
      | some q => q.run limit := by
  rw [run]
  split
  · rename_i heq
    simp only [heq]
  · rename_i q heq
    simp only [heq]

theorem run_of_step {limit : Option Duration} {p q : Pool σ α} (h : p.step limit = some q) :
    p.run limit = q.run limit := by
  rw [run_eq, h]

/-- What holds of a pool that stops, and of a pool if it holds after a step, holds of all. -/
theorem run_induction {motive : Pool σ α → Prop} (limit : Option Duration)
    (stop : ∀ p, p.step limit = none → motive p)
    (step : ∀ p q, p.step limit = some q → motive q → motive p) (p : Pool σ α) : motive p := by
  induction p using run.induct limit with
  | case1 p h => exact stop p h
  | case2 p q h _ ih => exact step p q h ih

/-! ### Whole runs -/

theorem step_run (limit : Option Duration) (p : Pool σ α) : (p.run limit).step limit = none := by
  induction p using run_induction limit with
  | stop p h =>
    rw [run_eq, h]
    exact h
  | step p q h ih => rw [run_of_step h]; exact ih

theorem ended_drain (p : Pool σ α) : p.drain.ended = true :=
  step_none_eq_none_iff.mp (step_run none p)

theorem drain_of_ended {p : Pool σ α} (h : p.ended = true) : p.drain = p := by
  rw [drain, run_eq, step_none_eq_none_iff.mpr h]

/-- A stop on the way does not change where a pool ends. -/
theorem drain_run (limit : Option Duration) (p : Pool σ α) : (p.run limit).drain = p.drain := by
  induction p using run_induction limit with
  | stop p h => rw [run_eq, h]
  | step p q h ih =>
    have hnone : p.step none = some q := by
      cases limit with
      | none => exact h
      | some m => exact step_of_limit h
    rw [run_of_step h, ih, drain, drain, run_of_step hnone]

theorem length_tasks_run (limit : Option Duration) (p : Pool σ α) :
    (p.run limit).tasks.length = p.tasks.length := by
  induction p using run_induction limit with
  | stop p h => rw [run_eq, h]
  | step p q h ih =>
    obtain ⟨moment, i, t, -, -, -, -, rfl⟩ := step_cases h
    rw [run_of_step h, ih]
    simp

theorem clock_le_run (limit : Option Duration) (p : Pool σ α) : p.clock ≤ (p.run limit).clock := by
  induction p using run_induction limit with
  | stop p h => rw [run_eq, h]; exact Duration.le_refl _
  | step p q h ih =>
    obtain ⟨moment, i, t, -, -, -, hw, rfl⟩ := step_cases h
    rw [run_of_step h]
    exact Duration.le_trans (Task.le_wakes hw) ih

/-- A run up to a limit that has not passed leaves the clock at the limit or before. -/
theorem clock_run_le {m : Duration} {p : Pool σ α} (hp : p.clock ≤ m) :
    (p.run (some m)).clock ≤ m := by
  induction p using run_induction (some m) with
  | stop p h => rw [run_eq, h]; exact hp
  | step p q h ih =>
    obtain ⟨moment, i, t, -, hbeyond, -, -, rfl⟩ := step_cases h
    rw [run_of_step h]
    refine ih ?_
    simpa [beyond, Duration.not_lt] using hbeyond

/-- **In a pool every task ends as it can end on its own.** -/
theorem ends_drain (p : Pool σ α) {i : Nat} {t : Task σ α} (ht : p.tasks[i]? = some t) :
    ∃ last, p.drain.tasks[i]? = some last ∧ last.ended = true ∧
      Task.Ends p.clock t last.result? := by
  induction p using run_induction none generalizing t with
  | stop p h =>
    have hended := step_none_eq_none_iff.mp h
    have hlast := List.all_eq_true.mp hended t (List.mem_of_getElem? ht)
    rw [drain_of_ended hended]
    exact ⟨t, ht, hlast, .of_ended hlast⟩
  | step p q h ih =>
    obtain ⟨moment, j, u, -, -, hu, hw, rfl⟩ := step_cases h
    have hdrain : p.drain = Pool.drain _ := run_of_step h
    rw [hdrain]
    by_cases hij : j = i
    · subst hij
      obtain rfl : u = t := Option.some.inj (hu.symm.trans ht)
      have hlt : j < p.tasks.length := (List.getElem?_eq_some_iff.mp ht).1
      obtain ⟨last, hlast, hended, hends⟩ := ih (List.getElem?_set_self hlt)
      exact ⟨last, hlast, hended, .of_resume hw hends⟩
    · obtain ⟨last, hlast, hended, hends⟩ := ih (by
        simp only [List.getElem?_set_ne hij]
        exact ht)
      exact ⟨last, hlast, hended, hends.earlier (Task.le_wakes hw)⟩

end Pool

end LedgerLoad
