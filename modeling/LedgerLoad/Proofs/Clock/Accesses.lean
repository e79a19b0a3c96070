import LedgerLoad.Proofs.Clock.Traces

/-! # What tasks find shared

The tasks of a pool share a `σ`. `Pool.Runs` is a run of which every access to what is shared is
seen: which task made it, what it found and what it left.

* `Pool.Runs.follows`: the accesses of all tasks are one chain, each finds what the one before it
  left.
* `Pool.Runs.makes`: a task that has ended has made, in the order of the record, the accesses that
  it can make on its own (`Task.Makes`), and ended accordingly.
* `Pool.exists_runs_ended`: every run goes on to an end of all tasks. -/

namespace LedgerLoad

variable {σ α : Type}

/-- One access to what is shared: what it found, and what it left. -/
structure Access (σ : Type) where
  found : σ
  left : σ

/-- The accesses of a run in their order, each with the place of the task that made it. -/
abbrev Record (σ : Type) := Trace (Access σ)

namespace Record

/-- `Follows s as s'`: the first access finds `s`, each other finds what the one before it left, and
`s'` is left in the end. -/
inductive Follows : σ → Record σ → σ → Prop
  | nil {s : σ} : Follows s [] s
  | cons {i : Nat} {a : Access σ} {as : Record σ} {s' : σ} (h : Follows a.left as s') :
      Follows a.found ((i, a) :: as) s'

variable {as bs : Record σ} {s s' s'' : σ}

theorem Follows.append (h : Follows s as s') (h' : Follows s' bs s'') :
    Follows s (as ++ bs) s'' := by
  induction h with
  | nil => exact h'
  | cons _ ih => exact .cons (ih h')

end Record

namespace Task

/-- The access that is the next step of a task, if it is one. -/
def accessing (shared : σ) : Task σ α → List (Access σ)
  | .access change _ => [⟨shared, change shared⟩]
  | _ => []

/-- `Makes t as o`: a task that makes the accesses `as`, whatever it finds, can end with the result
`o`, none if it breaks down. -/
inductive Makes : Task σ α → List (Access σ) → Option α → Prop
  | done {result : α} : Makes (.done result) [] (some result)
  | crash : Makes .crash [] none
  | now {next : Duration → Task σ α} {as : List (Access σ)} {o : Option α} (clock : Duration)
      (h : Makes (next clock) as o) : Makes (.now next) as o
  | sleepUntil {moment : Duration} {next : Task σ α} {as : List (Access σ)} {o : Option α}
      (h : Makes next as o) : Makes (.sleepUntil moment next) as o
  | access {change : σ → σ} {next : σ → Task σ α} {as : List (Access σ)} {o : Option α} (shared : σ)
      (h : Makes (next shared) as o) :
      Makes (.access change next) (⟨shared, change shared⟩ :: as) o
  | call {call : Client.Call} {next : Task σ α} {as : List (Access σ)} {o : Option α}
      (h : Makes next as o) : Makes (.call call next) as o
  | note {notice : Notice} {next : Task σ α} {as : List (Access σ)} {o : Option α}
      (h : Makes next as o) : Makes (.note notice next) as o

variable {t u : Task σ α} {as : List (Access σ)} {o : Option α} {clock : Duration} {shared : σ}
  {log : List Notice} {r : Progress σ α} {i : Nat}

theorem Makes.of_ended (h : t.ended = true) : Makes t [] t.result? := by
  cases t with
  | done => exact .done
  | crash => exact .crash
  | now | sleepUntil | access | call | note => cases h

/-- What a task notes has no part in its accesses. -/
theorem makes_quiet : Makes t.quiet as o ↔ Makes t as o := by
  constructor
  · intro h
    induction t generalizing as with
    | done | crash => exact h
    | now next ih =>
      cases h with
      | now clock h => exact .now clock (ih clock h)
    | sleepUntil moment next ih =>
      cases h with
      | sleepUntil h => exact .sleepUntil (ih h)
    | access change next ih =>
      cases h with
      | access shared h => exact .access shared (ih shared h)
    | call asked next ih =>
      cases h with
      | call h => exact .call (ih h)
    | note notice next ih => exact .note (ih h)
  · intro h
    induction h with
    | done => exact .done
    | crash => exact .crash
    | now clock _ ih => exact .now clock ih
    | sleepUntil _ ih => exact .sleepUntil ih
    | access shared _ ih => exact .access shared ih
    | call _ ih => exact .call ih
    | note _ ih => exact ih

theorem Makes.of_quiet (h : Makes t as o) (hquiet : t.quiet = u.quiet) : Makes u as o := by
  rw [← makes_quiet, ← hquiet]
  exact makes_quiet.mpr h

/-- A step is a part of what a task can do on its own, and so is the access that it may be. -/
theorem Makes.of_act (hr : t.act clock shared log = some r) (h : Makes r.task as o) :
    Makes t (t.accessing shared ++ as) o := by
  cases t with
  | done | crash => cases hr
  | now next =>
    obtain rfl := Option.some.inj hr
    exact .now clock h
  | sleepUntil moment next =>
    rw [act_sleepUntil] at hr
    split_ifs at hr
    obtain rfl := Option.some.inj hr
    exact .sleepUntil h
  | access change next =>
    obtain rfl := Option.some.inj hr
    exact .access shared h
  | call asked next =>
    obtain rfl := Option.some.inj hr
    exact .call h
  | note notice next =>
    obtain rfl := Option.some.inj hr
    exact .note h

/-- What a step leaves shared is what its access left; other steps leave it as it is. -/
theorem follows_accessing (hr : t.act clock shared log = some r) :
    Record.Follows shared (Trace.atPlace i (t.accessing shared)) r.shared := by
  cases t with
  | done | crash => cases hr
  | sleepUntil moment next =>
    rw [act_sleepUntil] at hr
    split_ifs at hr
    obtain rfl := Option.some.inj hr
    exact .nil
  | access change next =>
    obtain rfl := Option.some.inj hr
    exact .cons (a := ⟨shared, change shared⟩) .nil
  | now | call | note =>
    obtain rfl := Option.some.inj hr
    exact .nil

end Task

namespace Pool

/-- `Runs p as q`: the pool `p` may come to `q` with delays, and these are the accesses on the
way. -/
abbrev Runs : Pool σ α → Record σ → Pool σ α → Prop := Traced Task.accessing

variable {p q : Pool σ α} {as : Record σ} {i : Nat} {t last : Task σ α}

/-- **The accesses of a run are one chain.** -/
theorem Runs.follows (h : Runs p as q) : Record.Follows p.shared as q.shared := by
  induction h with
  | refl => exact .nil
  | act ht hr _ ih => exact (Task.follows_accessing hr).append ih
  | pass hle _ ih => exact ih

theorem own_makes : Own Task.accessing fun _ => Task.Makes (σ := σ) (α := α) where
  ended := .of_ended
  act := .of_act
  earlier h _ := h

/-- **A task that has ended** has made its accesses as it can make them on its own. -/
theorem Runs.makes (h : Runs p as q) (ht : p.tasks[i]? = some t) (hlast : q.tasks[i]? = some last)
    (hended : last.ended = true) : Task.Makes t (as.ofPlace i) last.result? :=
  h.of_own own_makes ht hlast hended

/-- **Every run goes on to an end**: those who were kept waiting go on. -/
theorem exists_runs_ended (p : Pool σ α) : ∃ as q, Runs p as q ∧ q.ended = true := by
  obtain ⟨as, h⟩ := exists_traced Task.accessing (delayed_of_reaches (reaches_run none p))
  exact ⟨as, _, h, ended_drain p⟩

end Pool

end LedgerLoad
