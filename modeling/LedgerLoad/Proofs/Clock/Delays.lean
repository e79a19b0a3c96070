import LedgerLoad.Proofs.Clock.Interleaving

/-! # Tasks that are kept waiting

On a real machine a task may be kept waiting at any time, and not only by the sleeps in its pool.
`Pool.Delays` leaves open when the clock moves on and how far; it never goes back, and no sleep ends
before its moment. Every way that a pool goes without such delays is one of these
(`Pool.delayed_of_reaches`).

* `Pool.delayed_wake`: anybody may be kept waiting until a moment, and then go on.
* `Pool.exists_ended`: every such way goes on to an end. -/

namespace LedgerLoad

variable {σ α : Type}

namespace Pool

/-- One step of a pool in which anybody may be kept waiting: a task takes a step, or the clock moves
on while tasks sleep or do not sleep. -/
inductive Delays : Pool σ α → Pool σ α → Prop
  | act {p : Pool σ α} {i : Nat} {t : Task σ α} {r : Task.Progress σ α}
      (ht : p.tasks[i]? = some t) (hr : t.act p.clock p.shared p.log = some r) :
      Delays p (p.put i r)
  | pass {p : Pool σ α} {moment : Duration} (hle : p.clock ≤ moment) :
      Delays p { p with clock := moment }

/-- What a pool may come to with delays. -/
def Delayed : Pool σ α → Pool σ α → Prop := Relation.ReflTransGen Delays

variable {p q r : Pool σ α} {i : Nat} {t last : Task σ α}

/-- **A way without delays** is one of the ways with delays. -/
theorem delayed_of_reaches (h : Reaches p q) : Delayed p q := by
  refine Relation.ReflTransGen.mono (fun p q hmove => ?_) _ _ h
  cases hmove with
  | act ht hr => exact .act ht hr
  | pass _ hlater => exact .pass (Nat.le_of_lt hlater)

/-- Everybody may be kept waiting until a moment, and then some task goes on as far as it can. -/
theorem delayed_wake {moment : Duration} (hle : p.clock ≤ moment) (ht : p.tasks[i]? = some t) :
    Delayed p (put { p with clock := moment } i (t.advance moment p.shared p.log)) :=
  .head (.pass hle) (delayed_of_reaches (reaches_advance (p := { p with clock := moment }) ht))

/-- **Every run can be brought to its end**: somebody who was kept waiting goes on. -/
theorem exists_ended (h : Delayed p q) (ht : p.tasks[i]? = some t) :
    ∃ r last, Delayed q r ∧ r.tasks[i]? = some last ∧ last.ended = true := by
  have htask : ∃ u, q.tasks[i]? = some u := by
    induction h with
    | refl => exact ⟨t, ht⟩
    | tail _ hstep ih =>
      obtain ⟨u, hu⟩ := ih
      cases hstep with
      | @act j v s _ _ =>
        by_cases hij : j = i
        · subst hij
          exact ⟨s.task, task_put hu s⟩
        · exact ⟨u, (List.getElem?_set_ne hij).trans hu⟩
      | pass => exact ⟨u, hu⟩
  obtain ⟨u, hu⟩ := htask
  obtain ⟨last, hlast, hended, -⟩ := ends_drain q hu
  exact ⟨q.drain, last, delayed_of_reaches (reaches_run none q), hlast, hended⟩

end Pool

end LedgerLoad
