import LedgerLoad.Clock.Task

/-! # Tasks that run together

A pool runs its tasks on one clock. The clock stands still while a task can go on; then it moves to
the first moment at which one can, and the first task in order that can goes on. `Pool.run` repeats
this up to a moment or until all tasks have ended. It always comes to an end, because each step
leaves less of one task and the others as they are. -/

namespace LedgerLoad

/-! ### One element less -/

/-- `Shrinks r xs ys`: the list `xs` is `ys` with one element made smaller in the sense of `r`. -/
inductive Shrinks {τ : Type} (r : τ → τ → Prop) : List τ → List τ → Prop
  | here {x y : τ} {xs : List τ} (h : r x y) : Shrinks r (x :: xs) (y :: xs)
  | there {x : τ} {xs ys : List τ} (h : Shrinks r xs ys) : Shrinks r (x :: xs) (x :: ys)

theorem Shrinks.acc_cons {τ : Type} {r : τ → τ → Prop} {x : τ} {xs : List τ}
    (hx : Acc r x) (hxs : Acc (Shrinks r) xs) : Acc (Shrinks r) (x :: xs) := by
  induction hx generalizing xs with
  | intro x _ ihx =>
    induction hxs with
    | intro xs hacc ihxs =>
      refine ⟨_, fun ys h => ?_⟩
      cases h with
      | here h => exact ihx _ h ⟨_, hacc⟩
      | there h => exact ihxs _ h

theorem Shrinks.wellFounded {τ : Type} {r : τ → τ → Prop} (h : WellFounded r) :
    WellFounded (Shrinks r) := by
  refine ⟨fun xs => ?_⟩
  induction xs with
  | nil => exact ⟨_, fun ys h => nomatch h⟩
  | cons x xs ih => exact acc_cons (h.apply x) ih

theorem Shrinks.set {τ : Type} {r : τ → τ → Prop} {xs : List τ} {i : Nat} {x y : τ}
    (hy : xs[i]? = some y) (h : r x y) : Shrinks r (xs.set i x) xs := by
  induction xs generalizing i with
  | nil => simp at hy
  | cons z zs ih =>
    cases i with
    | zero =>
      obtain rfl : z = y := by simpa using hy
      exact .here h
    | succ i => exact .there (ih (by simpa using hy))

/-! ### Pools -/

/-- Tasks on a clock, with what they share and their log, latest entry first. -/
structure Pool (σ α : Type) where
  clock : Duration
  shared : σ
  tasks : List (Task σ α)
  log : List Notice

namespace Pool

variable {σ α : Type}

/-- The tasks of a pool have a well-founded order: one has less before it, the others are as they
were. -/
instance : WellFoundedRelation (List (Task σ α)) :=
  ⟨Shrinks (Relation.TransGen Task.Next), Shrinks.wellFounded Task.wellFounded_next.transGen⟩

/-- The first moment at which a task can go on, and the place of the first such task. -/
def soonest (clock : Duration) : List (Task σ α) → Option (Duration × Nat)
  | [] => none
  | t :: ts =>
    match t.wakes clock, soonest clock ts with
    | none, none => none
    | some moment, none => some (moment, 0)
    | none, some (moment, i) => some (moment, i + 1)
    | some moment, some (other, i) =>
      if other < moment then some (other, i + 1) else some (moment, 0)

theorem soonest_wakes {clock : Duration} {ts : List (Task σ α)} {moment : Duration} {i : Nat}
    (h : soonest clock ts = some (moment, i)) :
    ∃ t, ts[i]? = some t ∧ t.wakes clock = some moment := by
  induction ts generalizing moment i with
  | nil => simp [soonest] at h
  | cons t ts ih =>
    unfold soonest at h
    split at h
    · simp at h
    · rename_i hw _
      obtain ⟨rfl, rfl⟩ : _ = moment ∧ 0 = i := by simpa using h
      exact ⟨t, rfl, hw⟩
    · rename_i hs
      obtain ⟨rfl, rfl⟩ : _ = moment ∧ _ = i := by simpa using h
      simpa using ih hs
    · rename_i hw hs
      split at h
      · obtain ⟨rfl, rfl⟩ : _ = moment ∧ _ = i := by simpa using h
        simpa using ih hs
      · obtain ⟨rfl, rfl⟩ : _ = moment ∧ 0 = i := by simpa using h
        exact ⟨t, rfl, hw⟩

/-- Whether a moment lies beyond a limit, if there is one. -/
def beyond (limit : Option Duration) (moment : Duration) : Bool :=
  match limit with
  | none => false
  | some limit => decide (limit < moment)

/-- Whether all tasks have ended. -/
def ended (p : Pool σ α) : Bool := p.tasks.all Task.ended

/-- Lets the task go on whose turn is next, unless that is beyond the limit. -/
def step (limit : Option Duration) (p : Pool σ α) : Option (Pool σ α) :=
  if p.ended then none else
  match soonest p.clock p.tasks with
  | none => none
  | some (moment, i) =>
    if beyond limit moment then none
    else
      match p.tasks[i]? with
      | none => none
      | some t =>
        let r := t.resume moment p.shared p.log
        some { clock := moment, shared := r.shared, tasks := p.tasks.set i r.task, log := r.log }

theorem step_shrinks {limit : Option Duration} {p q : Pool σ α} (h : p.step limit = some q) :
    WellFoundedRelation.rel q.tasks p.tasks := by
  unfold step at h
  split at h
  · simp at h
  split at h
  · simp at h
  · rename_i moment i hs
    split at h
    · simp at h
    · obtain ⟨t, ht, hw⟩ := soonest_wakes hs
      rw [ht] at h
      obtain rfl := Option.some.inj h
      exact Shrinks.set ht (Task.resume_next p.shared p.log (by rw [hw]; simp) moment)

/-- Runs the tasks up to a limit, or to their ends. -/
def run (limit : Option Duration) (p : Pool σ α) : Pool σ α :=
  match h : p.step limit with
  | none => p
  | some q =>
    have := step_shrinks h
    q.run limit
termination_by p.tasks

/-- Runs the tasks until all have ended. -/
def drain (p : Pool σ α) : Pool σ α := p.run none

/-- Lets time go by up to a moment; the tasks run in the meantime. -/
def waitUntil (moment : Duration) (p : Pool σ α) : Pool σ α :=
  let p := p.run (some moment)
  { p with clock := p.clock.latest moment }

/-- Moves the clock in one go; tasks that should have gone on in between do so late. -/
def jumpTo (moment : Duration) (p : Pool σ α) : Pool σ α :=
  { p with clock := p.clock.latest moment }.run (some (p.clock.latest moment))

end Pool

end LedgerLoad
