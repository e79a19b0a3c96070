import LedgerLoad.Proofs.Clock.Delays

/-! # What is seen of a run

`Pool.Traced` is a run in which anybody may be kept waiting, with a trace of what is to be seen of
its steps, such as the calls that tasks make (`Pool.Calls`).

* `Pool.Traced.of_own`: what a task that has ended has shown in a run, it can show on its own.
* `Pool.Calls.asks`: so a task makes, in a pool, the calls that it can make on its own, and ends as
  it can end on its own (`Pool.ends_of_delayed`).
* `Pool.calls_of_quiet`: what tasks note in the log has no part in this. Two pools that differ in
  their notes only can go the same ways, with the same calls (`Pool.quiet`). -/

namespace LedgerLoad

variable {σ α ε : Type}

/-! ### Traces -/

/-- What is seen of a run, in order, each with the place of the task that showed it. -/
abbrev Trace (ε : Type) := List (Nat × ε)

namespace Trace

/-- What is seen of one task. -/
def ofPlace (i : Nat) (es : Trace ε) : List ε :=
  es.filterMap fun e => if e.1 = i then some e.2 else none

/-- What the task in a place shows. -/
def atPlace (i : Nat) (es : List ε) : Trace ε := es.map (i, ·)

variable {i j : Nat} {e : ε} {es es' : Trace ε}

theorem ofPlace_append (i : Nat) (es es' : Trace ε) :
    ofPlace i (es ++ es') = ofPlace i es ++ ofPlace i es' := List.filterMap_append

theorem ofPlace_cons_self : ofPlace i ((i, e) :: es) = e :: ofPlace i es := by
  simp [ofPlace]

theorem ofPlace_cons_other (h : j ≠ i) : ofPlace i ((j, e) :: es) = ofPlace i es := by
  simp [ofPlace, h]

theorem ofPlace_atPlace (i : Nat) (shown : List ε) : ofPlace i (atPlace i shown) = shown := by
  induction shown with
  | nil => rfl
  | cons e es ih => exact ofPlace_cons_self.trans (congrArg (e :: ·) ih)

theorem ofPlace_atPlace_other (h : j ≠ i) (shown : List ε) : ofPlace i (atPlace j shown) = [] := by
  induction shown with
  | nil => rfl
  | cons e es ih => exact (ofPlace_cons_other h).trans ih

theorem mem_ofPlace : e ∈ ofPlace i es ↔ (i, e) ∈ es := by
  unfold ofPlace
  rw [List.mem_filterMap]
  constructor
  · rintro ⟨⟨j, e'⟩, hmem, he⟩
    dsimp only at he
    split_ifs at he with hij
    obtain rfl := Option.some.inj he
    exact hij ▸ hmem
  · intro hmem
    exact ⟨(i, e), hmem, if_pos rfl⟩

end Trace

namespace Pool

/-- `Traced see p es q`: the pool `p` may come to `q` with delays, and this is what `see` sees of the
steps on the way. -/
inductive Traced (see : σ → Task σ α → List ε) : Pool σ α → Trace ε → Pool σ α → Prop
  | refl {p : Pool σ α} : Traced see p [] p
  | act {p q : Pool σ α} {i : Nat} {t : Task σ α} {r : Task.Progress σ α} {es : Trace ε}
      (ht : p.tasks[i]? = some t) (hr : t.act p.clock p.shared p.log = some r)
      (h : Traced see (p.put i r) es q) : Traced see p (Trace.atPlace i (see p.shared t) ++ es) q
  | pass {p q : Pool σ α} {moment : Duration} {es : Trace ε} (hle : p.clock ≤ moment)
      (h : Traced see { p with clock := moment } es q) : Traced see p es q

variable {see : σ → Task σ α → List ε} {p q r : Pool σ α} {es es' : Trace ε} {i : Nat}
  {t last : Task σ α}

theorem Traced.trans (h : Traced see p es q) (h' : Traced see q es' r) :
    Traced see p (es ++ es') r := by
  induction h with
  | refl => exact h'
  | act ht hr _ ih =>
    rw [List.append_assoc]
    exact .act ht hr (ih h')
  | pass hle _ ih => exact .pass hle (ih h')

theorem Traced.single {s : Task.Progress σ α} (ht : p.tasks[i]? = some t)
    (hs : t.act p.clock p.shared p.log = some s) :
    Traced see p (Trace.atPlace i (see p.shared t)) (p.put i s) := by
  have hact : Traced see p (Trace.atPlace i (see p.shared t) ++ []) (p.put i s) := .act ht hs .refl
  rwa [List.append_nil] at hact

/-- Whatever a pool may come to with delays, something is seen on the way. -/
theorem exists_traced (see : σ → Task σ α → List ε) (h : Delayed p q) :
    ∃ es, Traced see p es q := by
  induction h using Relation.ReflTransGen.head_induction_on with
  | refl => exact ⟨[], .refl⟩
  | head hstep _ ih =>
    obtain ⟨es, ih⟩ := ih
    cases hstep with
    | act ht hr => exact ⟨_, .act ht hr ih⟩
    | pass hle => exact ⟨es, .pass hle ih⟩

theorem Traced.delayed (h : Traced see p es q) : Delayed p q := by
  induction h with
  | refl => exact .refl
  | act ht hr _ ih => exact .head (.act ht hr) ih
  | pass hle _ ih => exact .head (.pass hle) ih

theorem Traced.length_tasks (h : Traced see p es q) : q.tasks.length = p.tasks.length := by
  induction h with
  | refl => rfl
  | act ht hr _ ih => exact ih.trans List.length_set
  | pass hle _ ih => exact ih

/-- Nothing is seen but of the tasks of the pool. -/
theorem Traced.place_lt (h : Traced see p es q) : ∀ e ∈ es, e.1 < p.tasks.length := by
  induction h with
  | refl => exact nofun
  | @act p q i t r es ht hr _ ih =>
    intro e he
    rcases List.mem_append.mp he with he | he
    · obtain ⟨shown, -, rfl⟩ := List.mem_map.mp he
      exact (List.getElem?_eq_some_iff.mp ht).1
    · simpa [put] using ih e he
  | pass hle _ ih => exact ih

/-- `Own see R`: if `R clock t es o`, a task that goes on from a moment can show `es` and end with
`o` on its own. -/
structure Own (see : σ → Task σ α → List ε)
    (R : Duration → Task σ α → List ε → Option α → Prop) : Prop where
  ended : ∀ {clock : Duration} {t : Task σ α}, t.ended = true → R clock t [] t.result?
  act : ∀ {clock : Duration} {t : Task σ α} {shared : σ} {log : List Notice}
    {r : Task.Progress σ α} {es : List ε} {o : Option α}, t.act clock shared log = some r →
    R clock r.task es o → R clock t (see shared t ++ es) o
  earlier : ∀ {clock clock' : Duration} {t : Task σ α} {es : List ε} {o : Option α},
    R clock' t es o → clock ≤ clock' → R clock t es o

/-- **A task that has ended** has shown what it can show on its own, and has ended accordingly. -/
theorem Traced.of_own {R : Duration → Task σ α → List ε → Option α → Prop} (hown : Own see R)
    (h : Traced see p es q) (ht : p.tasks[i]? = some t) (hlast : q.tasks[i]? = some last)
    (hended : last.ended = true) : R p.clock t (es.ofPlace i) last.result? := by
  induction h generalizing t with
  | refl =>
    obtain rfl := Option.some.inj (ht.symm.trans hlast)
    exact hown.ended hended
  | @act p q j u s es hu hs _ ih =>
    rw [Trace.ofPlace_append]
    by_cases hij : j = i
    · subst hij
      obtain rfl := Option.some.inj (hu.symm.trans ht)
      rw [Trace.ofPlace_atPlace]
      exact hown.act hs (ih (task_put ht s) hlast)
    · rw [Trace.ofPlace_atPlace_other hij]
      exact ih ((List.getElem?_set_ne hij).trans ht) hlast
  | pass hle _ ih => exact hown.earlier (ih ht hlast) hle

end Pool

/-! ### Calls -/

namespace Task

/-- The call that is the next step of a task, if it is one. -/
def calling (_ : σ) : Task σ α → List Client.Call
  | .call asked _ => [asked]
  | _ => []

variable {clock : Duration} {t : Task σ α} {shared : σ} {log : List Notice} {r : Progress σ α}
  {calls : List Client.Call} {o : Option α}

/-- A step is a part of what a task can do on its own, and so is the call that it may be. -/
theorem Asks.of_act (hr : t.act clock shared log = some r) (h : Asks clock r.task calls o) :
    Asks clock t (t.calling shared ++ calls) o := by
  have hnow := Duration.le_refl clock
  cases t with
  | done | crash => cases hr
  | now next =>
    obtain rfl := Option.some.inj hr
    exact .now hnow h
  | sleepUntil moment next =>
    rw [act_sleepUntil] at hr
    split_ifs at hr with hover
    obtain rfl := Option.some.inj hr
    exact .sleepUntil hnow hover h
  | access change next =>
    obtain rfl := Option.some.inj hr
    exact .access shared h
  | call asked next =>
    obtain rfl := Option.some.inj hr
    exact .call h
  | note notice next =>
    obtain rfl := Option.some.inj hr
    exact .note h

/-- A step of a task is a step of the task without its notes, unless it is a note. -/
theorem quiet_act (hr : t.act clock shared log = some r) :
    (r.task.quiet = t.quiet ∧ r.shared = shared ∧ t.calling shared = []) ∨
      (t.quiet.act clock shared [] = some ⟨r.task.quiet, r.shared, []⟩ ∧
        t.quiet.calling shared = t.calling shared) := by
  cases t with
  | done | crash => cases hr
  | sleepUntil moment next =>
    rw [act_sleepUntil] at hr
    split_ifs at hr with hover
    obtain rfl := Option.some.inj hr
    exact Or.inr ⟨if_pos hover, rfl⟩
  | now | access | call =>
    obtain rfl := Option.some.inj hr
    exact Or.inr ⟨rfl, rfl⟩
  | note notice next =>
    obtain rfl := Option.some.inj hr
    exact Or.inl ⟨rfl, rfl, rfl⟩

end Task

namespace Pool

/-- `Calls p calls q`: the pool `p` may come to `q` with delays, and these are the calls that its
tasks make on the way. -/
abbrev Calls : Pool σ α → Trace Client.Call → Pool σ α → Prop := Traced Task.calling

variable {p q r : Pool σ α} {calls : Trace Client.Call} {i : Nat} {t last : Task σ α}

theorem own_asks : Own Task.calling (Task.Asks (σ := σ) (α := α)) where
  ended := .of_ended
  act := .of_act
  earlier := .earlier

/-- **A task that has ended** has made calls as it can make them on its own, and ended as it can end
on its own, however long it was kept waiting. -/
theorem Calls.asks (h : Calls p calls q) (ht : p.tasks[i]? = some t) (hlast : q.tasks[i]? = some last)
    (hended : last.ended = true) : Task.Asks p.clock t (calls.ofPlace i) last.result? :=
  h.of_own own_asks ht hlast hended

theorem ends_of_delayed (h : Delayed p q) (ht : p.tasks[i]? = some t)
    (hlast : q.tasks[i]? = some last) (hended : last.ended = true) :
    Task.Ends p.clock t last.result? := by
  obtain ⟨calls, hcalls⟩ := exists_traced Task.calling h
  exact (Calls.asks hcalls ht hlast hended).ends

/-! ### Runs without their notes -/

/-- A pool without what its tasks note in the log. -/
def quiet (p : Pool σ α) : Pool σ α := { p with tasks := p.tasks.map Task.quiet, log := [] }

theorem quiet_put (p : Pool σ α) (i : Nat) (s : Task.Progress σ α) :
    (p.put i s).quiet = p.quiet.put i ⟨s.task.quiet, s.shared, []⟩ := by
  simp [quiet, put, List.map_set]

theorem task_quiet (ht : p.tasks[i]? = some t) : p.quiet.tasks[i]? = some t.quiet := by
  simp [quiet, ht]

/-- A note changes nothing but the log. -/
theorem quiet_put_of_note {s : Task.Progress σ α} (ht : p.tasks[i]? = some t)
    (htask : s.task.quiet = t.quiet) (hshared : s.shared = p.shared) :
    (p.put i s).quiet = p.quiet := by
  rw [quiet_put, htask, hshared]
  exact put_self (task_quiet ht)

theorem quiet_calls (h : Calls p calls q) : Calls p.quiet calls q.quiet := by
  induction h with
  | refl => exact .refl
  | @act p q i t s calls ht hs _ ih =>
    rcases Task.quiet_act hs with ⟨htask, hshared, hnone⟩ | ⟨hquiet, hsame⟩
    · rw [quiet_put_of_note ht htask hshared] at ih
      rwa [hnone]
    · rw [quiet_put] at ih
      rw [← hsame]
      exact .act (p := p.quiet) (task_quiet ht) hquiet ih
  | @pass p q moment calls hle _ ih => exact .pass (p := p.quiet) hle ih

/-- A step without notes, of a task that may have some to make before it. -/
theorem exists_calls_act {s : Task.Progress σ α} (ht : p.tasks[i]? = some t)
    (hs : t.quiet.act p.clock p.shared [] = some s) :
    ∃ q, Calls p (Trace.atPlace i (t.quiet.calling p.shared)) q ∧ q.quiet = p.quiet.put i s := by
  induction t generalizing p with
  | done | crash => cases hs
  | now next =>
    obtain rfl := Option.some.inj hs
    exact ⟨_, .single (t := .now next) ht rfl, quiet_put p i ⟨next p.clock, p.shared, p.log⟩⟩
  | sleepUntil moment next =>
    rw [Task.quiet, Task.act_sleepUntil] at hs
    split_ifs at hs with hover
    obtain rfl := Option.some.inj hs
    exact ⟨_, .single (t := .sleepUntil moment next) ht (if_pos hover),
      quiet_put p i ⟨next, p.shared, p.log⟩⟩
  | access change next =>
    obtain rfl := Option.some.inj hs
    exact ⟨_, .single (t := .access change next) ht rfl,
      quiet_put p i ⟨next p.shared, change p.shared, p.log⟩⟩
  | call asked next =>
    obtain rfl := Option.some.inj hs
    exact ⟨_, .single (t := .call asked next) ht rfl, quiet_put p i ⟨next, p.shared, p.log⟩⟩
  | note notice next ih =>
    have hquiet : (p.put i ⟨next, p.shared, notice :: p.log⟩).quiet = p.quiet :=
      quiet_put_of_note ht rfl rfl
    obtain ⟨q, hq, hput⟩ := ih (task_put ht ⟨next, p.shared, notice :: p.log⟩) hs
    refine ⟨q, .act ht rfl hq, ?_⟩
    rw [hput, hquiet]

/-- Whatever a pool can do without its notes, it can do with them. -/
theorem exists_calls (h : Calls p.quiet calls r) : ∃ q, Calls p calls q ∧ q.quiet = r := by
  generalize hquiet : p.quiet = p' at h
  induction h generalizing p with
  | refl => exact ⟨p, .refl, hquiet⟩
  | @act _ q i u s calls hu hs _ ih =>
    subst hquiet
    have hu' : (p.tasks[i]?).map Task.quiet = some u := by
      rw [← List.getElem?_map]
      exact hu
    obtain ⟨t, ht, rfl⟩ := Option.map_eq_some_iff.mp hu'
    obtain ⟨m, hm, hmquiet⟩ := exists_calls_act ht hs
    obtain ⟨q', hq', hsame⟩ := ih hmquiet
    exact ⟨q', hm.trans hq', hsame⟩
  | @pass _ q moment calls hle _ ih =>
    subst hquiet
    obtain ⟨q', hq', hsame⟩ := ih (p := { p with clock := moment }) rfl
    exact ⟨q', .pass hle hq', hsame⟩

/-- A task that has ended but for its notes makes them and ends. -/
theorem exists_calls_ended (ht : p.tasks[i]? = some t) (hended : t.quiet.ended = true) :
    ∃ q, Calls p [] q ∧ q.tasks[i]? = some t.quiet ∧ q.quiet = p.quiet := by
  induction t generalizing p with
  | done | crash => exact ⟨p, .refl, ht, rfl⟩
  | now | sleepUntil | access | call => cases hended
  | note notice next ih =>
    have hquiet : (p.put i ⟨next, p.shared, notice :: p.log⟩).quiet = p.quiet :=
      quiet_put_of_note ht rfl rfl
    obtain ⟨q, hq, hlast, hsame⟩ := ih (task_put ht ⟨next, p.shared, notice :: p.log⟩) hended
    exact ⟨q, .act ht rfl hq, hlast, hsame.trans hquiet⟩

/-- **What tasks note has no part in what they do**: pools that differ in their notes only can go
the same ways, at the same moments, with the same calls and the same results. -/
theorem calls_of_quiet {p' : Pool σ α} (hquiet : p'.quiet = p.quiet) (h : Calls p calls q)
    (hlast : q.tasks[i]? = some last) (hended : last.ended = true) :
    ∃ q', Calls p' calls q' ∧ q'.tasks[i]? = some last ∧ q'.quiet = q.quiet := by
  have hsame : last.quiet = last := by
    cases last with
    | done | crash => rfl
    | now | sleepUntil | access | call | note => cases hended
  obtain ⟨m, hm, hmquiet⟩ := exists_calls (p := p') (hquiet ▸ quiet_calls h)
  have hm' : (m.tasks[i]?).map Task.quiet = some last := by
    rw [← List.getElem?_map, ← hsame, ← task_quiet hlast, ← hmquiet]
    rfl
  obtain ⟨t, ht, htquiet⟩ := Option.map_eq_some_iff.mp hm'
  obtain ⟨q', hq', htask, hsame'⟩ := exists_calls_ended ht (htquiet ▸ hended)
  have hall := hm.trans hq'
  rw [List.append_nil] at hall
  exact ⟨q', hall, htquiet ▸ htask, hsame'.trans hmquiet⟩

end Pool

end LedgerLoad
