import Mathlib.Logic.Relation
import Mathlib.Order.WellFounded
import LedgerLoad.Proofs.Clock.Pool

/-! # Tasks in any order

A pool on its own lets the first task go on that can, and for as long as it can. Here it is left
open which task goes on, and how far: `Pool.Moves` is one step of one task, or the clock moving on
while nobody can take a step. Time passes by sleeping only, so the clock never moves past a moment
at which somebody wakes; it may stop before, where something outside the pool has slept.

* `Pool.reaches_run`: the pool's own way is one of the ways that are left open.
* `Pool.wellFounded_moves`, `Pool.exists_moves`: every way comes to an end, and not before all tasks
  have ended.
* `Pool.settles_of_reaches`: on every way, each task ends as it can end if nobody keeps it waiting
  (`Task.Settles`); only of what is shared nothing is known. -/

namespace LedgerLoad

variable {σ α : Type}

namespace Duration

/-- When a sleep that begins at a moment of the clock is over. -/
def woken (clock moment : Duration) : Duration := if moment ≤ clock then clock else moment.roundUp

theorem le_antisymm {a b : Duration} (h : a ≤ b) (h' : b ≤ a) : a = b := by
  have hnanos : a.nanos = b.nanos := Nat.le_antisymm h h'
  cases a
  cases b
  exact congrArg Duration.mk hnanos

theorem roundUp_mono {a b : Duration} (h : a ≤ b) : a.roundUp ≤ b.roundUp := by
  have hnanos : a.nanos ≤ b.nanos := h
  show (a.nanos + 999999) / 1000000 * 1000000 ≤ (b.nanos + 999999) / 1000000 * 1000000
  omega

theorem roundUp_roundUp (d : Duration) : d.roundUp.roundUp = d.roundUp := by
  refine congrArg Duration.mk ?_
  show ((d.nanos + 999999) / 1000000 * 1000000 + 999999) / 1000000 * 1000000 = _
  omega

/-- A sleep that is not over when it begins ends at the same time, seen from any later moment. -/
theorem woken_of_le {clock later moment : Duration} (hwhole : later.roundUp = later)
    (hturn : later ≤ clock.woken moment) (hsleeps : ¬ moment ≤ clock) :
    later.woken moment = clock.woken moment := by
  unfold woken at hturn ⊢
  rw [if_neg hsleeps] at hturn ⊢
  by_cases hover : moment ≤ later
  · rw [if_pos hover]
    have hround := roundUp_mono hover
    rw [hwhole] at hround
    exact le_antisymm hturn hround
  · rw [if_neg hover]

end Duration

/-! ### One step of a task -/

namespace Task

/-- One step of a task, if it can take one at that moment: it has not ended, and does not sleep. -/
def act (clock : Duration) : Task σ α → σ → List Notice → Option (Progress σ α)
  | .done _, _, _ => none
  | .crash, _, _ => none
  | .now next, shared, log => some ⟨next clock, shared, log⟩
  | .sleepUntil moment next, shared, log =>
    if moment ≤ clock then some ⟨next, shared, log⟩ else none
  | .access change next, shared, log => some ⟨next shared, change shared, log⟩
  | .call _ next, shared, log => some ⟨next, shared, log⟩
  | .note notice next, shared, log => some ⟨next, shared, notice :: log⟩

section Act

variable {clock moment : Duration} {t : Task σ α} {shared : σ} {log : List Notice}
  {r : Progress σ α} {o : Option α}

theorem act_sleepUntil {next : Task σ α} :
    act clock (.sleepUntil moment next) shared log =
      if moment ≤ clock then some ⟨next, shared, log⟩ else none := rfl

theorem next_of_act (h : t.act clock shared log = some r) : Next r.task t := by
  cases t with
  | done | crash => cases h
  | now next =>
    obtain rfl := Option.some.inj h
    exact .now clock
  | sleepUntil moment next =>
    rw [act_sleepUntil] at h
    by_cases hover : moment ≤ clock
    · rw [if_pos hover] at h
      obtain rfl := Option.some.inj h
      exact .sleepUntil
    · rw [if_neg hover] at h
      cases h
  | access change next =>
    obtain rfl := Option.some.inj h
    exact .access shared
  | call asked next =>
    obtain rfl := Option.some.inj h
    exact .call
  | note notice next =>
    obtain rfl := Option.some.inj h
    exact .note

/-- Whoever wakes later than now is asleep until then. -/
theorem sleeps_of_wakes (h : t.wakes clock = some moment) (hlater : clock < moment) :
    ∃ target next, t = .sleepUntil target next ∧ ¬ target ≤ clock ∧
      moment = target.roundUp := by
  have hawake : some clock ≠ some moment := by
    intro heq
    obtain rfl := Option.some.inj heq
    exact Nat.lt_irrefl _ hlater
  cases t with
  | done | crash => cases h
  | now | access | call | note => exact absurd h hawake
  | sleepUntil target next =>
    rw [wakes] at h
    by_cases htarget : target ≤ clock
    · rw [if_pos htarget] at h
      exact absurd h hawake
    · rw [if_neg htarget] at h
      exact ⟨target, next, rfl, htarget, (Option.some.inj h).symm⟩

/-- Whoever has slept long enough can go on. -/
theorem le_of_wakes {target : Duration} {next : Task σ α}
    (h : (Task.sleepUntil target next).wakes clock = some moment) : target ≤ moment := by
  rw [wakes] at h
  by_cases htarget : target ≤ clock
  · rw [if_pos htarget] at h
    obtain rfl := Option.some.inj h
    exact htarget
  · rw [if_neg htarget] at h
    obtain rfl := Option.some.inj h
    exact Duration.le_roundUp target

end Act

/-! ### A task that is not kept waiting -/

/-- `Settles clock t o`: a task that nobody keeps waiting can end with the result `o`, none if it
breaks down. Its sleeps end on time and all else takes no time; of what is shared nothing is
assumed. -/
inductive Settles : Duration → Task σ α → Option α → Prop
  | done {clock : Duration} {result : α} : Settles clock (.done result) (some result)
  | crash {clock : Duration} : Settles clock .crash none
  | now {clock : Duration} {next : Duration → Task σ α} {o : Option α}
      (h : Settles clock (next clock) o) : Settles clock (.now next) o
  | sleepUntil {clock moment : Duration} {next : Task σ α} {o : Option α}
      (h : Settles (clock.woken moment) next o) : Settles clock (.sleepUntil moment next) o
  | access {clock : Duration} {change : σ → σ} {next : σ → Task σ α} {o : Option α} (shared : σ)
      (h : Settles clock (next shared) o) : Settles clock (.access change next) o
  | call {clock : Duration} {call : Client.Call} {next : Task σ α} {o : Option α}
      (h : Settles clock next o) : Settles clock (.call call next) o
  | note {clock : Duration} {notice : Notice} {next : Task σ α} {o : Option α}
      (h : Settles clock next o) : Settles clock (.note notice next) o

section Settles

variable {clock moment : Duration} {t : Task σ α} {shared : σ} {log : List Notice}
  {r : Progress σ α} {o : Option α}

theorem Settles.of_ended (h : t.ended = true) : Settles clock t t.result? := by
  cases t with
  | done => exact .done
  | crash => exact .crash
  | now | sleepUntil | access | call | note => cases h

/-- A step is a part of what the task does if nobody keeps it waiting. -/
theorem Settles.of_act (hr : t.act clock shared log = some r) (h : Settles clock r.task o) :
    Settles clock t o := by
  cases t with
  | done | crash => cases hr
  | now next =>
    obtain rfl := Option.some.inj hr
    exact .now h
  | sleepUntil moment next =>
    rw [act_sleepUntil] at hr
    by_cases hover : moment ≤ clock
    · rw [if_pos hover] at hr
      obtain rfl := Option.some.inj hr
      have hwoken : clock.woken moment = clock := if_pos hover
      exact .sleepUntil (hwoken.symm ▸ h)
    · rw [if_neg hover] at hr
      cases hr
  | access change next =>
    obtain rfl := Option.some.inj hr
    exact .access shared h
  | call asked next =>
    obtain rfl := Option.some.inj hr
    exact .call h
  | note notice next =>
    obtain rfl := Option.some.inj hr
    exact .note h

/-- A clock that moves on while a task sleeps changes nothing for it. -/
theorem Settles.of_pass (hlater : clock < moment) (hwhole : moment.roundUp = moment)
    (hturn : ∀ wake, t.wakes clock = some wake → moment ≤ wake) (h : Settles moment t o) :
    Settles clock t o := by
  have hawake (hwakes : t.wakes clock = some clock) : Settles clock t o :=
    absurd (Nat.lt_of_lt_of_le hlater (hturn clock hwakes)) (Nat.lt_irrefl _)
  cases t with
  | done | crash =>
    cases h
    constructor
  | now | access | call | note => exact hawake rfl
  | sleepUntil target next =>
    by_cases hover : target ≤ clock
    · exact hawake (congrArg some (if_pos hover))
    · cases h with
      | sleepUntil h =>
        rw [Duration.woken_of_le hwhole (hturn _ rfl) hover] at h
        exact .sleepUntil h

end Settles

end Task

/-! ### Steps in any order -/

namespace Pool

/-- A pool of which one task has come some way. -/
def put (p : Pool σ α) (i : Nat) (r : Task.Progress σ α) : Pool σ α :=
  { p with shared := r.shared, tasks := p.tasks.set i r.task, log := r.log }

/-- One move of a pool: any task that can takes a step, or the clock moves on while all sleep. -/
inductive Moves : Pool σ α → Pool σ α → Prop
  | act {p : Pool σ α} {i : Nat} {t : Task σ α} {r : Task.Progress σ α}
      (ht : p.tasks[i]? = some t) (hr : t.act p.clock p.shared p.log = some r) :
      Moves p (p.put i r)
  | pass {p : Pool σ α} {moment : Duration} (hopen : p.ended = false) (hlater : p.clock < moment)
      (hwhole : moment.roundUp = moment)
      (hturn : ∀ t ∈ p.tasks, ∀ wake, t.wakes p.clock = some wake → moment ≤ wake) :
      Moves p { p with clock := moment }

/-- What a pool may come to by some moves. -/
def Reaches : Pool σ α → Pool σ α → Prop := Relation.ReflTransGen Moves

/-! ### The pool's own way -/

variable {p q : Pool σ α} {i : Nat} {t : Task σ α}

theorem put_self (ht : p.tasks[i]? = some t) : p.put i ⟨t, p.shared, p.log⟩ = p := by
  obtain ⟨hi, rfl⟩ := List.getElem?_eq_some_iff.mp ht
  unfold put
  simp

theorem put_put (p : Pool σ α) (i : Nat) (r r' : Task.Progress σ α) :
    (p.put i r).put i r' = p.put i r' := by
  unfold put
  simp

theorem task_put (ht : p.tasks[i]? = some t) (r : Task.Progress σ α) :
    (p.put i r).tasks[i]? = some r.task :=
  List.getElem?_set_self (List.getElem?_eq_some_iff.mp ht).1

/-- A task that goes on takes steps until it ends or has to sleep. -/
theorem reaches_advance (ht : p.tasks[i]? = some t) :
    Reaches p (p.put i (t.advance p.clock p.shared p.log)) := by
  -- After each step the rest is the same, of a pool in which that step is taken.
  have hstep {p : Pool σ α} {t : Task σ α} {r : Task.Progress σ α} (ht : p.tasks[i]? = some t)
      (hr : t.act p.clock p.shared p.log = some r)
      (hrest : Reaches (p.put i r)
        ((p.put i r).put i (r.task.advance p.clock r.shared r.log))) :
      Reaches p (p.put i (r.task.advance p.clock r.shared r.log)) := by
    rw [put_put] at hrest
    exact .head (.act ht hr) hrest
  have hstay {p : Pool σ α} {t : Task σ α} (ht : p.tasks[i]? = some t) :
      Reaches p (p.put i ⟨t, p.shared, p.log⟩) := by
    rw [put_self ht]
    exact .refl
  induction t generalizing p with
  | done | crash => exact hstay ht
  | now next ih => exact hstep ht rfl (ih _ (task_put ht _))
  | sleepUntil moment next ih =>
    by_cases hover : moment ≤ p.clock
    · have hadvance : (Task.sleepUntil moment next).advance p.clock p.shared p.log =
          next.advance p.clock p.shared p.log := if_pos hover
      rw [hadvance]
      exact hstep ht (if_pos hover) (ih (task_put ht _))
    · have hadvance : (Task.sleepUntil moment next).advance p.clock p.shared p.log =
          ⟨.sleepUntil moment next, p.shared, p.log⟩ := if_neg hover
      rw [hadvance]
      exact hstay ht
  | access change next ih => exact hstep ht rfl (ih _ (task_put ht _))
  | call asked next ih => exact hstep ht rfl (ih (task_put ht _))
  | note notice next ih => exact hstep ht rfl (ih (task_put ht _))

/-- A task whose turn has come goes on in the same way. -/
theorem reaches_resume (ht : p.tasks[i]? = some t) {clock : Duration}
    (hwakes : t.wakes clock = some p.clock) :
    Reaches p (p.put i (t.resume p.clock p.shared p.log)) := by
  cases t with
  | sleepUntil target next =>
    have hover := Task.le_of_wakes hwakes
    have hnext := reaches_advance (task_put ht ⟨next, p.shared, p.log⟩)
    rw [put_put] at hnext
    exact .head (.act ht (if_pos hover)) hnext
  | done | crash | now | access | call | note => exact reaches_advance ht

/-- The soonest of some tasks is neither behind the first nor behind the soonest of the rest. -/
theorem soonest_cons_le {clock moment : Duration} {first : Task σ α} {ts : List (Task σ α)}
    (h : soonest clock (first :: ts) = some (moment, i)) :
    (∀ wake, first.wakes clock = some wake → moment ≤ wake) ∧
      ∀ other j, soonest clock ts = some (other, j) → moment ≤ other := by
  unfold soonest at h
  cases hfirst : first.wakes clock with
  | none =>
    cases hrest : soonest clock ts with
    | none =>
      rw [hfirst, hrest] at h
      cases h
    | some e =>
      rw [hfirst, hrest] at h
      obtain ⟨rfl, -⟩ := Prod.mk.inj (Option.some.inj h)
      refine ⟨fun wake hwake => (by cases hwake), fun other j hother => ?_⟩
      obtain rfl := Option.some.inj hother
      exact Duration.le_refl _
  | some wake =>
    cases hrest : soonest clock ts with
    | none =>
      rw [hfirst, hrest] at h
      obtain ⟨rfl, -⟩ := Prod.mk.inj (Option.some.inj h)
      refine ⟨fun wake' hwake' => ?_, fun other j hother => (by cases hother)⟩
      obtain rfl := Option.some.inj hwake'
      exact Duration.le_refl _
    | some e =>
      rw [hfirst, hrest] at h
      dsimp only at h
      have hle : moment ≤ wake ∧ moment ≤ e.1 := by
        by_cases hbefore : e.1 < wake
        · rw [if_pos hbefore] at h
          obtain ⟨rfl, -⟩ := Prod.mk.inj (Option.some.inj h)
          exact ⟨Nat.le_of_lt hbefore, Duration.le_refl _⟩
        · rw [if_neg hbefore] at h
          obtain ⟨rfl, -⟩ := Prod.mk.inj (Option.some.inj h)
          exact ⟨Duration.le_refl _, Duration.not_lt.mp hbefore⟩
      refine ⟨fun wake' hwake' => ?_, fun other j hother => ?_⟩
      · obtain rfl := Option.some.inj hwake'
        exact hle.1
      · obtain rfl := Option.some.inj hother
        exact hle.2

/-- Nobody can go on before the soonest. -/
theorem soonest_le {clock moment wake : Duration} {ts : List (Task σ α)}
    (h : soonest clock ts = some (moment, i)) (ht : t ∈ ts) (hwake : t.wakes clock = some wake) :
    moment ≤ wake := by
  induction ts generalizing moment i with
  | nil => cases ht
  | cons first ts ih =>
    obtain ⟨hfirst, hrest⟩ := soonest_cons_le h
    rcases List.mem_cons.mp ht with rfl | ht
    · exact hfirst wake hwake
    · cases hs : soonest clock ts with
      | none =>
        have hended := List.all_eq_true.mp ((soonest_eq_none_iff clock).mp hs) t ht
        rw [(Task.wakes_eq_none_iff clock).mpr hended] at hwake
        cases hwake
      | some e => exact Duration.le_trans (hrest e.1 e.2 hs) (ih hs ht)

theorem ended_eq_false {clock moment : Duration} (h : soonest clock p.tasks = some (moment, i)) :
    p.ended = false := by
  rw [Bool.eq_false_iff]
  intro hended
  rw [(soonest_eq_none_iff clock).mpr hended] at h
  cases h

theorem reaches_step {limit : Option Duration} (h : p.step limit = some q) : Reaches p q := by
  obtain ⟨moment, i, t, hs, -, ht, hwakes, rfl⟩ := step_cases h
  by_cases hnow : moment ≤ p.clock
  · obtain rfl : moment = p.clock := Duration.le_antisymm hnow (Task.le_wakes hwakes)
    exact reaches_resume ht hwakes
  · have hlater : p.clock < moment := Nat.lt_of_not_le hnow
    obtain ⟨target, -, -, -, rfl⟩ := Task.sleeps_of_wakes hwakes hlater
    have hpass : Moves p { p with clock := target.roundUp } :=
      .pass (ended_eq_false hs) hlater target.roundUp_roundUp fun _ ht _ hwake =>
        soonest_le hs ht hwake
    exact .head hpass (reaches_resume (p := { p with clock := target.roundUp }) ht hwakes)

/-- **The pool's own way to run its tasks** is one of those that are left open. -/
theorem reaches_run (limit : Option Duration) (p : Pool σ α) : Reaches p (p.run limit) := by
  induction p using run_induction limit with
  | stop p h =>
    rw [run_eq, h]
    exact .refl
  | step p q h ih =>
    rw [run_of_step h]
    exact (reaches_step h).trans ih

/-! ### Every way comes to an end -/

/-- How long it takes until somebody wakes. -/
def gap (p : Pool σ α) : Nat :=
  match soonest p.clock p.tasks with
  | none => 0
  | some (moment, _) => moment.nanos - p.clock.nanos

theorem gap_eq {moment : Duration} (h : soonest p.clock p.tasks = some (moment, i)) :
    p.gap = moment.nanos - p.clock.nanos := by
  rw [gap, h]

/-- A clock that moves on gets nearer to the moment at which somebody wakes. -/
theorem gap_lt_of_pass {moment : Duration} (hopen : p.ended = false) (hlater : p.clock < moment)
    (hwhole : moment.roundUp = moment)
    (hturn : ∀ t ∈ p.tasks, ∀ wake, t.wakes p.clock = some wake → moment ≤ wake) :
    gap { p with clock := moment } < p.gap := by
  cases hs : soonest p.clock p.tasks with
  | none =>
    have hended : p.ended = true := (soonest_eq_none_iff p.clock).mp hs
    rw [hopen] at hended
    cases hended
  | some e =>
    obtain ⟨first, i⟩ := e
    obtain ⟨t, ht, hwakes⟩ := soonest_wakes hs
    have hmem := List.mem_of_getElem? ht
    have hfirst : moment.nanos ≤ first.nanos := hturn t hmem first hwakes
    have hclock : p.clock.nanos < moment.nanos := hlater
    obtain ⟨target, next, rfl, hsleeps, rfl⟩ :=
      Task.sleeps_of_wakes hwakes (Nat.lt_of_lt_of_le hclock hfirst)
    -- The same task still wakes when it would have, so the soonest is not later.
    have hsame : (Task.sleepUntil target next).wakes moment = some target.roundUp := by
      have hwoken : p.clock.woken target = target.roundUp := if_neg hsleeps
      rw [← hwoken] at hfirst ⊢
      exact congrArg some (Duration.woken_of_le hwhole hfirst hsleeps)
    rw [gap_eq hs]
    cases hs' : soonest moment p.tasks with
    | none =>
      have hgap : gap { p with clock := moment } = 0 := by
        unfold gap
        simp only [hs']
      omega
    | some e =>
      have hle : e.1.nanos ≤ target.roundUp.nanos := soonest_le (i := e.2) hs' hmem hsame
      have hgap : gap { p with clock := moment } = e.1.nanos - moment.nanos := gap_eq (i := e.2) hs'
      omega

/-- **No pool moves for ever**, in whatever order its tasks take their steps. -/
theorem wellFounded_moves : WellFounded fun q p : Pool σ α => Moves p q := by
  have hlex := (Shrinks.wellFounded (Task.wellFounded_next (σ := σ) (α := α)).transGen).prod_lex
    Nat.lt_wfRel.wf
  refine Subrelation.wf (fun {q p} h => ?_)
    (InvImage.wf (fun p : Pool σ α => (p.tasks, p.gap)) hlex)
  cases h with
  | act ht hr => exact .left _ _ (Shrinks.set ht (.single (Task.next_of_act hr)))
  | pass hopen hlater hwhole hturn => exact .right _ (gap_lt_of_pass hopen hlater hwhole hturn)

/-- A pool whose tasks have not all ended can move. -/
theorem exists_moves (h : p.ended = false) : ∃ q, Moves p q := by
  cases hstep : p.step none with
  | none =>
    rw [step_none_eq_none_iff.mp hstep] at h
    cases h
  | some q =>
    rcases (reaches_step hstep).cases_head with rfl | ⟨r, hr, -⟩
    · have hless := step_shrinks hstep
      exact absurd hless (WellFoundedRelation.wf.asymmetric _ _ hless)
    · exact ⟨r, hr⟩

/-! ### What becomes of each task -/

/-- **On every way, each task ends as if nobody had kept it waiting.** -/
theorem settles_of_reaches (h : Reaches p q) (hended : q.ended = true) (ht : p.tasks[i]? = some t) :
    ∃ last, q.tasks[i]? = some last ∧ last.ended = true ∧
      Task.Settles p.clock t last.result? := by
  induction h using Relation.ReflTransGen.head_induction_on generalizing t with
  | refl =>
    have hlast := List.all_eq_true.mp hended t (List.mem_of_getElem? ht)
    exact ⟨t, ht, hlast, .of_ended hlast⟩
  | head hmove _ ih =>
    cases hmove with
    | @act j u r hu hr =>
      by_cases hij : j = i
      · subst hij
        obtain rfl := Option.some.inj (hu.symm.trans ht)
        obtain ⟨last, hlast, hlastended, hsettles⟩ := ih (task_put ht r)
        exact ⟨last, hlast, hlastended, .of_act hr hsettles⟩
      · have hkept : (Pool.put _ j r).tasks[i]? = some t :=
          (List.getElem?_set_ne hij).trans ht
        exact ih hkept
    | pass hopen hlater hwhole hturn =>
      obtain ⟨last, hlast, hlastended, hsettles⟩ := ih ht
      have hmem := List.mem_of_getElem? ht
      exact ⟨last, hlast, hlastended, .of_pass hlater hwhole (hturn t hmem) hsettles⟩

end Pool

end LedgerLoad
