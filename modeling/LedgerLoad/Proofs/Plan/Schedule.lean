import LedgerLoad.Proofs.Primary.Course
import LedgerLoad.Proofs.Primary.Placement

/-! # One schedule for any number of secondaries

What is to be done in a run does not depend on how many secondaries there are to do it. The
workloads give their interactions one after another (`Plan.streams`), these are sorted by time, and
only then is it decided who gets which. Main statements: `Plan.filter_sorted`, what is due together
keeps its order; `Plan.schedule_eq_ok`, a schedule is what the workloads give, sorted; and
`plan_one_schedule`, the shards of any number of secondaries are one schedule dealt out, also if
some were left out before. -/

namespace LedgerLoad

variable {β : Type}

namespace Plan

/-! ### Sorting by time -/

theorem due_trans (x y z : Interaction) (hxy : decide (x.due ≤ y.due) = true)
    (hyz : decide (y.due ≤ z.due) = true) : decide (x.due ≤ z.due) = true :=
  decide_eq_true (Duration.le_trans (of_decide_eq_true hxy) (of_decide_eq_true hyz))

theorem due_total (x y : Interaction) :
    (decide (x.due ≤ y.due) || decide (y.due ≤ x.due)) = true := by
  rw [Bool.or_eq_true, decide_eq_true_eq, decide_eq_true_eq]
  exact Nat.le_total x.due.nanos y.due.nanos

theorem perm_sorted (xs : List Interaction) : (sorted xs).Perm xs := List.mergeSort_perm xs _

theorem pairwise_sorted (xs : List Interaction) :
    (sorted xs).Pairwise fun x y => x.due ≤ y.due :=
  (List.pairwise_mergeSort due_trans due_total xs).imp of_decide_eq_true

/-- **What is due together keeps the order in which it was made.** -/
theorem filter_sorted (due : Duration) (xs : List Interaction) :
    (sorted xs).filter (fun x => decide (x.due = due)) =
      xs.filter fun x => decide (x.due = due) := by
  have htogether : (xs.filter fun x => decide (x.due = due)).Pairwise
      fun x y => decide (x.due ≤ y.due) = true := by
    refine List.pairwise_of_forall_mem_list fun x hx y hy => decide_eq_true ?_
    rw [of_decide_eq_true (List.mem_filter.mp hx).2, of_decide_eq_true (List.mem_filter.mp hy).2]
    exact Duration.le_refl due
  have hkept : (xs.filter fun x => decide (x.due = due)).Sublist (sorted xs) :=
    List.sublist_mergeSort due_trans due_total htogether List.filter_sublist
  have hsub := hkept.filter fun x => decide (x.due = due)
  rw [List.filter_filter] at hsub
  simp only [Bool.and_self] at hsub
  exact (hsub.eq_of_length ((perm_sorted xs).filter _).length_eq.symm).symm

/-! ### What the workloads give -/

/-- What each workload gives, one workload after another, once the builder has provided for them. -/
def streams (builder : Builder β) (b : Benchmark) : Planning β (List (List Interaction)) := do
  let p ← provide builder b
  b.workloads.zipIdx.mapM fun (w, place) => interactions builder p w place

theorem due?_of_interaction {builder : Builder β} {p : Provisions} {w : Workload}
    {fixed : Option Bytes} {i : Nat} {x : Interaction} {before after : Random.Source × β}
    (h : interaction builder p w fixed i before = .ok (x, after)) : w.due? i = some x.due := by
  unfold interaction at h
  cases hdue : w.due? i with
  | none =>
    rw [hdue] at h
    cases h
  | some due =>
    rw [hdue] at h
    cases fixed with
    | some octets =>
      obtain ⟨rfl, -⟩ := Prod.mk.inj (Except.ok.inj h)
      rfl
    | none =>
      obtain ⟨octets, between, -, h⟩ := bind_eq_ok h
      obtain ⟨rfl, -⟩ := Prod.mk.inj (Except.ok.inj h)
      rfl

/-- The interactions of a workload come in the order of their numbers. -/
theorem due?_of_interactions {builder : Builder β} {p : Provisions} {w : Workload} {place : Nat}
    {xs : List Interaction} {before after : Random.Source × β}
    (h : interactions builder p w place before = .ok (xs, after)) {i : Nat} {x : Interaction}
    (hx : xs[i]? = some x) : w.due? i = some x.due := by
  unfold interactions at h
  cases hobstacle : obstacle? builder p w place with
  | some fault =>
    rw [hobstacle] at h
    cases h
  | none =>
    rw [hobstacle] at h
    have hall := mapM_eq_ok h
    obtain ⟨hi, rfl⟩ := List.getElem?_eq_some_iff.mp hx
    have hlength := hall.length_eq
    obtain ⟨before, after, hmade⟩ := hall.get (hlength ▸ hi) hi
    rw [List.get_eq_getElem, List.getElem_range] at hmade
    exact due?_of_interaction hmade

/-- Each workload gives as many interactions as it asks for, each due in its turn. -/
theorem forall_streams {builder : Builder β} {b : Benchmark} {parts : List (List Interaction)}
    {before after : Random.Source × β} (h : streams builder b before = .ok (parts, after)) :
    List.Forall₂ (fun w xs => xs.length = w.count ∧
      ∀ i x, xs[i]? = some x → w.due? i = some x.due) b.workloads parts := by
  obtain ⟨p, between, -, h⟩ := bind_eq_ok h
  have hall := mapM_eq_ok h
  rw [← List.zipIdx_map_fst 0 b.workloads, List.forall₂_map_left_iff]
  refine hall.imp fun w xs hmade => ?_
  obtain ⟨before, after, hmade⟩ := hmade
  exact ⟨length_interactions hmade, fun i x hx => due?_of_interactions hmade hx⟩

/-- **A schedule is what the workloads give**, sorted by time. -/
theorem schedule_eq_ok {builder : Builder β} {b : Benchmark} {schedule : List Interaction}
    {before after : Random.Source × β}
    (h : Plan.schedule builder b before = .ok (schedule, after)) :
    ∃ parts, streams builder b before = .ok (parts, after) ∧ schedule = sorted parts.flatten := by
  unfold Plan.schedule at h
  obtain ⟨p, between, hprovide, h⟩ := bind_eq_ok h
  by_cases hlong : greatestLength < b.total
  · rw [if_pos hlong] at h
    cases h
  rw [if_neg hlong] at h
  obtain ⟨parts, between', hparts, h⟩ := bind_eq_ok h
  obtain ⟨rfl, rfl⟩ := Prod.mk.inj (Except.ok.inj h)
  exact ⟨parts, (bind_of_ok hprovide).trans hparts, rfl⟩

end Plan

/-! ### Secondaries that are left out before -/

namespace Primary

variable {σ κ : Type}

/-- Work that is given out was planned for those who take part. -/
theorem Brief.planShards_of_planned {b : Brief σ β} {adapter : Adapter σ β}
    (hadapter : b.registry.find? b.setup.ledger = some adapter) {n : Nat} {shards : List Shard}
    (h : b.planned n = .workload shards) :
    planShards adapter b.setup b.benchmark b.campaign n = .ok shards := by
  rw [planned, hadapter] at h
  dsimp only at h
  cases hshards : planShards adapter b.setup b.benchmark b.campaign n with
  | error stop =>
    rw [hshards] at h
    have houtcome := congrArg Point.outcome? h
    rw [Point.outcome_decided] at houtcome
    cases houtcome
  | ok planned =>
    rw [hshards] at h
    dsimp only at h
    by_cases hlength : planned.length = n
    · rw [if_pos hlength] at h
      rw [Point.workload.inj h]
    · rw [if_neg hlength] at h
      cases h

/-- Whoever has failed the first phase, the work is planned for those who are left. -/
theorem planned_of_advance {execute : Executor κ} {b : Brief σ β} {p : Primary κ}
    {shards : List Shard} (h : (advance execute b ⟨b.opening, p⟩).point = .workload shards) :
    b.planned (advance execute b ⟨b.opening, p⟩).primary.active.length = .workload shards := by
  unfold Brief.opening at h ⊢
  by_cases hadapter : (b.registry.find? b.setup.ledger).isSome
  · rw [if_pos hadapter] at h ⊢
    unfold advance at h ⊢
    have hphase : Point.prepare.phase? = some .prepare := rfl
    obtain ⟨q, -, ⟨fault, -, hturn⟩ | ⟨-, hturn⟩⟩ := turn_cases b hphase
      (Standing.asked execute b ⟨.prepare, p⟩).1 (Standing.asked execute b ⟨.prepare, p⟩).2
    · rw [hturn] at h
      cases h
    · rw [hturn] at h ⊢
      exact h
  · rw [if_neg hadapter] at h
    cases h

end Primary

/-! ### The shards of a plan -/

/-- What it means that a plan is one schedule dealt out, whoever it is dealt to. -/
structure OneSchedule (builder : Builder β) (state : β) (b : Benchmark) (seed : Nat)
    (parts : List (List Interaction)) (schedule : List Interaction) : Prop where
  /-- The parts are what the workloads give, one after another. -/
  streams : ∃ after, Plan.streams builder b (.ofSeed seed, state) = .ok (parts, after)
  generated : List.Forall₂ (fun w xs => xs.length = w.count ∧
    ∀ i x, xs[i]? = some x → w.due? i = some x.due) b.workloads parts
  /-- Each interaction of each workload is there once. -/
  perm : schedule.Perm parts.flatten
  length : schedule.length = b.total
  ordered : schedule.Pairwise fun x y => x.due ≤ y.due
  /-- What is due together is in the order of the workloads, and of one workload in its order. -/
  ties : ∀ due, schedule.filter (fun x => decide (x.due = due)) =
    parts.flatten.filter fun x => decide (x.due = due)
  /-- For any number of secondaries, the shards in round-robin order are the schedule. -/
  dealt : ∀ secondaries, 0 < secondaries → ∃ shards,
    plan builder state b secondaries seed = .ok shards ∧ shards.length = secondaries ∧
      (∀ turns, (∀ shard ∈ shards, shard.length ≤ turns) →
        RoundRobin.gather shards turns = schedule) ∧
      ∀ shard ∈ shards, ∀ other ∈ shards, shard.length ≤ other.length + 1
  /-- Whoever is left out before work is given out, it is the same work that is given to others. -/
  leftOut : ∀ {σ κ : Type} (brief : Primary.Brief σ β) (adapter : Adapter σ β)
    (execute : Executor κ) (p : Primary κ) (shards : List Shard),
    brief.registry.find? brief.setup.ledger = some adapter →
    adapter.builder brief.setup.parameters brief.campaign.environment brief.setup.endpoints =
      .ok (builder, state) →
    brief.benchmark = b → brief.campaign.seed = seed →
    (Primary.advance execute brief ⟨brief.opening, p⟩).point = .workload shards →
      shards.length = (Primary.advance execute brief ⟨brief.opening, p⟩).primary.active.length ∧
      ∀ turns, (∀ shard ∈ shards, shard.length ≤ turns) →
        RoundRobin.gather shards turns = schedule

/-- **A plan is one schedule dealt out**: if planning succeeds for some number of secondaries, it
succeeds for any, and there is one schedule for all of them. -/
theorem plan_one_schedule {builder : Builder β} {state : β} {b : Benchmark} {secondaries seed : Nat}
    {shards : List Shard} (h : plan builder state b secondaries seed = .ok shards) :
    ∃ parts schedule, OneSchedule builder state b seed parts schedule := by
  obtain ⟨-, schedule, after, hschedule, -⟩ := plan_eq_ok h
  obtain ⟨parts, hstreams, hsorted⟩ := Plan.schedule_eq_ok hschedule
  refine ⟨parts, schedule, ⟨after, hstreams⟩, Plan.forall_streams hstreams, ?_,
    Plan.length_schedule hschedule, ?_, fun due => ?_, fun n hn => ?_, ?_⟩
  · rw [hsorted]
    exact Plan.perm_sorted parts.flatten
  · rw [hsorted]
    exact Plan.pairwise_sorted parts.flatten
  · rw [hsorted]
    exact Plan.filter_sorted due parts.flatten
  · exact ⟨_, plan_of_schedule hn hschedule, RoundRobin.length_deal n schedule,
      fun turns hturns => RoundRobin.gather_deal hn hturns,
      fun shard hshard other hother => RoundRobin.length_le_of_mem_deal hshard hother⟩
  · rintro σ κ brief adapter execute p shards hadapter hbuilder rfl rfl hpoint
    have hshards := brief.planShards_of_planned hadapter (Primary.planned_of_advance hpoint)
    obtain ⟨hn, builder', state', schedule', after', hbuilder', hschedule', rfl⟩ :=
      Primary.planShards_eq_ok hshards
    obtain ⟨rfl, rfl⟩ := Prod.mk.inj (Except.ok.inj (hbuilder.symm.trans hbuilder'))
    obtain ⟨rfl, -⟩ := Prod.mk.inj (Except.ok.inj (hschedule.symm.trans hschedule'))
    exact ⟨RoundRobin.length_deal _ _, fun turns hturns => RoundRobin.gather_deal hn hturns⟩

/-- Four interactions that are planned for two secondaries, and so for any number of them. -/
theorem plan_one_schedule_idle :
    plan Idle.builder () Idle.benchmark 2 0 = .ok (RoundRobin.deal 2 Idle.schedule) ∧
      ∃ parts, OneSchedule Idle.builder () Idle.benchmark 0 parts Idle.schedule := by
  obtain ⟨after, hschedule⟩ := Idle.schedule_eq
  have hplan : plan Idle.builder () Idle.benchmark 2 0 = .ok (RoundRobin.deal 2 Idle.schedule) :=
    plan_of_schedule Nat.two_pos hschedule
  obtain ⟨parts, schedule, hone⟩ := plan_one_schedule hplan
  obtain ⟨shards, hshards, -, hgather, -⟩ := hone.dealt 2 Nat.two_pos
  obtain rfl := Except.ok.inj (hplan.symm.trans hshards)
  have hturns : ∀ shard ∈ RoundRobin.deal 2 Idle.schedule, shard.length ≤ 2 := by decide
  have hsame : schedule = Idle.schedule :=
    (hgather 2 hturns).symm.trans (RoundRobin.gather_deal Nat.two_pos hturns)
  exact ⟨hplan, parts, hsame ▸ hone⟩

end LedgerLoad
