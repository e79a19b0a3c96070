import LedgerLoad.Plan
import LedgerLoad.Proofs.RoundRobin
import Mathlib.Data.List.Forall2

/-! # The length of a plan

Planning that succeeds gives a schedule with as many interactions as the workloads ask for
(`Plan.length_schedule`), dealt out in shards, one for each secondary (`plan_eq_ok`). -/

namespace LedgerLoad

namespace Plan

variable {β α γ : Type}

theorem bind_eq_ok {x : Planning β α} {f : α → Planning β γ} {before after : Random.Source × β}
    {c : γ} (h : (x >>= f) before = .ok (c, after)) :
    ∃ a between, x before = .ok (a, between) ∧ f a between = .ok (c, after) := by
  change (x before >>= fun p => f p.1 p.2) = .ok (c, after) at h
  cases hx : x before with
  | error fault =>
    rw [hx] at h
    cases h
  | ok p =>
    rw [hx] at h
    exact ⟨p.1, p.2, rfl, h⟩

theorem bind_of_ok {x : Planning β α} {f : α → Planning β γ} {before between : Random.Source × β}
    {a : α} (h : x before = .ok (a, between)) : (x >>= f) before = f a between := by
  change (x before >>= fun p => f p.1 p.2) = f a between
  rw [h]
  rfl

theorem mapM_eq_ok {f : α → Planning β γ} {xs : List α} {ys : List γ}
    {before after : Random.Source × β} (h : xs.mapM f before = .ok (ys, after)) :
    List.Forall₂ (fun x y => ∃ before after, f x before = .ok (y, after)) xs ys := by
  induction xs generalizing ys before after with
  | nil =>
    rw [List.mapM_nil] at h
    obtain ⟨rfl, -⟩ := Prod.mk.inj (Except.ok.inj h)
    exact .nil
  | cons x xs ih =>
    rw [List.mapM_cons] at h
    obtain ⟨y, between, hy, h⟩ := bind_eq_ok h
    obtain ⟨ys', between', hys, h⟩ := bind_eq_ok h
    obtain ⟨rfl, -⟩ := Prod.mk.inj (Except.ok.inj h)
    exact .cons ⟨before, between, hy⟩ (ih hys)

/-- A payload that is fixed is the one that the builder gives each time it is asked. -/
theorem payload_of_fixed {builder : Builder β} {kind : WorkloadKind} {octets : Bytes}
    (h : fixedPayload builder kind = some octets) (p : Provisions) (i : Nat)
    (before : Random.Source × β) : payload builder p kind i before = .ok (octets, before) := by
  cases kind with
  | custom name =>
    obtain ⟨source, b⟩ := before
    show call (builder.encodeInteraction name) (source, b) = _
    rw [call, builder.encodeInteraction_of_fixed name octets b h]
  | _ => cases h

/-- An interaction is the same whether or not its payload is taken as fixed. -/
theorem interaction_fixedPayload (builder : Builder β) (p : Provisions) (w : Workload) (i : Nat) :
    interaction builder p w (fixedPayload builder w.kind) i = interaction builder p w none i := by
  cases hfixed : fixedPayload builder w.kind with
  | none => rfl
  | some octets =>
    funext before
    unfold interaction
    cases w.due? i with
    | none => rfl
    | some due =>
      simp only
      rw [bind_of_ok (payload_of_fixed hfixed p i before)]

theorem length_interactions {builder : Builder β} {p : Provisions} {w : Workload} {place : Nat}
    {xs : List Interaction} {before after : Random.Source × β}
    (h : interactions builder p w place before = .ok (xs, after)) : xs.length = w.count := by
  unfold interactions at h
  cases hobstacle : obstacle? builder p w place with
  | some fault =>
    rw [hobstacle] at h
    cases h
  | none =>
    rw [hobstacle] at h
    have hlength := (mapM_eq_ok h).length_eq
    rw [List.length_range] at hlength
    exact hlength.symm

theorem length_parts {builder : Builder β} {p : Provisions} {ws : List (Workload × Nat)}
    {parts : List (List Interaction)}
    (h : List.Forall₂ (fun w xs => ∃ before after,
      interactions builder p w.1 w.2 before = .ok (xs, after)) ws parts) :
    parts.flatten.length = (ws.map fun w => w.1.count).sum := by
  induction h with
  | nil => rfl
  | cons h _ ih =>
    obtain ⟨before, after, h⟩ := h
    rw [List.flatten_cons, List.length_append, ih, length_interactions h, List.map_cons,
      List.sum_cons]

/-- **A schedule has as many interactions as the workloads ask for.** -/
theorem length_schedule {builder : Builder β} {b : Benchmark} {xs : List Interaction}
    {before after : Random.Source × β} (h : schedule builder b before = .ok (xs, after)) :
    xs.length = b.total := by
  unfold schedule at h
  obtain ⟨p, between, -, h⟩ := bind_eq_ok h
  by_cases hlong : greatestLength < b.total
  · rw [if_pos hlong] at h
    cases h
  rw [if_neg hlong] at h
  obtain ⟨parts, between', hparts, h⟩ := bind_eq_ok h
  obtain ⟨rfl, -⟩ := Prod.mk.inj (Except.ok.inj h)
  have hzip : b.workloads.zipIdx.map (fun w => w.1.count) = b.workloads.map Workload.count := by
    have hcomp : (fun w : Workload × Nat => w.1.count) = Workload.count ∘ Prod.fst := rfl
    rw [hcomp, ← List.map_map, List.zipIdx_map_fst]
  rw [sorted, List.length_mergeSort, length_parts (mapM_eq_ok hparts), hzip, Benchmark.total]

/-- A schedule is what all workloads give, sorted. -/
theorem schedule_eq {builder : Builder β} {b : Benchmark} {p : Provisions}
    {parts : List (List Interaction)} {before between after : Random.Source × β}
    (hprovide : provide builder b before = .ok (p, between)) (htotal : b.total ≤ greatestLength)
    (hparts : (b.workloads.zipIdx.mapM fun w => interactions builder p w.1 w.2) between =
      .ok (parts, after)) : schedule builder b before = .ok (sorted parts.flatten, after) := by
  unfold schedule
  rw [bind_of_ok hprovide, if_neg (Nat.not_lt.mpr htotal)]
  exact bind_of_ok hparts

end Plan

/-- The shards of a plan are dealt from its schedule. -/
theorem plan_eq_ok {β : Type} {builder : Builder β} {state : β} {b : Benchmark}
    {secondaries seed : Nat} {shards : List Shard}
    (h : plan builder state b secondaries seed = .ok shards) : 0 < secondaries ∧
      ∃ schedule after, Plan.schedule builder b (.ofSeed seed, state) = .ok (schedule, after) ∧
        shards = RoundRobin.deal secondaries schedule := by
  unfold plan at h
  by_cases hzero : secondaries = 0
  · rw [if_pos hzero] at h
    cases h
  · rw [if_neg hzero] at h
    cases hschedule : Plan.schedule builder b (.ofSeed seed, state) with
    | error fault =>
      simp only [StateT.run, hschedule] at h
      cases h
    | ok p =>
      simp only [StateT.run, hschedule] at h
      obtain rfl := Except.ok.inj h
      refine ⟨Nat.pos_of_ne_zero hzero, p.1, p.2, rfl, ?_⟩
      rw [Plan.deal, Nat.max_eq_left (Nat.pos_of_ne_zero hzero)]

/-- A schedule is dealt to any number of secondaries but none. -/
theorem plan_of_schedule {β : Type} {builder : Builder β} {state : β} {b : Benchmark}
    {secondaries seed : Nat} (hpos : 0 < secondaries) {schedule : List Interaction}
    {after : Random.Source × β}
    (h : Plan.schedule builder b (.ofSeed seed, state) = .ok (schedule, after)) :
    plan builder state b secondaries seed = .ok (RoundRobin.deal secondaries schedule) := by
  unfold plan
  rw [if_neg (Nat.ne_of_gt hpos)]
  simp only [StateT.run, h]
  show Except.ok (Plan.deal secondaries schedule) = _
  rw [Plan.deal, Nat.max_eq_left hpos]

/-- What stands against a schedule stands against a plan. -/
theorem plan_of_schedule_error {β : Type} {builder : Builder β} {state : β} {b : Benchmark}
    {secondaries seed : Nat} (hpos : 0 < secondaries) {stop : PlanStop}
    (h : Plan.schedule builder b (.ofSeed seed, state) = .error stop) :
    plan builder state b secondaries seed = .error stop := by
  unfold plan
  rw [if_neg (Nat.ne_of_gt hpos)]
  simp only [StateT.run, h]
  rfl

/-- A plan stops as its schedule does, if there is anybody to plan for. -/
theorem plan_eq_error {β : Type} {builder : Builder β} {state : β} {b : Benchmark}
    {secondaries seed : Nat} {stop : PlanStop}
    (h : plan builder state b secondaries seed = .error stop) :
    stop = .fault .noSecondaries ∨ 0 < secondaries ∧
      Plan.schedule builder b (.ofSeed seed, state) = .error stop := by
  rcases Nat.eq_zero_or_pos secondaries with rfl | hpos
  · exact .inl (Except.error.inj h).symm
  · cases hschedule : Plan.schedule builder b (.ofSeed seed, state) with
    | ok made =>
      rw [plan_of_schedule hpos hschedule] at h
      cases h
    | error stop' =>
      rw [plan_of_schedule_error hpos hschedule] at h
      exact .inr ⟨hpos, congrArg Except.error (Except.error.inj h)⟩

end LedgerLoad
