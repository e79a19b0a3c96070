import Mathlib.Logic.Function.Iterate
import LedgerLoad.Proofs.Primary.Seats

/-! # The course of a run

A run is a row of rounds: in each round some secondaries are sent a request and all answers are
waited for, and then it is decided what the next round is. `Point` says which round comes next and
`advance` goes through it. A run that breaks down in planning is over at once, without the last
round. Main statements: `advance_run`, five rounds are a whole run, and `settled_cases`, what there
is to decide after a phase. -/

namespace LedgerLoad

namespace Command

/-- The phases of a run, in order. -/
def phases : List Command := [.prepare, .workload, .run, .results]

/-- How many phases come before a command. -/
def stage : Command → Nat
  | .prepare => 0
  | .workload => 1
  | .run => 2
  | .results => 3
  | .fin => 4

theorem take_phases_succ {c : Command} (hc : c ≠ .fin) :
    phases.take (c.stage + 1) = phases.take c.stage ++ [c] := by
  cases c <;> first | rfl | exact absurd rfl hc

end Command

namespace Primary

variable {κ σ β : Type} {execute : Executor κ}

/-- What a run is to do. -/
structure Brief (σ β : Type) where
  registry : Registry σ β
  setup : Setup
  benchmark : Benchmark
  campaign : Campaign

/-- A run as its brief says. -/
def Brief.run (execute : Executor κ) (b : Brief σ β) (p : Primary κ) :
    Except RunStop CampaignResult × Primary κ :=
  p.run execute b.registry b.setup b.benchmark b.campaign

/-- Which round of a run comes next. -/
inductive Point
  | prepare
  | workload (shards : List Shard)
  | run
  | results
  /-- It is decided what the run comes to; everyone is still to be sent the last request. -/
  | fin (outcome : Except RunFault CampaignResult)
  | ended (outcome : Except RunStop CampaignResult)

namespace Point

/-- How many phases come before a point, or would have come. -/
def stage : Point → Nat
  | prepare => 0
  | workload _ => 1
  | run => 2
  | results => 3
  | fin _ => 4
  | ended _ => 5

/-- The phase that comes next, after which the fault policy decides. -/
def phase? : Point → Option Command
  | prepare => some .prepare
  | workload _ => some .workload
  | run => some .run
  | results => some .results
  | fin _ => none
  | ended _ => none

/-- What a run comes to, once that is decided. -/
def outcome? : Point → Option (Except RunStop CampaignResult)
  | fin outcome => some (outcome.mapError .fault)
  | ended outcome => some outcome
  | _ => none

/-- Where a run goes once it is decided what it comes to. Only if it breaks down is there no round
left. -/
def decided : Except RunStop CampaignResult → Point
  | .ok result => fin (.ok result)
  | .error (.fault fault) => fin (.error fault)
  | .error .crash => ended (.error .crash)

theorem outcome_decided (outcome : Except RunStop CampaignResult) :
    (decided outcome).outcome? = some outcome := by
  rcases outcome with (fault | _) | result <;> rfl

theorem ne_ended {point : Point} (h : point.stage < 5)
    (outcome : Except RunStop CampaignResult) : point ≠ ended outcome := by
  rintro rfl
  exact absurd h (Nat.lt_irrefl 5)

theorem stage_of_phase {point : Point} {c : Command} (h : point.phase? = some c) :
    c.stage = point.stage ∧ c ≠ .fin ∧ point.stage < 4 := by
  cases point <;> cases h <;> refine ⟨rfl, nofun, ?_⟩ <;> simp [stage]

end Point

/-- Where a run begins: without an adapter for its ledger it is over at once. -/
def Brief.opening (b : Brief σ β) : Point :=
  if (b.registry.find? b.setup.ledger).isSome then .prepare
  else .fin (.error (.unknownLedger b.setup.ledger))

/-- Plans the work for some number of secondaries. -/
def Brief.planned (b : Brief σ β) (active : Nat) : Point :=
  match b.registry.find? b.setup.ledger with
  | none => .fin (.error (.unknownLedger b.setup.ledger))
  | some adapter =>
    match planShards adapter b.setup b.benchmark b.campaign active with
    | .error stop => .decided (.error stop)
    | .ok shards =>
      if shards.length = active then .workload shards
      else .fin (.error (.shardCount ⟨active, shards.length⟩))

/-- The point after a round that the run goes on from. There are so many seats, and so many
secondaries that take part. -/
def Point.onward (b : Brief σ β) (responses : List (Nat × Response)) (seats active : Nat) :
    Point → Point
  | .prepare => b.planned active
  | .workload _ => .run
  | .run => .results
  | .results => .fin (.ok ⟨(List.range seats).map (slot responses)⟩)
  | .fin outcome => .ended (outcome.mapError .fault)
  | .ended outcome => .ended outcome

/-- How a run stands between two rounds. -/
structure Standing (κ : Type) where
  point : Point
  primary : Primary κ

/-- What each secondary is sent in the next round. -/
def Standing.request (b : Brief σ β) (s : Standing κ) : Nat → Option (Request Document) :=
  match s.point with
  | .prepare => forAll s.primary.active .prepare
  | .workload shards =>
    workFor s.primary.active b.setup.ledger (parametersOf b.setup b.campaign) shards
  | .run => forAll s.primary.active .run
  | .results => forAll s.primary.active .results
  | .fin _ => fun _ => some .fin
  | .ended _ => fun _ => none

/-- What becomes of a run after a phase, as the fault policy says. -/
def settled (policy : FaultPolicy) (phase : Command) (found : List Failure)
    (next : Primary κ → Point) (p : Primary κ) : Standing κ :=
  match (settle policy phase found).run.run p with
  | (.ok (), q) => ⟨next q, q⟩
  | (.error stop, q) => ⟨.decided (.error stop), q⟩

/-- What becomes of a run once all answers of a round are in. -/
def turn (b : Brief σ β) (point : Point) (responses : List (Nat × Response)) (p : Primary κ) :
    Standing κ :=
  let next (q : Primary κ) : Point := point.onward b responses p.size q.active.length
  match point.phase? with
  | some phase => settled b.campaign.policy phase (failures phase responses) next p
  | none => ⟨next p, p⟩

/-- What the next round brings, and how it leaves the links. -/
def Standing.asked (execute : Executor κ) (b : Brief σ β) (s : Standing κ) :
    List (Nat × Response) × Primary κ :=
  s.primary.fanOut execute (s.request b)

/-- Goes through one round. -/
def advance (execute : Executor κ) (b : Brief σ β) (s : Standing κ) : Standing κ :=
  turn b s.point (s.asked execute b).1 (s.asked execute b).2

/-! ### Decisions -/

/-- After a phase a run goes on with everyone, or with those who did not fail, or it is over. -/
theorem settled_cases (policy : FaultPolicy) (phase : Command) (found : List Failure)
    (next : Primary κ → Point) (p : Primary κ) :
    found = [] ∧ settled policy phase found next p = ⟨next p, p⟩ ∨
    found ≠ [] ∧ policy = .abort ∧
      settled policy phase found next p = ⟨.fin (.error (.phaseFailed phase found)), p⟩ ∨
    found ≠ [] ∧ policy = .degrade ∧ ∃ q, q = p.exclude (found.map Failure.secondary) ∧
      (q.active = [] ∧ settled policy phase found next p = ⟨.fin (.error .noSecondaries), q⟩ ∨
        q.active ≠ [] ∧ settled policy phase found next p = ⟨next q, q⟩) := by
  cases found with
  | nil => exact .inl ⟨rfl, rfl⟩
  | cons f found =>
    cases policy with
    | abort => exact .inr (.inl ⟨List.cons_ne_nil _ _, rfl, rfl⟩)
    | degrade =>
      refine .inr (.inr ⟨List.cons_ne_nil _ _, rfl, _, rfl, ?_⟩)
      have hsettle : settled .degrade phase (f :: found) next p =
          if (p.exclude ((f :: found).map Failure.secondary)).active.isEmpty then
            ⟨.fin (.error .noSecondaries), p.exclude ((f :: found).map Failure.secondary)⟩
          else ⟨next (p.exclude ((f :: found).map Failure.secondary)),
            p.exclude ((f :: found).map Failure.secondary)⟩ := by
        rw [settled, settle]
        simp only [List.isEmpty_cons, Bool.false_eq_true, if_false]
        rw [bind_of_ok (run_step _ p)]
        cases (p.exclude ((f :: found).map Failure.secondary)).active.isEmpty <;> rfl
      by_cases hempty : (p.exclude ((f :: found).map Failure.secondary)).active = []
      · exact .inl ⟨hempty, by rw [hsettle, hempty]; rfl⟩
      · refine .inr ⟨hempty, ?_⟩
        rw [hsettle, if_neg]
        rwa [List.isEmpty_iff]

theorem planShards_ne_shardCount {adapter : Adapter σ β} {setup : Setup} {benchmark : Benchmark}
    {campaign : Campaign} {n : Nat} (wrong : ShardCountFault) :
    planShards adapter setup benchmark campaign n ≠ .error (.fault (.shardCount wrong)) := by
  intro h
  unfold planShards at h
  split at h
  · cases h
  · rename_i builder state _
    rcases hshards : plan builder state benchmark n campaign.seed with (_ | _ | _) | _ <;>
      rw [hshards] at h <;> cases h

/-- Work is planned for everybody, or the run is over, though never for a wrong number. -/
theorem Brief.planned_cases (b : Brief σ β) (n : Nat) :
    (∃ shards, b.planned n = .workload shards ∧ shards.length = n) ∨
      ∃ stop, b.planned n = .decided (.error stop) ∧
        ∀ wrong, stop ≠ .fault (.shardCount wrong) := by
  unfold planned
  cases b.registry.find? b.setup.ledger with
  | none => exact .inr ⟨.fault (.unknownLedger b.setup.ledger), rfl, nofun⟩
  | some adapter =>
    dsimp only
    cases hplan : planShards adapter b.setup b.benchmark b.campaign n with
    | error stop =>
      exact .inr ⟨stop, rfl, fun wrong hwrong => planShards_ne_shardCount wrong (hwrong ▸ hplan)⟩
    | ok shards =>
      obtain ⟨-, -, -, schedule, -, -, -, rfl⟩ := planShards_eq_ok hplan
      exact .inl ⟨_, if_pos (RoundRobin.length_deal n schedule), RoundRobin.length_deal n schedule⟩

/-! ### Requests of a round -/

/-- What holds of every standing of a run. -/
structure Standing.Sound (s : Standing κ) : Prop where
  shards : ∀ shards, s.point = .workload shards → shards.length = s.primary.active.length
  /-- A run is never over for a wrong number of shards. -/
  fault : ∀ outcome, s.point.outcome? = some outcome →
    ∀ wrong, outcome ≠ .error (.fault (.shardCount wrong))

section Request

variable {b : Brief σ β} {s : Standing κ} {c : Command} {id : Nat}

theorem Standing.request_of_mem (hs : s.Sound) (hc : s.point.phase? = some c)
    (hid : id ∈ s.primary.active) : ∃ r, s.request b id = some r ∧ r.command = c := by
  unfold request
  cases hpoint : s.point with
  | workload shards =>
    obtain ⟨work, hwork⟩ := workFor_of_mem (nodup_active _) (hs.shards shards hpoint) hid
    rw [hpoint] at hc
    exact ⟨_, hwork, Option.some.inj hc⟩
  | prepare | run | results =>
    rw [hpoint] at hc
    exact ⟨_, forAll_of_mem hid _, Option.some.inj hc⟩
  | fin | ended =>
    rw [hpoint] at hc
    cases hc

theorem Standing.request_of_not_mem (hc : s.point.phase? = some c)
    (hid : id ∉ s.primary.active) : s.request b id = none := by
  unfold request
  cases hpoint : s.point with
  | workload shards => exact workFor_of_not_mem hid
  | prepare | run | results => exact forAll_of_not_mem hid _
  | fin =>
    rw [hpoint] at hc
    cases hc
  | ended => rfl

end Request

/-! ### What comes after a round -/

section Turn

variable {b : Brief σ β} {point : Point} {c : Command} {responses : List (Nat × Response)}
  {p : Primary κ}

theorem turn_of_none (hc : point.phase? = none) :
    turn b point responses p = ⟨point.onward b responses p.size p.active.length, p⟩ := by
  rw [turn, hc]

theorem turn_of_phase (hc : point.phase? = some c) : turn b point responses p =
    settled b.campaign.policy c (failures c responses)
      (fun q => point.onward b responses p.size q.active.length) p := by
  rw [turn, hc]

/-- After a phase a run goes on to the next point without those who failed, or it is over. -/
theorem turn_cases (b : Brief σ β) (hc : point.phase? = some c)
    (responses : List (Nat × Response)) (p : Primary κ) : ∃ q, q.size = p.size ∧
      ((∃ fault, (∀ wrong, fault ≠ .shardCount wrong) ∧
        turn b point responses p = ⟨.fin (.error fault), q⟩) ∨
      q.active = p.active.filter (· ∉ (failures c responses).map Failure.secondary) ∧
        turn b point responses p = ⟨point.onward b responses p.size q.active.length, q⟩) := by
  rw [turn_of_phase hc]
  rcases settled_cases b.campaign.policy c (failures c responses)
    (fun q => point.onward b responses p.size q.active.length) p with
    ⟨hnone, h⟩ | ⟨-, -, h⟩ | ⟨-, -, q, rfl, ⟨-, h⟩ | ⟨-, h⟩⟩
  · exact ⟨p, rfl, .inr ⟨by simp [hnone], h⟩⟩
  · exact ⟨p, rfl, .inl ⟨.phaseFailed c _, nofun, h⟩⟩
  · exact ⟨_, size_exclude _ p, .inl ⟨.noSecondaries, nofun, h⟩⟩
  · exact ⟨_, size_exclude _ p, .inr ⟨active_exclude _ p, h⟩⟩

theorem size_turn (b : Brief σ β) (point : Point) (responses : List (Nat × Response))
    (p : Primary κ) : (turn b point responses p).primary.size = p.size := by
  cases hc : point.phase? with
  | none => rw [turn_of_none hc]
  | some c =>
    obtain ⟨q, hsize, ⟨fault, -, h⟩ | ⟨-, h⟩⟩ := turn_cases b hc responses p
    · rw [h, hsize]
    · rw [h, hsize]

theorem Point.stage_onward {seats active : Nat} (h : point.stage < 5) :
    (point.onward b responses seats active).stage = point.stage + 1 ∨
      point.stage < 4 ∧ (point.onward b responses seats active).stage = 4 ∨
      point = .prepare ∧ point.onward b responses seats active = .ended (.error .crash) := by
  cases point with
  | prepare =>
    rcases b.planned_cases active with ⟨shards, hplanned, -⟩ | ⟨fault | _, hplanned, -⟩
    · exact .inl (by rw [onward, hplanned]; rfl)
    · exact .inr (.inl ⟨by decide, by rw [onward, hplanned]; rfl⟩)
    · exact .inr (.inr ⟨rfl, hplanned⟩)
  | workload | run | results | fin => exact .inl rfl
  | ended => exact absurd h (Nat.lt_irrefl 5)

/-- A round leads to the next stage, or past all phases. Only the first may be the last of all, if
the run breaks down in planning. -/
theorem stage_turn (b : Brief σ β) (h : point.stage < 5) (responses : List (Nat × Response))
    (p : Primary κ) : (turn b point responses p).point.stage = point.stage + 1 ∨
      point.stage < 4 ∧ (turn b point responses p).point.stage = 4 ∨
      point = .prepare ∧ (turn b point responses p).point = .ended (.error .crash) := by
  cases hc : point.phase? with
  | none =>
    rw [turn_of_none hc]
    exact Point.stage_onward h
  | some c =>
    obtain ⟨q, -, ⟨fault, -, hturn⟩ | ⟨-, hturn⟩⟩ := turn_cases b hc responses p
    · exact .inr (.inl ⟨(Point.stage_of_phase hc).2.2, by rw [hturn]; rfl⟩)
    · rw [hturn]
      exact Point.stage_onward h

theorem stage_turn_of_ne_crash (b : Brief σ β) (h : point.stage < 5)
    {responses : List (Nat × Response)} {p : Primary κ}
    (hcrash : (turn b point responses p).point ≠ .ended (.error .crash)) :
    (turn b point responses p).point.stage = point.stage + 1 ∨
      point.stage < 4 ∧ (turn b point responses p).point.stage = 4 := by
  rcases stage_turn b h responses p with hnext | hover | ⟨-, hended⟩
  · exact .inl hnext
  · exact .inr hover
  · exact absurd hended hcrash

/-- No round is gone through twice. -/
theorem stage_lt_turn (b : Brief σ β) (h : point.stage < 5) (responses : List (Nat × Response))
    (p : Primary κ) : point.stage < (turn b point responses p).point.stage := by
  rcases stage_turn b h responses p with hnext | ⟨hlt, hfour⟩ | ⟨-, hended⟩
  · omega
  · omega
  · rw [hended]
    exact h

/-- Whoever takes part after a phase did so before, and has not failed it. -/
theorem mem_active_turn (hc : point.phase? = some c)
    (hpoint : (turn b point responses p).point.stage < 4) {id : Nat}
    (hid : id ∈ (turn b point responses p).primary.active) :
    id ∈ p.active ∧ ∀ fault, (id, Except.error fault) ∉ responses := by
  obtain ⟨q, -, ⟨fault, -, h⟩ | ⟨hq, h⟩⟩ := turn_cases b hc responses p
  · rw [h] at hpoint
    exact absurd hpoint (Nat.lt_irrefl 4)
  · rw [h, hq, List.mem_filter] at hid
    exact ⟨hid.1, fun fault hfault =>
      of_decide_eq_true hid.2 (mem_secondary_failures.mpr ⟨fault, hfault⟩)⟩

theorem Standing.sound_of_outcome {s : Standing κ} {outcome : Except RunStop CampaignResult}
    (h : s.point.outcome? = some outcome)
    (hgood : ∀ wrong, outcome ≠ .error (.fault (.shardCount wrong))) : s.Sound where
  shards shards hpoint := by
    rw [hpoint] at h
    cases h
  fault outcome' h' := by
    obtain rfl := Option.some.inj (h.symm.trans h')
    exact hgood

theorem Brief.sound_opening (b : Brief σ β) (p : Primary κ) :
    Standing.Sound ⟨b.opening, p⟩ := by
  unfold opening
  split
  · exact ⟨nofun, nofun⟩
  · exact Standing.sound_of_outcome rfl (by rintro _ ⟨⟩)

theorem Brief.sound_planned (b : Brief σ β) (p : Primary κ) :
    Standing.Sound ⟨b.planned p.active.length, p⟩ := by
  rcases b.planned_cases p.active.length with
    ⟨shards, hplanned, hlength⟩ | ⟨stop, hplanned, hstop⟩
  · rw [hplanned]
    refine ⟨fun shards' h => ?_, nofun⟩
    cases h
    exact hlength
  · rw [hplanned]
    exact Standing.sound_of_outcome (Point.outcome_decided _) fun wrong h =>
      hstop wrong (Except.error.inj h)

theorem Standing.Sound.turn {s : Standing κ} (hs : s.Sound) (responses : List (Nat × Response))
    (p : Primary κ) : (turn b s.point responses p).Sound := by
  cases hc : s.point.phase? with
  | none =>
    rw [turn_of_none hc]
    cases hpoint : s.point with
    | prepare | workload | run | results =>
      rw [hpoint] at hc
      cases hc
    | fin outcome | ended outcome =>
      exact Standing.sound_of_outcome rfl (hs.fault _ (by rw [hpoint]; rfl))
  | some c =>
    obtain ⟨q, -, ⟨fault, hfault, h⟩ | ⟨-, h⟩⟩ := turn_cases b hc responses p
    · rw [h]
      exact Standing.sound_of_outcome rfl fun wrong h =>
        hfault wrong (RunStop.fault.inj (Except.error.inj h))
    · rw [h]
      cases hpoint : s.point with
      | prepare => exact b.sound_planned q
      | workload | run => exact ⟨nofun, nofun⟩
      | results => exact Standing.sound_of_outcome rfl (by rintro _ ⟨⟩)
      | fin | ended =>
        rw [hpoint] at hc
        cases hc

end Turn

/-! ### Five rounds -/

/-- A run comes to a decision within some number of rounds. -/
def Decides (execute : Executor κ) (b : Brief σ β) (rounds : Nat) (s : Standing κ)
    (decision : Except RunStop CampaignResult × Primary κ) : Prop :=
  ∃ k ≤ rounds, (advance execute b)^[k] s = ⟨.decided decision.1, decision.2⟩

section Decides

variable {b : Brief σ β} {rounds : Nat} {s : Standing κ}
  {decision : Except RunStop CampaignResult × Primary κ}

theorem Decides.here (outcome : Except RunStop CampaignResult) (p : Primary κ) :
    Decides execute b rounds ⟨.decided outcome, p⟩ (outcome, p) := ⟨0, Nat.zero_le _, rfl⟩

theorem Decides.later (h : Decides execute b rounds (advance execute b s) decision) :
    Decides execute b (rounds + 1) s decision := by
  obtain ⟨k, hk, h⟩ := h
  exact ⟨k + 1, Nat.succ_le_succ hk, h⟩

/-- What is decided after a phase is what its computation goes on with. -/
theorem Decides.settled {policy : FaultPolicy} {phase : Command} {found : List Failure}
    {next : Primary κ → Point} {p : Primary κ} {f : Unit → Running κ CampaignResult}
    (h : ∀ q, Decides execute b rounds ⟨next q, q⟩ ((f ()).run.run q)) :
    Decides execute b rounds (settled policy phase found next p)
      ((settle policy phase found >>= f).run.run p) := by
  rw [ExceptT.run_bind, StateT.run_bind, Primary.settled]
  rcases (settle policy phase found).run.run p with ⟨stop | ⟨⟩, q⟩
  · exact .here (.error stop) q
  · exact h q

end Decides

theorem run_mk {α : Type} (x : Except RunStop α) (p : Primary κ) :
    (ExceptT.mk (pure x) : Running κ α).run.run p = (x, p) := rfl

theorem run_settledPhase {policy : FaultPolicy} {r : Request Document}
    {f : Unit → Running κ CampaignResult} (p : Primary κ) :
    (settledPhase execute policy r >>= f).run.run p =
      (settle policy r.command (phase execute r p).1 >>= f).run.run (phase execute r p).2 := by
  rw [settledPhase, bind_assoc, bind_of_ok (run_step _ p)]

theorem decides_phases (b : Brief σ β) (p : Primary κ) :
    Decides execute b 4 ⟨b.opening, p⟩
      ((phases execute b.registry b.setup b.benchmark b.campaign).run.run p) := by
  unfold phases
  cases hadapter : b.registry.find? b.setup.ledger with
  | none =>
    have hopening : b.opening = .fin (.error (.unknownLedger b.setup.ledger)) := by
      rw [Brief.opening, hadapter]
      rfl
    rw [hopening]
    exact .here (.error (.fault _)) p
  | some adapter =>
    have hopening : b.opening = .prepare := by
      rw [Brief.opening, hadapter]
      rfl
    dsimp only
    rw [hopening, run_settledPhase]
    refine Decides.later (Decides.settled fun prepared => ?_)
    rw [bind_of_ok (run_step _ prepared)]
    show Decides execute b 3 ⟨b.planned prepared.active.length, prepared⟩ _
    rw [Brief.planned, hadapter]
    dsimp only
    cases planShards adapter b.setup b.benchmark b.campaign prepared.active.length with
    | error stop => exact .here (.error stop) prepared
    | ok shards =>
      rw [bind_of_ok (run_mk (.ok shards) prepared), bind_of_ok (run_step _ prepared)]
      dsimp only
      by_cases hlength : shards.length = prepared.active.length
      · rw [if_pos hlength, distribute_eq hlength, Except.mapError, bind_of_ok (run_mk _ _)]
        refine Decides.later (Decides.settled fun loaded => ?_)
        rw [run_settledPhase]
        refine Decides.later (Decides.settled fun ran => ?_)
        rw [bind_of_ok (run_step _ ran)]
        refine Decides.later (Decides.settled fun finished => ?_)
        exact .here (.ok _) finished
      · rw [if_neg hlength, distribute, if_neg hlength]
        exact .here (.error (.fault _)) prepared

/-- A decision is followed by one more round, in which everyone is sent the last request. -/
theorem advance_fin (b : Brief σ β) (outcome : Except RunFault CampaignResult) (p : Primary κ) :
    advance execute b ⟨.fin outcome, p⟩ =
      ⟨.ended (outcome.mapError .fault), p.finish execute⟩ := rfl

theorem advance_ended (b : Brief σ β) (outcome : Except RunStop CampaignResult) (p : Primary κ) :
    advance execute b ⟨.ended outcome, p⟩ = ⟨.ended outcome, p⟩ := by
  have hnone : Standing.asked execute b ⟨.ended outcome, p⟩ = ([], p) := fanOut_none p
  rw [advance, hnone]
  rfl

theorem iterate_fin (b : Brief σ β) (outcome : Except RunFault CampaignResult) (p : Primary κ)
    (rounds : Nat) : (advance execute b)^[rounds + 1] ⟨.fin outcome, p⟩ =
      ⟨.ended (outcome.mapError .fault), p.finish execute⟩ := by
  rw [Function.iterate_succ_apply, advance_fin, Function.iterate_fixed (advance_ended b _ _)]

/-- Whatever is decided, one more round is enough. -/
theorem iterate_decided (b : Brief σ β) (outcome : Except RunStop CampaignResult) (p : Primary κ)
    (rounds : Nat) : (advance execute b)^[rounds + 1] ⟨.decided outcome, p⟩ =
      ⟨.ended outcome, p.closed execute outcome⟩ := by
  rcases outcome with (fault | _) | result
  · exact iterate_fin b (.error fault) p rounds
  · exact Function.iterate_fixed (advance_ended b (.error .crash) p) (rounds + 1)
  · exact iterate_fin b (.ok result) p rounds

/-- The last request is sent to everyone, and whoever takes part still does. -/
theorem active_iterate_fin (b : Brief σ β) (outcome : Except RunFault CampaignResult)
    (p : Primary κ) (rounds : Nat) :
    ((advance execute b)^[rounds] ⟨.fin outcome, p⟩).primary.active = p.active := by
  cases rounds with
  | zero => rfl
  | succ rounds =>
    rw [iterate_fin]
    show (p.finish execute).active = p.active
    rw [finish, active_fanOut]

/-- **A run is five rounds at most**; once it has ended, nothing happens any more. -/
theorem advance_run (b : Brief σ β) (p : Primary κ) : (advance execute b)^[5] ⟨b.opening, p⟩ =
    ⟨.ended (b.run execute p).1, (b.run execute p).2⟩ := by
  have hdecides : Decides execute b 4 ⟨b.opening, p⟩ _ := decides_phases b p
  obtain ⟨k, hk, hdecided⟩ := hdecides
  obtain ⟨rest, hrest⟩ : ∃ rest, 5 = rest + 1 + k := ⟨4 - k, by omega⟩
  rw [hrest, Function.iterate_add_apply, hdecided, iterate_decided]
  rfl

/-- Whatever a run ends with after some rounds is what it comes to. -/
theorem ended_eq_run {b : Brief σ β} {p q : Primary κ} {rounds : Nat}
    {outcome : Except RunStop CampaignResult}
    (h : (advance execute b)^[rounds] ⟨b.opening, p⟩ = ⟨.ended outcome, q⟩) :
    (outcome, q) = b.run execute p := by
  have hmore (more : Nat) : (advance execute b)^[more + rounds] ⟨b.opening, p⟩ =
      ⟨.ended outcome, q⟩ := by
    rw [Function.iterate_add_apply, h, Function.iterate_fixed (advance_ended b outcome q)]
  have hrun := Function.iterate_add_apply (advance execute b) rounds 5 ⟨b.opening, p⟩
  rw [advance_run, Function.iterate_fixed (advance_ended b _ _), Nat.add_comm, hmore] at hrun
  cases hrun
  rfl

/-- Whatever is decided after some rounds is what a run comes to. -/
theorem fin_eq_run {b : Brief σ β} {p q : Primary κ} {rounds : Nat}
    {outcome : Except RunFault CampaignResult}
    (h : (advance execute b)^[rounds] ⟨b.opening, p⟩ = ⟨.fin outcome, q⟩) :
    b.run execute p = (outcome.mapError .fault, q.finish execute) := by
  have hended : (advance execute b)^[rounds + 1] ⟨b.opening, p⟩ =
      ⟨.ended (outcome.mapError .fault), q.finish execute⟩ := by
    rw [Function.iterate_succ_apply', h, advance_fin]
  exact (ended_eq_run hended).symm

/-- A run never ends for a wrong number of shards. -/
theorem Brief.run_ne_shardCount (b : Brief σ β) (p : Primary κ) (wrong : ShardCountFault) :
    (b.run execute p).1 ≠ .error (.fault (.shardCount wrong)) := by
  have hsound (rounds : Nat) : ((advance execute b)^[rounds] ⟨b.opening, p⟩).Sound := by
    induction rounds with
    | zero => exact b.sound_opening p
    | succ rounds ih =>
      rw [Function.iterate_succ_apply']
      exact ih.turn _ _
  have hended := hsound 5
  rw [advance_run] at hended
  exact hended.fault _ rfl wrong

end Primary

end LedgerLoad
