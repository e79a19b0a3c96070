import LedgerLoad.Proofs.Plan.Room
import LedgerLoad.Proofs.Primary.Course

/-! # Runs that break down

A run breaks down if planning does: it is over in the middle, and nobody is sent the last request.
This is so exactly if the first phase leaves somebody to plan for (`Brief.Begins`) and no schedule
can be made (`Brief.Unplannable`). Main statements: `Brief.run_crash_iff`; and
`Brief.not_unplannable` and `Brief.unplannable_of_willing`, for an accepted benchmark a schedule can
be made if there is room for it, and with a builder that does what it is asked for only then. -/

namespace LedgerLoad

namespace Primary

variable {κ σ β : Type} {execute : Executor κ} {b : Brief σ β}

/-- Whether somebody is left to plan for when the first phase is over. -/
def Brief.Begins (execute : Executor κ) (b : Brief σ β) (links : List κ) : Prop :=
  match b.campaign.policy with
  | .abort => links ≠ [] ∧ ∀ link ∈ links, (execute .prepare link).1.isOk = true
  | .degrade => ∃ link ∈ links, (execute .prepare link).1.isOk = true

/-- Whether making the schedule breaks down: there is a builder, but with it planning stops at
something that is no fault to report. -/
def Brief.Unplannable (b : Brief σ β) : Prop :=
  ∃ adapter builder state stop, b.registry.find? b.setup.ledger = some adapter ∧
    adapter.builder b.setup.parameters b.campaign.environment b.setup.endpoints =
      .ok (builder, state) ∧
    Plan.schedule builder b.benchmark (.ofSeed b.campaign.seed, state) = .error stop ∧
      RunStop.ofPlan stop = .crash

/-! ### Planning -/

theorem Point.decided_eq_crash {outcome : Except RunStop CampaignResult} :
    Point.decided outcome = .ended (.error .crash) ↔ outcome = .error .crash := by
  rcases outcome with (fault | _) | result <;> simp [decided]

theorem planShards_eq_crash (adapter : Adapter σ β) (setup : Setup) (benchmark : Benchmark)
    (campaign : Campaign) (n : Nat) :
    planShards adapter setup benchmark campaign n = .error .crash ↔ 0 < n ∧
      ∃ builder state stop, adapter.builder setup.parameters campaign.environment setup.endpoints =
        .ok (builder, state) ∧
        Plan.schedule builder benchmark (.ofSeed campaign.seed, state) = .error stop ∧
          RunStop.ofPlan stop = .crash := by
  unfold planShards
  cases adapter.builder setup.parameters campaign.environment setup.endpoints with
  | error fault => simp
  | ok made =>
    obtain ⟨builder, state⟩ := made
    show (plan builder state benchmark n campaign.seed).mapError RunStop.ofPlan = _ ↔ _
    rw [Except.mapError_eq_error]
    constructor
    · rintro ⟨stop, hplan, hcrash⟩
      rcases plan_eq_error hplan with rfl | ⟨hn, hschedule⟩
      · cases hcrash
      · exact ⟨hn, builder, state, stop, rfl, hschedule, hcrash⟩
    · rintro ⟨hn, _, _, stop, hmade, hschedule, hcrash⟩
      cases hmade
      exact ⟨stop, plan_of_schedule_error hn hschedule, hcrash⟩

theorem Brief.planned_eq_crash {n : Nat} :
    b.planned n = .ended (.error .crash) ↔ 0 < n ∧ b.Unplannable := by
  unfold planned Unplannable
  cases b.registry.find? b.setup.ledger with
  | none => simp
  | some adapter =>
    have hplan := planShards_eq_crash adapter b.setup b.benchmark b.campaign n
    dsimp only
    cases hshards : planShards adapter b.setup b.benchmark b.campaign n with
    | error stop =>
      rw [hshards] at hplan
      simpa [Point.decided_eq_crash] using hplan
    | ok shards =>
      rw [hshards] at hplan
      have hnot : (if shards.length = n then Point.workload shards
          else .fin (.error (.shardCount ⟨n, shards.length⟩))) ≠ .ended (.error .crash) := by
        split <;> nofun
      simpa [hnot] using hplan

/-! ### The first phase -/

section First

variable {links : List κ} {id : Nat}

/-- Everyone is asked in the first phase. -/
theorem mem_first (b : Brief σ β) {x : Response} :
    (id, x) ∈ (Standing.asked execute b ⟨.prepare, ofLinks links⟩).1 ↔
      ∃ link, links[id]? = some link ∧ (execute .prepare link).1 = x := by
  rw [Standing.asked, mem_responses]
  simp only [seat_ofLinks, Option.map_eq_some_iff]
  have hrequest (link : κ) (hlink : links[id]? = some link) :
      Standing.request b ⟨.prepare, ofLinks links⟩ id = some .prepare :=
    forAll_of_mem (mem_active.mpr ⟨⟨link, true⟩, by rw [seat_ofLinks, hlink]; rfl, rfl⟩) _
  constructor
  · rintro ⟨_, ⟨link, hlink, rfl⟩, hx⟩
    rw [hrequest link hlink] at hx
    exact ⟨link, hlink, Option.some.inj hx⟩
  · rintro ⟨link, hlink, rfl⟩
    rw [hrequest link hlink]
    exact ⟨_, ⟨link, hlink, rfl⟩, rfl⟩

theorem mem_failed_first (b : Brief σ β) :
    id ∈ (failures .prepare (Standing.asked execute b ⟨.prepare, ofLinks links⟩).1).map
      Failure.secondary ↔ ∃ link, links[id]? = some link ∧
        (execute .prepare link).1.isOk = false := by
  simp only [mem_secondary_failures, mem_first]
  constructor
  · rintro ⟨fault, link, hlink, hfault⟩
    exact ⟨link, hlink, by rw [hfault]; rfl⟩
  · rintro ⟨link, hlink, hfailed⟩
    cases hanswer : (execute .prepare link).1 with
    | ok x =>
      rw [hanswer] at hfailed
      cases hfailed
    | error fault => exact ⟨fault, link, hlink, hanswer⟩

theorem failures_first_eq_nil (execute : Executor κ) (b : Brief σ β) (links : List κ) :
    failures .prepare (Standing.asked execute b ⟨.prepare, ofLinks links⟩).1 = [] ↔
      ∀ link ∈ links, (execute .prepare link).1.isOk = true := by
  rw [← List.map_eq_nil_iff (f := Failure.secondary), List.eq_nil_iff_forall_not_mem]
  constructor
  · intro hnone link hmem
    obtain ⟨id, hlink⟩ := List.mem_iff_getElem?.mp hmem
    by_contra hfailed
    exact hnone id ((mem_failed_first b).mpr ⟨link, hlink, Bool.eq_false_iff.mpr hfailed⟩)
  · intro hgood id hid
    obtain ⟨link, hlink, hfailed⟩ := (mem_failed_first b).mp hid
    rw [hgood link (List.mem_of_getElem? hlink)] at hfailed
    cases hfailed

/-- Being asked excludes nobody. -/
theorem active_first (execute : Executor κ) (b : Brief σ β) (links : List κ) :
    (Standing.asked execute b ⟨.prepare, ofLinks links⟩).2.active = List.range links.length :=
  (active_fanOut _ _).trans (active_ofLinks links)

/-- Somebody is left after the first phase who has not failed it. -/
theorem left_first_ne_nil (execute : Executor κ) (b : Brief σ β) (links : List κ) :
    ((Standing.asked execute b ⟨.prepare, ofLinks links⟩).2.exclude
      ((failures .prepare (Standing.asked execute b ⟨.prepare, ofLinks links⟩).1).map
        Failure.secondary)).active ≠ [] ↔
      ∃ link ∈ links, (execute .prepare link).1.isOk = true := by
  rw [active_exclude, active_first]
  constructor
  · intro hsome
    obtain ⟨id, hid⟩ := List.exists_mem_of_ne_nil _ hsome
    obtain ⟨hlt, hleft⟩ := List.mem_filter.mp hid
    have hlink := List.getElem?_eq_getElem (List.mem_range.mp hlt)
    refine ⟨_, List.mem_of_getElem? hlink, ?_⟩
    by_contra hfailed
    exact of_decide_eq_true hleft
      ((mem_failed_first b).mpr ⟨_, hlink, Bool.eq_false_iff.mpr hfailed⟩)
  · rintro ⟨link, hmem, hgood⟩
    obtain ⟨id, hlink⟩ := List.mem_iff_getElem?.mp hmem
    have hid := (List.getElem?_eq_some_iff.mp hlink).1
    refine List.ne_nil_of_mem (List.mem_filter.mpr
      ⟨List.mem_range.mpr hid, decide_eq_true fun hfailed => ?_⟩)
    obtain ⟨link', hlink', hfailed⟩ := (mem_failed_first b).mp hfailed
    obtain rfl := Option.some.inj (hlink.symm.trans hlink')
    rw [hgood] at hfailed
    cases hfailed

end First

/-- If nobody fails the first phase, there is somebody left as there was before. -/
theorem Brief.begins_of_good {links : List κ}
    (hgood : ∀ link ∈ links, (execute .prepare link).1.isOk = true) :
    b.Begins execute links ↔ 0 < links.length := by
  rw [List.length_pos_iff, Begins]
  cases b.campaign.policy with
  | abort => exact and_iff_left hgood
  | degrade =>
    constructor
    · rintro ⟨link, hmem, -⟩
      exact List.ne_nil_of_mem hmem
    · intro hsome
      obtain ⟨link, hmem⟩ := List.exists_mem_of_ne_nil links hsome
      exact ⟨link, hmem, hgood link hmem⟩

/-- **The first round of a run** is the last one if the run breaks down in planning. -/
theorem Brief.advance_eq_crash (execute : Executor κ) (b : Brief σ β) (links : List κ) :
    (advance execute b ⟨b.opening, ofLinks links⟩).point = .ended (.error .crash) ↔
      b.Begins execute links ∧ b.Unplannable := by
  unfold opening
  by_cases hadapter : (b.registry.find? b.setup.ledger).isSome
  swap
  · rw [if_neg hadapter]
    constructor
    · intro hcrash
      cases hcrash
    · rintro ⟨-, adapter, -, -, -, hfound, -⟩
      rw [hfound] at hadapter
      exact absurd rfl hadapter
  rw [if_pos hadapter, advance, turn_of_phase rfl]
  have hnone := failures_first_eq_nil execute b links
  have hleft := left_first_ne_nil execute b links
  rcases settled_cases b.campaign.policy .prepare
    (failures .prepare (Standing.asked execute b ⟨.prepare, ofLinks links⟩).1)
    (fun q => Point.onward b (Standing.asked execute b ⟨.prepare, ofLinks links⟩).1
      (Standing.asked execute b ⟨.prepare, ofLinks links⟩).2.size q.active.length .prepare)
    (Standing.asked execute b ⟨.prepare, ofLinks links⟩).2 with
    ⟨hgood, h⟩ | ⟨hbad, hpolicy, h⟩ | ⟨hbad, hpolicy, q, rfl, ⟨hempty, h⟩ | ⟨hsome, h⟩⟩
  · rw [h, begins_of_good (hnone.mp hgood)]
    show b.planned _ = _ ↔ _
    rw [planned_eq_crash, active_first, List.length_range]
  · rw [h, Begins, hpolicy]
    constructor
    · intro hcrash
      cases hcrash
    · rintro ⟨hbegins, -⟩
      exact absurd (hnone.mpr hbegins.2) hbad
  · rw [h, Begins, hpolicy]
    constructor
    · intro hcrash
      cases hcrash
    · rintro ⟨hbegins, -⟩
      exact absurd hempty (hleft.mpr hbegins)
  · rw [h, Begins, hpolicy]
    show b.planned _ = _ ↔ _
    rw [planned_eq_crash, List.length_pos_iff]
    exact and_congr_left fun _ => hleft

/-! ### Whole runs -/

/-- A run does not begin again. -/
theorem turn_ne_prepare (b : Brief σ β) (point : Point) (responses : List (Nat × Response))
    (p : Primary κ) : (turn b point responses p).point ≠ .prepare := by
  intro hprepare
  cases hc : point.phase? with
  | none =>
    rw [turn_of_none hc] at hprepare
    cases point with
    | prepare | workload | run | results => cases hc
    | fin | ended => cases hprepare
  | some c =>
    obtain ⟨-, -, hlt⟩ := Point.stage_of_phase hc
    have hnext := stage_lt_turn b (Nat.lt_succ_of_lt hlt) responses p
    rw [hprepare] at hnext
    exact absurd hnext (Nat.not_lt_zero _)

/-- Later rounds do not break down. -/
theorem turn_ne_crash {point : Point} (hpoint : point ≠ .prepare)
    (hcrash : point ≠ .ended (.error .crash)) (responses : List (Nat × Response)) (p : Primary κ) :
    (turn b point responses p).point ≠ .ended (.error .crash) := by
  cases hc : point.phase? with
  | none =>
    rw [turn_of_none hc]
    cases point with
    | prepare | workload | run | results => cases hc
    | fin outcome => cases outcome <;> nofun
    | ended outcome => exact hcrash
  | some c =>
    intro hended
    obtain ⟨-, -, hlt⟩ := Point.stage_of_phase hc
    have hnext := stage_turn b (Nat.lt_succ_of_lt hlt) responses p
    rw [hended] at hnext
    rcases hnext with hnext | ⟨-, hnext⟩ | ⟨hprepare, -⟩
    · exact absurd hlt (by rw [← Nat.succ.inj hnext]; exact Nat.lt_irrefl 4)
    · cases hnext
    · exact hpoint hprepare

theorem iterate_ne_crash {s : Standing κ} (hpoint : s.point ≠ .prepare)
    (hcrash : s.point ≠ .ended (.error .crash)) (rounds : Nat) :
    ((advance execute b)^[rounds] s).point ≠ .ended (.error .crash) := by
  induction rounds generalizing s with
  | zero => exact hcrash
  | succ rounds ih =>
    rw [Function.iterate_succ_apply]
    exact ih (turn_ne_prepare b _ _ _) (turn_ne_crash hpoint hcrash _ _)

/-- **A run breaks down** if there is somebody to plan for but the schedule cannot be made, and only
then. -/
theorem Brief.run_crash_iff (execute : Executor κ) (b : Brief σ β) (links : List κ) :
    (b.run execute (ofLinks links)).1 = .error .crash ↔
      b.Begins execute links ∧ b.Unplannable := by
  rw [← advance_eq_crash]
  have hrun : (advance execute b)^[5] _ = _ := advance_run b (ofLinks links)
  rw [Function.iterate_succ_apply] at hrun
  have hlater : (advance execute b ⟨b.opening, ofLinks links⟩).point ≠ .prepare :=
    turn_ne_prepare b _ _ _
  generalize advance execute b ⟨b.opening, ofLinks links⟩ = s at hrun hlater
  constructor
  · intro hcrash
    by_contra hnot
    refine iterate_ne_crash hlater hnot 4 (?_ : ((advance execute b)^[4] s).point = _)
    rw [hrun, hcrash]
  · intro hcrash
    obtain ⟨point, q⟩ := s
    obtain rfl : point = .ended (.error .crash) := hcrash
    rw [Function.iterate_fixed (advance_ended b _ q)] at hrun
    exact (Point.ended.inj (congrArg Standing.point hrun)).symm

/-! ### Accepted benchmarks -/

theorem Brief.not_unplannable (hvalid : b.benchmark.validate = .ok ()) (hfits : b.benchmark.Fits) :
    ¬ b.Unplannable := by
  rintro ⟨adapter, builder, state, stop, -, -, hschedule, hcrash⟩
  have hplan := plan_of_schedule_error Nat.one_pos hschedule
  rcases plan_cases builder.serves_any hvalid trivial Nat.one_pos b.campaign.seed with
    ⟨p, parts, after, -, -, -, hok⟩ | ⟨stop', hstop', hexcuse⟩
  · rw [hplan] at hok
    cases hok
  · obtain rfl := Except.error.inj (hplan.symm.trans hstop')
    cases stop with
    | fault fault => cases hcrash
    | outOfRange => exact hexcuse hfits
    | emptyDraw => exact hexcuse

theorem Brief.unplannable_of_willing {adapter : Adapter σ β} {builder : Builder β} {state : β}
    {holds : β → List ℕ → List ℕ → Prop} {writes : Transaction → Bytes → Prop}
    (hadapter : b.registry.find? b.setup.ledger = some adapter)
    (hbuilder : adapter.builder b.setup.parameters b.campaign.environment b.setup.endpoints =
      .ok (builder, state))
    (hserves : builder.Serves holds writes fun _ => False)
    (hsupports : builder.Supports b.benchmark) (h : holds state [] [])
    (hvalid : b.benchmark.validate = .ok ()) (hnot : ¬ b.benchmark.Fits) : b.Unplannable := by
  rcases plan_cases_willing hserves hsupports hvalid h Nat.one_pos b.campaign.seed with
    ⟨p, parts, after, -, -, hfits, -⟩ | ⟨hplan, -⟩
  · exact absurd hfits hnot
  · rcases plan_eq_error hplan with hnobody | ⟨-, hschedule⟩
    · cases hnobody
    · exact ⟨adapter, builder, state, _, hadapter, hbuilder, hschedule, rfl⟩

end Primary

end LedgerLoad
