import LedgerLoad.Primary.Run
import LedgerLoad.Proofs.Except
import LedgerLoad.Proofs.Plan

/-! # Runs in which everyone takes part to the end

A run that brings a result and leaves nobody out has gone through all phases on every link, and each
request on each link had a good response. Main statements: `Primary.run_complete`, what each link
has gone through and what therefore stands in the slot of its secondary, and conversely
`Primary.run_of_completes`. Nothing is assumed of how requests are carried out. -/

namespace LedgerLoad.Primary

variable {κ σ β : Type} {execute : Executor κ}

/-- Whether everyone still takes part. -/
def Everyone (p : Primary κ) : Prop := ∀ seat ∈ p.seats, seat.active = true

/-! ### Seats -/

theorem active_everyone {p : Primary κ} (h : p.Everyone) : p.active = List.range p.size := by
  have hsome : ∀ e ∈ p.seats.zipIdx,
      (if e.1.active then some e.2 else none) = (some ∘ Prod.snd) e := by
    rintro ⟨seat, id⟩ he
    have hseat := List.mem_of_getElem? (List.mk_mem_zipIdx_iff_getElem?.mp he)
    simp [h seat hseat]
  have hactive : p.active = p.seats.zipIdx.filterMap (some ∘ Prod.snd) :=
    List.filterMap_congr hsome
  rw [hactive, List.filterMap_eq_map, List.zipIdx_map_snd, List.range_eq_range', size]

theorem seat_fanOut (request : Nat → Option (Request Document)) (p : Primary κ) (id : Nat) :
    (p.fanOut execute request).2.seats[id]? =
      p.seats[id]?.map fun seat => (askSeat execute (request id) seat).2 := by
  simp only [fanOut, List.map_map, List.getElem?_map, List.getElem?_zipIdx, Option.map_map]
  cases p.seats[id]? <;> simp

theorem mem_responses {request : Nat → Option (Request Document)} {p : Primary κ} {id : Nat}
    {x : Response} : (id, x) ∈ (p.fanOut execute request).1 ↔
      ∃ seat, p.seats[id]? = some seat ∧ (askSeat execute (request id) seat).1 = some x := by
  simp only [fanOut, List.mem_filterMap, List.mem_map, Prod.exists, Option.map_eq_some_iff,
    List.mk_mem_zipIdx_iff_getElem?]
  constructor
  · rintro ⟨id', response, seat', ⟨seat, i, hseat, heq⟩, y, hy, hxy⟩
    obtain ⟨rfl, hasked⟩ := Prod.mk.inj heq
    obtain ⟨rfl, rfl⟩ := Prod.mk.inj hxy
    exact ⟨seat, hseat, by rw [hasked, hy]⟩
  · rintro ⟨seat, hseat, hx⟩
    exact ⟨id, _, _, ⟨seat, id, hseat, rfl⟩, x, hx, rfl⟩

theorem size_fanOut (request : Nat → Option (Request Document)) (p : Primary κ) :
    (p.fanOut execute request).2.size = p.size := by simp [fanOut, size]

theorem active_askSeat (request : Option (Request Document)) (seat : Seat κ) :
    (askSeat execute request seat).2.active = seat.active := by
  cases request <;> rfl

theorem everyone_fanOut {request : Nat → Option (Request Document)} {p : Primary κ} :
    (p.fanOut execute request).2.Everyone ↔ p.Everyone := by
  constructor
  · intro h seat hseat
    obtain ⟨id, hid⟩ := List.mem_iff_getElem?.mp hseat
    have hasked : (p.fanOut execute request).2.seats[id]? = _ := seat_fanOut request p id
    rw [hid] at hasked
    have hactive := h _ (List.mem_of_getElem? hasked)
    rwa [active_askSeat] at hactive
  · intro h seat hseat
    obtain ⟨id, hid⟩ := List.mem_iff_getElem?.mp hseat
    rw [seat_fanOut] at hid
    obtain ⟨before, hbefore, rfl⟩ := Option.map_eq_some_iff.mp hid
    rw [active_askSeat]
    exact h before (List.mem_of_getElem? hbefore)

/-! ### Failures -/

theorem failures_eq_nil {phase : Command} {responses : List (Nat × Response)}
    (h : failures phase responses = []) {id : Nat} {x : Response} (hx : (id, x) ∈ responses) :
    ∃ y, x = .ok y := by
  cases x with
  | ok y => exact ⟨y, rfl⟩
  | error fault =>
    have := List.filterMap_eq_nil_iff.mp h _ hx
    cases this

theorem secondary_lt {request : Nat → Option (Request Document)} {p : Primary κ} {phase : Command}
    {f : Failure} (h : f ∈ failures phase (p.fanOut execute request).1) : f.secondary < p.size := by
  obtain ⟨⟨id, x⟩, hx, hf⟩ := List.mem_filterMap.mp h
  obtain ⟨seat, hseat, -⟩ := mem_responses.mp hx
  have hid : f.secondary = id := by
    cases x with
    | ok => cases hf
    | error fault => rw [← Option.some.inj hf]
  rw [hid, size]
  exact (List.getElem?_eq_some_iff.mp hseat).1

/-! ### Steps of a run -/

theorem bind_eq_ok {α γ : Type} {x : Running κ α} {f : α → Running κ γ} {p q : Primary κ} {c : γ}
    (h : (x >>= f).run.run p = (.ok c, q)) :
    ∃ a between, x.run.run p = (.ok a, between) ∧ (f a).run.run between = (.ok c, q) := by
  rw [ExceptT.run_bind, StateT.run_bind] at h
  rcases hx : x.run.run p with ⟨a | a, between⟩
  · rw [hx] at h
    cases h
  · rw [hx] at h
    exact ⟨a, between, rfl, h⟩

theorem run_step {α : Type} (f : Primary κ → α × Primary κ) (p : Primary κ) :
    (step f).run.run p = (.ok (f p).1, (f p).2) := rfl

theorem step_eq_ok {α : Type} {f : Primary κ → α × Primary κ} {p q : Primary κ} {a : α}
    (h : (step f).run.run p = (.ok a, q)) : f p = (a, q) := by
  rw [run_step] at h
  obtain ⟨ha, hq⟩ := Prod.mk.inj h
  exact Prod.ext (Except.ok.inj ha) hq

theorem pure_eq_ok {α : Type} {x : Except RunStop α} {p q : Primary κ} {a : α}
    (h : (ExceptT.mk (pure x) : Running κ α).run.run p = (.ok a, q)) : x = .ok a ∧ q = p := by
  obtain ⟨hx, hq⟩ := Prod.mk.inj h
  exact ⟨hx, hq.symm⟩

/-- Whoever is left out takes part no longer. -/
theorem not_everyone_exclude {p : Primary κ} {ids : List Nat} {id : Nat} (hid : id ∈ ids)
    (hlt : id < p.size) : ¬ (p.exclude ids).Everyone := by
  intro hall
  have hseat : (p.exclude ids).seats[id]? = some { p.seats[id] with active := false } := by
    simp [exclude, List.getElem?_map, List.getElem?_zipIdx, List.getElem?_eq_getElem hlt, hid]
  cases hall _ (List.mem_of_getElem? hseat)

/-- A phase after which everyone still takes part had no failures. -/
theorem settle_everyone {policy : FaultPolicy} {phase : Command} {found : List Failure}
    {p q : Primary κ} (h : (settle policy phase found).run.run p = (.ok (), q)) (hall : q.Everyone)
    (hfound : ∀ f ∈ found, f.secondary < p.size) : found = [] ∧ q = p := by
  cases found with
  | nil => exact ⟨rfl, (Prod.mk.inj h).2.symm⟩
  | cons f found =>
    exfalso
    unfold settle at h
    cases policy with
    | abort => cases h
    | degrade =>
      obtain ⟨left, between, hleft, h⟩ := bind_eq_ok h
      obtain ⟨-, hbetween⟩ := Prod.mk.inj ((run_step _ p).symm.trans hleft)
      have hq : q = between := by
        cases hempty : left.isEmpty with
        | false =>
          rw [hempty] at h
          exact (Prod.mk.inj h).2.symm
        | true =>
          rw [hempty] at h
          cases h
      rw [hq, ← hbetween] at hall
      exact not_everyone_exclude (List.mem_map_of_mem List.mem_cons_self)
        (hfound f List.mem_cons_self) hall

/-! ### Phases -/

theorem phase_eq (r : Request Document) (p : Primary κ) : phase execute r p =
    (failures r.command (p.fanOut execute (forAll p.active r)).1,
      (p.fanOut execute (forAll p.active r)).2) := rfl

/-- A phase in which everybody is asked and everybody has a good response. -/
theorem fanOut_everyone {request : Nat → Option (Request Document)} {p : Primary κ}
    {phase : Command} (hall : p.Everyone)
    (hgood : failures phase (p.fanOut execute request).1 = []) {id : Nat} {seat : Seat κ}
    {r : Request Document} (hseat : p.seats[id]? = some seat) (hr : request id = some r) :
    ∃ x link, execute r seat.link = (.ok x, link) ∧ (id, .ok x) ∈ (p.fanOut execute request).1 ∧
      (p.fanOut execute request).2.seats[id]? = some ⟨link, true⟩ := by
  have hasked : (id, (execute r seat.link).1) ∈ (p.fanOut execute request).1 :=
    mem_responses.mpr ⟨seat, hseat, by rw [hr]; rfl⟩
  obtain ⟨x, hx⟩ := failures_eq_nil hgood hasked
  refine ⟨x, (execute r seat.link).2, by rw [← hx], hx ▸ hasked, ?_⟩
  rw [seat_fanOut, hseat, hr]
  have hactive := hall seat (List.mem_of_getElem? hseat)
  simp [askSeat, hactive]

theorem forAll_everyone {p : Primary κ} (h : p.Everyone) {id : Nat} {seat : Seat κ}
    (hseat : p.seats[id]? = some seat) (r : Request Document) : forAll p.active r id = some r := by
  have hlt : id < p.size := (List.getElem?_eq_some_iff.mp hseat).1
  rw [forAll, active_everyone h, if_pos (List.mem_range.mpr hlt)]

/-- A phase with the same request for all, after which everyone still takes part. -/
theorem settledPhase_everyone {policy : FaultPolicy} {r : Request Document} {p q : Primary κ}
    (h : (settledPhase execute policy r).run.run p = (.ok (), q)) (hall : q.Everyone) :
    p.Everyone ∧ q.size = p.size ∧ ∀ (id : Nat) (seat : Seat κ), p.seats[id]? = some seat →
      ∃ x link, execute r seat.link = (.ok x, link) ∧ q.seats[id]? = some ⟨link, true⟩ := by
  obtain ⟨found, between, hstep, h⟩ := bind_eq_ok h
  rw [run_step, phase_eq] at hstep
  obtain ⟨hfound, rfl⟩ := Prod.mk.inj hstep
  obtain rfl := Except.ok.inj hfound
  obtain ⟨hnone, rfl⟩ := settle_everyone h hall fun f hf => by
    rw [size_fanOut]
    exact secondary_lt hf
  have hp := everyone_fanOut.mp hall
  refine ⟨hp, size_fanOut _ p, fun id seat hseat => ?_⟩
  obtain ⟨x, link, hx, -, hlink⟩ := fanOut_everyone hp hnone hseat (forAll_everyone hp hseat r)
  exact ⟨x, link, hx, hlink⟩

/-! ### Giving out work -/

/-- Whoever comes `k`-th among those who take part gets the `k`-th shard. -/
theorem workFor_of_getElem? {active : List Nat} {ledger : String} {parameters : RunParameters}
    {shards : List Shard} (hnodup : active.Nodup) {k id : Nat} (hid : active[k]? = some id)
    {shard : Shard} (hshard : shards[k]? = some shard) :
    workFor active ledger parameters shards id =
      some (.workload (WorkloadMessage.toDocument { ledger, parameters, shard })) := by
  have hfind : (active.zip shards).find? (fun e => e.1 == id) = some (id, shard) := by
    obtain ⟨hk, rfl⟩ := List.getElem?_eq_some_iff.mp hid
    obtain ⟨hk', rfl⟩ := List.getElem?_eq_some_iff.mp hshard
    rw [List.find?_eq_some_iff_getElem]
    refine ⟨by simp, k, by simp; omega, by simp, fun j hj => ?_⟩
    have hne : active[j] ≠ active[k] := List.pairwise_iff_getElem.mp hnodup j k (by omega) hk hj
    simpa using hne
  rw [workFor, hfind]
  rfl

theorem workFor_range {n : Nat} {ledger : String} {parameters : RunParameters} {shards : List Shard}
    (hlength : shards.length = n) {id : Nat} {shard : Shard} (hshard : shards[id]? = some shard) :
    workFor (List.range n) ledger parameters shards id =
      some (.workload (WorkloadMessage.toDocument { ledger, parameters, shard })) := by
  have hlt : id < n := hlength ▸ (List.getElem?_eq_some_iff.mp hshard).1
  exact workFor_of_getElem? List.nodup_range (List.getElem?_range hlt) hshard

/-- Work that is given out to everyone, after which everyone still takes part. -/
theorem distribute_everyone {policy : FaultPolicy} {ledger : String} {parameters : RunParameters}
    {shards : List Shard} {p q r : Primary κ} {given : Except ShardCountFault (List Failure)}
    {found : List Failure} (hgiven : distribute execute ledger parameters shards p = (given, q))
    (hfound : given = .ok found)
    (h : (settle policy .workload found).run.run q = (.ok (), r)) (hall : r.Everyone) :
    p.Everyone ∧ r.size = p.size ∧ shards.length = p.size ∧
      ∀ (id : Nat) (seat : Seat κ) (shard : Shard), p.seats[id]? = some seat →
        shards[id]? = some shard → ∃ x link,
          execute (.workload (WorkloadMessage.toDocument { ledger, parameters, shard })) seat.link =
            (.ok x, link) ∧ r.seats[id]? = some ⟨link, true⟩ := by
  unfold distribute at hgiven
  by_cases hlength : shards.length = p.active.length
  · dsimp only at hgiven
    rw [if_pos hlength] at hgiven
    obtain ⟨rfl, rfl⟩ := Prod.mk.inj hgiven
    obtain rfl := Except.ok.inj hfound
    obtain ⟨hnone, rfl⟩ := settle_everyone h hall fun f hf => by
      rw [size_fanOut]
      exact secondary_lt hf
    have hp := everyone_fanOut.mp hall
    have hactive := active_everyone hp
    rw [hactive, List.length_range] at hlength
    refine ⟨hp, size_fanOut _ p, hlength, fun id seat shard hseat hshard => ?_⟩
    obtain ⟨x, link, hx, -, hlink⟩ := fanOut_everyone hp hnone hseat
      (by rw [hactive]; exact workFor_range hlength hshard)
    exact ⟨x, link, hx, hlink⟩
  · dsimp only at hgiven
    rw [if_neg hlength] at hgiven
    obtain ⟨rfl, -⟩ := Prod.mk.inj hgiven
    cases hfound

/-! ### Collecting results -/

/-- The result that a response brings, or an empty one. -/
def brought (x : Response) : SecondaryResult :=
  match x with
  | .ok (some result) => result
  | _ => .empty

/-- The slot of a secondary with one response holds what that response brings. -/
theorem slot_eq_brought {responses : List (Nat × Response)} {id : Nat} {x : Response}
    (h : (id, x) ∈ responses) (hunique : ∀ y, (id, y) ∈ responses → y = x) :
    slot responses id = brought x := by
  unfold slot
  cases hfind : responses.find? fun e => e.1 == id with
  | none =>
    have := List.find?_eq_none.mp hfind _ h
    simp at this
  | some e =>
    obtain ⟨id', y⟩ := e
    have hid : id' = id := by simpa using List.find?_some hfind
    subst hid
    obtain rfl := hunique y (List.mem_of_find?_eq_some hfind)
    rcases y with _ | _ | _ <;> rfl

/-- The slot of a secondary that was not asked is empty. -/
theorem slot_of_not_mem {responses : List (Nat × Response)} {id : Nat}
    (h : ∀ x, (id, x) ∉ responses) : slot responses id = .empty := by
  have hfind : responses.find? (fun e => e.1 == id) = none := by
    rw [List.find?_eq_none]
    rintro ⟨id', x⟩ hmem hid
    obtain rfl : id' = id := by simpa using hid
    exact h x hmem
  rw [slot, hfind]

theorem slot_eq {responses : List (Nat × Response)} {id : Nat} {x : Option SecondaryResult}
    (h : (id, .ok x) ∈ responses) (hunique : ∀ y, (id, y) ∈ responses → y = .ok x) :
    slot responses id = x.getD .empty := by
  rw [slot_eq_brought h hunique]
  cases x <;> rfl

theorem collect_eq (p : Primary κ) : collect execute p =
    ((⟨(List.range (p.fanOut execute (forAll p.active .results)).2.size).map
        (slot (p.fanOut execute (forAll p.active .results)).1)⟩,
      failures .results (p.fanOut execute (forAll p.active .results)).1),
      (p.fanOut execute (forAll p.active .results)).2) := rfl

/-- Results that are collected from everyone, after which everyone still takes part. -/
theorem collect_everyone {policy : FaultPolicy} {p q r : Primary κ} {result : CampaignResult}
    {found : List Failure} (hcollect : collect execute p = ((result, found), q))
    (h : (settle policy .results found).run.run q = (.ok (), r)) (hall : r.Everyone) :
    p.Everyone ∧ result.secondaries.length = p.size ∧
      ∀ (id : Nat) (seat : Seat κ), p.seats[id]? = some seat → ∃ x link,
        execute .results seat.link = (.ok x, link) ∧
          result.secondaries[id]? = some (x.getD .empty) := by
  obtain ⟨hpair, rfl⟩ := Prod.mk.inj ((collect_eq p).symm.trans hcollect)
  obtain ⟨rfl, rfl⟩ := Prod.mk.inj hpair
  obtain ⟨hnone, rfl⟩ := settle_everyone h hall fun f hf => by
    rw [size_fanOut]
    exact secondary_lt hf
  have hp := everyone_fanOut.mp hall
  rw [size_fanOut]
  refine ⟨hp, by simp, fun id seat hseat => ?_⟩
  obtain ⟨x, link, hx, hmem, -⟩ :=
    fanOut_everyone hp hnone hseat (forAll_everyone hp hseat .results)
  refine ⟨x, link, hx, ?_⟩
  have hlt : id < p.size := (List.getElem?_eq_some_iff.mp hseat).1
  have hunique (y : Response) (hy : (id, y) ∈ (p.fanOut execute (forAll p.active .results)).1) :
      y = .ok x := by
    obtain ⟨seat', hseat', hy⟩ := mem_responses.mp hy
    obtain rfl : seat = seat' := Option.some.inj (hseat.symm.trans hseat')
    rw [forAll_everyone hp hseat] at hy
    have hy' : some (execute .results seat.link).1 = some y := hy
    rw [hx] at hy'
    exact (Option.some.inj hy').symm
  rw [List.getElem?_map, List.getElem?_range hlt, Option.map_some, slot_eq hmem hunique]

/-! ### Whole runs -/

/-- The requests of a run to one secondary, the work being a document. -/
def requests (work : Document) : List (Request Document) :=
  [.prepare, .workload work, .run, .results]

/-- `Completes execute rs link x`: requests that are carried out on a link one after another have
good responses, and the last response brings `x`. -/
inductive Completes (execute : Executor κ) :
    List (Request Document) → κ → Option SecondaryResult → Prop
  | last {r : Request Document} {link after : κ} {x : Option SecondaryResult}
      (h : execute r link = (.ok x, after)) : Completes execute [r] link x
  | next {r : Request Document} {rs : List (Request Document)} {link between : κ}
      {x y : Option SecondaryResult} (h : execute r link = (.ok y, between))
      (hrest : Completes execute rs between x) : Completes execute (r :: rs) link x

theorem Completes.uncons {r r' : Request Document} {rs : List (Request Document)} {link : κ}
    {x : Option SecondaryResult} (h : Completes execute (r :: r' :: rs) link x) :
    ∃ y between, execute r link = (.ok y, between) ∧ Completes execute (r' :: rs) between x := by
  cases h with
  | next h hrest => exact ⟨_, _, h, hrest⟩

theorem Completes.single {r : Request Document} {link : κ} {x : Option SecondaryResult}
    (h : Completes execute [r] link x) : ∃ after, execute r link = (.ok x, after) := by
  cases h with
  | last h => exact ⟨_, h⟩
  | next _ hrest => cases hrest

/-- Shards are dealt from one schedule, to at least one secondary. -/
theorem planShards_eq_ok {adapter : Adapter σ β} {setup : Setup} {benchmark : Benchmark}
    {campaign : Campaign} {n : Nat} {shards : List Shard}
    (h : planShards adapter setup benchmark campaign n = .ok shards) : 0 < n ∧
      ∃ builder state schedule after,
        adapter.builder setup.parameters campaign.environment setup.endpoints =
          .ok (builder, state) ∧
        Plan.schedule builder benchmark (.ofSeed campaign.seed, state) = .ok (schedule, after) ∧
        shards = RoundRobin.deal n schedule := by
  unfold planShards at h
  split at h
  · cases h
  · rename_i builder state hbuilder
    obtain ⟨hn, schedule, after, hschedule, hshards⟩ := plan_eq_ok (Except.mapError_eq_ok h)
    exact ⟨hn, builder, state, schedule, after, hbuilder, hschedule, hshards⟩

/-- What phases that bring a result have gone through. -/
theorem phases_eq_ok {registry : Registry σ β} {setup : Setup} {benchmark : Benchmark}
    {campaign : Campaign} {p q : Primary κ} {result : CampaignResult}
    (h : (phases execute registry setup benchmark campaign).run.run p = (.ok result, q)) :
    ∃ adapter shards found failed p₁ p₂ p₃ p₄ p₅, registry.find? setup.ledger = some adapter ∧
      (settledPhase execute campaign.policy .prepare).run.run p = (.ok (), p₁) ∧
      planShards adapter setup benchmark campaign p₁.active.length = .ok shards ∧
      distribute execute setup.ledger (parametersOf setup campaign) shards p₁ = (.ok found, p₂) ∧
      (settle campaign.policy .workload found).run.run p₂ = (.ok (), p₃) ∧
      (settledPhase execute campaign.policy .run).run.run p₃ = (.ok (), p₄) ∧
      collect execute p₄ = ((result, failed), p₅) ∧
      (settle campaign.policy .results failed).run.run p₅ = (.ok (), q) := by
  unfold phases at h
  cases hadapter : registry.find? setup.ledger with
  | none =>
    rw [hadapter] at h
    cases h
  | some adapter =>
    rw [hadapter] at h
    obtain ⟨_, p₁, hprepare, h⟩ := bind_eq_ok h
    obtain ⟨active, p₁', hactive, h⟩ := bind_eq_ok h
    obtain ⟨shards, p₁'', hplan, h⟩ := bind_eq_ok h
    obtain ⟨given, p₂, hgiven, h⟩ := bind_eq_ok h
    obtain ⟨found, p₂', hfound, h⟩ := bind_eq_ok h
    obtain ⟨_, p₃, hworkload, h⟩ := bind_eq_ok h
    obtain ⟨_, p₄, hrun, h⟩ := bind_eq_ok h
    obtain ⟨⟨result', failed⟩, p₅, hcollect, h⟩ := bind_eq_ok h
    obtain ⟨_, p₆, hresults, h⟩ := bind_eq_ok h
    obtain ⟨hresult, hend⟩ := Prod.mk.inj h
    obtain ⟨hplan, hplanned⟩ := pure_eq_ok hplan
    obtain ⟨hfound, hfaultless⟩ := pure_eq_ok hfound
    have hpair := Prod.mk.inj (step_eq_ok hactive)
    rw [← hpair.1] at hplan
    rw [hplanned, ← hpair.2] at hgiven
    rw [Except.mapError_eq_ok hfound] at hgiven
    rw [hfaultless] at hworkload
    rw [Except.ok.inj hresult] at hcollect
    rw [hend] at hresults
    exact ⟨adapter, shards, found, failed, p₁, p₂, p₃, p₄, p₅, rfl, hprepare, hplan,
      step_eq_ok hgiven, hworkload, hrun, step_eq_ok hcollect, hresults⟩

/-- **A complete run**: if a run brings a result and everyone takes part to the end, then there was
a shard for everyone, every link has gone through all phases with it, and the slot of each secondary
holds what its link brought. -/
theorem run_complete {registry : Registry σ β} {setup : Setup} {benchmark : Benchmark}
    {campaign : Campaign} {p q : Primary κ} {result : CampaignResult}
    (h : p.run execute registry setup benchmark campaign = (.ok result, q)) (hall : q.Everyone) :
    ∃ adapter shards, registry.find? setup.ledger = some adapter ∧
      planShards adapter setup benchmark campaign p.size = .ok shards ∧ shards.length = p.size ∧
      result.secondaries.length = p.size ∧
      ∀ (id : Nat) (seat : Seat κ) (shard : Shard), p.seats[id]? = some seat →
        shards[id]? = some shard → ∃ x,
          Completes execute (requests (WorkloadMessage.toDocument
            ⟨setup.ledger, parametersOf setup campaign, shard⟩)) seat.link x ∧
          result.secondaries[id]? = some (x.getD .empty) := by
  unfold run at h
  generalize hphases : (phases execute registry setup benchmark campaign).run.run p = outcome at h
  obtain ⟨outcome, p₆⟩ := outcome
  obtain ⟨rfl, rfl⟩ := Prod.mk.inj h
  obtain ⟨adapter, shards, found, failed, p₁, p₂, p₃, p₄, p₅, hadapter, hprepare, hplan, hgiven,
    hworkload, hrun, hcollect, hresults⟩ := phases_eq_ok hphases
  -- Whoever takes part at the end took part before, so the phases are gone through backwards.
  obtain ⟨hall₄, hslots, hcollected⟩ :=
    collect_everyone hcollect hresults (everyone_fanOut.mp hall)
  obtain ⟨hall₃, hsize₄, hran⟩ := settledPhase_everyone hrun hall₄
  obtain ⟨hall₁, hsize₃, hshards, hloaded⟩ := distribute_everyone hgiven rfl hworkload hall₃
  obtain ⟨-, hsize₁, hprepared⟩ := settledPhase_everyone hprepare hall₁
  rw [active_everyone hall₁, List.length_range, hsize₁] at hplan
  refine ⟨adapter, shards, hadapter, hplan, by omega, by omega,
    fun id seat shard hseat hshard => ?_⟩
  obtain ⟨x, prepared, hx, hseat₁⟩ := hprepared id seat hseat
  obtain ⟨y, loaded, hy, hseat₃⟩ := hloaded id ⟨prepared, true⟩ shard hseat₁ hshard
  obtain ⟨z, running, hz, hseat₄⟩ := hran id ⟨loaded, true⟩ hseat₃
  obtain ⟨brought, finished, hbrought, hslot⟩ := hcollected id ⟨running, true⟩ hseat₄
  exact ⟨brought, .next hx (.next hy (.next hz (.last hbrought))), hslot⟩

/-! ### Runs in which nothing goes wrong -/

theorem bind_of_ok {α γ : Type} {x : Running κ α} {f : α → Running κ γ} {p q : Primary κ} {a : α}
    (h : x.run.run p = (.ok a, q)) : (x >>= f).run.run p = (f a).run.run q := by
  rw [ExceptT.run_bind, StateT.run_bind, h]
  rfl

theorem settle_of_nil {policy : FaultPolicy} {phase : Command} {found : List Failure}
    {p : Primary κ} (h : found = []) : (settle policy phase found).run.run p = (.ok (), p) := by
  rw [h]
  rfl

/-- Everyone is asked and has a good response: nothing failed, and what the responses leave behind
holds of every link. -/
theorem fanOut_of_good (request : Nat → Option (Request Document)) {p : Primary κ}
    (P : Nat → κ → Prop) (hall : p.Everyone)
    (hgood : ∀ (id : Nat) (seat : Seat κ), p.seats[id]? = some seat → ∃ r x link,
      request id = some r ∧ execute r seat.link = (.ok x, link) ∧ P id link) :
    (∀ phase, failures phase (p.fanOut execute request).1 = []) ∧
      (p.fanOut execute request).2.Everyone ∧ ∀ (id : Nat) (seat : Seat κ),
        (p.fanOut execute request).2.seats[id]? = some seat → P id seat.link := by
  refine ⟨fun phase => List.filterMap_eq_nil_iff.mpr fun ⟨id, y⟩ hy => ?_,
    everyone_fanOut.mpr hall, fun id seat hseat => ?_⟩
  · obtain ⟨seat, hseat, hasked⟩ := mem_responses.mp hy
    obtain ⟨r, x, link, hr, hx, -⟩ := hgood id seat hseat
    rw [hr] at hasked
    have hy : some (execute r seat.link).1 = some y := hasked
    rw [hx] at hy
    rw [← Option.some.inj hy]
  · rw [seat_fanOut, Option.map_eq_some_iff] at hseat
    obtain ⟨before, hbefore, rfl⟩ := hseat
    obtain ⟨r, x, link, hr, hx, hP⟩ := hgood id before hbefore
    rw [hr]
    show P id (execute r before.link).2
    rw [hx]
    exact hP

/-- A phase with the same request for all, of whom everyone has it and more requests before him. -/
theorem settledPhase_of_completes (policy : FaultPolicy) {r : Request Document} {p : Primary κ}
    (next : Nat → Request Document) {rs : List (Request Document)} (hall : p.Everyone)
    (hgood : ∀ (id : Nat) (seat : Seat κ), p.seats[id]? = some seat →
      ∃ x, Completes execute (r :: next id :: rs) seat.link x) :
    ∃ q, (settledPhase execute policy r).run.run p = (.ok (), q) ∧ q.Everyone ∧ q.size = p.size ∧
      ∀ (id : Nat) (seat : Seat κ), q.seats[id]? = some seat →
        ∃ x, Completes execute (next id :: rs) seat.link x := by
  obtain ⟨hnone, hafter⟩ := fanOut_of_good (forAll p.active r)
    (fun id link => ∃ x, Completes execute (next id :: rs) link x) hall
    fun id seat hseat => by
      obtain ⟨x, hx⟩ := hgood id seat hseat
      obtain ⟨y, between, hy, hrest⟩ := hx.uncons
      exact ⟨r, y, between, forAll_everyone hall hseat r, hy, x, hrest⟩
  refine ⟨_, ?_, hafter.1, size_fanOut _ p, hafter.2⟩
  rw [settledPhase, bind_of_ok (run_step _ p)]
  exact settle_of_nil (hnone r.command)

theorem distribute_eq {ledger : String} {parameters : RunParameters} {shards : List Shard}
    {p : Primary κ} (hlength : shards.length = p.active.length) :
    distribute execute ledger parameters shards p =
      (.ok (failures .workload (p.fanOut execute (workFor p.active ledger parameters shards)).1),
        (p.fanOut execute (workFor p.active ledger parameters shards)).2) := by
  rw [distribute, if_pos hlength]

/-- Phases that can be gone through one after another bring a result. -/
theorem phases_of_ok {registry : Registry σ β} {setup : Setup} {benchmark : Benchmark}
    {campaign : Campaign} {result : CampaignResult} {adapter : Adapter σ β} {shards : List Shard}
    {found failed : List Failure} {p p₁ p₂ p₃ p₄ p₅ q : Primary κ}
    (hadapter : registry.find? setup.ledger = some adapter)
    (hprepare : (settledPhase execute campaign.policy .prepare).run.run p = (.ok (), p₁))
    (hplan : planShards adapter setup benchmark campaign p₁.active.length = .ok shards)
    (hgiven : distribute execute setup.ledger (parametersOf setup campaign) shards p₁ =
      (.ok found, p₂))
    (hworkload : (settle campaign.policy .workload found).run.run p₂ = (.ok (), p₃))
    (hrun : (settledPhase execute campaign.policy .run).run.run p₃ = (.ok (), p₄))
    (hcollect : collect execute p₄ = ((result, failed), p₅))
    (hresults : (settle campaign.policy .results failed).run.run p₅ = (.ok (), q)) :
    (phases execute registry setup benchmark campaign).run.run p = (.ok result, q) := by
  unfold phases
  rw [hadapter]
  refine (bind_of_ok hprepare).trans ?_
  refine (bind_of_ok (run_step _ p₁)).trans ?_
  refine (bind_of_ok (a := shards) (q := p₁) (congrArg (·, p₁) hplan)).trans ?_
  refine (bind_of_ok (run_step _ p₁)).trans ?_
  rw [hgiven]
  refine (bind_of_ok (a := found) (q := p₂) rfl).trans ?_
  refine (bind_of_ok hworkload).trans ?_
  refine (bind_of_ok hrun).trans ?_
  refine (bind_of_ok (run_step _ p₄)).trans ?_
  rw [hcollect]
  exact (bind_of_ok hresults).trans rfl

/-- **A run that nothing goes wrong in**: if each link has good responses to all requests with the
shard that is planned for it, then the run brings a result and everyone takes part to the end. -/
theorem run_of_completes {registry : Registry σ β} {setup : Setup} {benchmark : Benchmark}
    {campaign : Campaign} {p : Primary κ} {adapter : Adapter σ β} {shards : List Shard}
    (hall : p.Everyone) (hadapter : registry.find? setup.ledger = some adapter)
    (hplan : planShards adapter setup benchmark campaign p.size = .ok shards)
    (hgood : ∀ (id : Nat) (seat : Seat κ) (shard : Shard), p.seats[id]? = some seat →
      shards[id]? = some shard → ∃ x, Completes execute (requests (WorkloadMessage.toDocument
        ⟨setup.ledger, parametersOf setup campaign, shard⟩)) seat.link x) :
    ∃ result q, p.run execute registry setup benchmark campaign = (.ok result, q) ∧ q.Everyone := by
  have hlength : shards.length = p.size := by
    obtain ⟨-, _, _, schedule, _, -, -, rfl⟩ := planShards_eq_ok hplan
    exact RoundRobin.length_deal _ schedule
  let work (id : Nat) : Document := WorkloadMessage.toDocument
    ⟨setup.ledger, parametersOf setup campaign, shards.getD id []⟩
  have hready (id : Nat) (seat : Seat κ) (hseat : p.seats[id]? = some seat) :
      ∃ x, Completes execute (requests (work id)) seat.link x := by
    have hid : id < shards.length := by
      rw [hlength]
      exact (List.getElem?_eq_some_iff.mp hseat).1
    have hshard := List.getElem?_eq_getElem hid
    have hwork : work id = WorkloadMessage.toDocument
        ⟨setup.ledger, parametersOf setup campaign, shards[id]⟩ := by
      simp only [work, List.getD_eq_getElem?_getD, hshard, Option.getD_some]
    rw [hwork]
    exact hgood id seat _ hseat hshard
  obtain ⟨p₁, hprepare, hall₁, hsize₁, hgood₁⟩ := settledPhase_of_completes campaign.policy
    (fun id => .workload (work id)) hall hready
  have hactive := active_everyone hall₁
  have hlength₁ : shards.length = p₁.active.length := by
    rw [hactive, List.length_range]
    omega
  have hplan₁ : planShards adapter setup benchmark campaign p₁.active.length = .ok shards := by
    rw [← hlength₁, hlength]
    exact hplan
  obtain ⟨hnone₂, hall₂, hgood₂⟩ := fanOut_of_good
    (workFor p₁.active setup.ledger (parametersOf setup campaign) shards)
    (fun _ link => ∃ x, Completes execute [.run, .results] link x) hall₁ fun id seat hseat => by
      obtain ⟨x, hx⟩ := hgood₁ id seat hseat
      obtain ⟨y, between, hy, hrest⟩ := hx.uncons
      have hid : id < shards.length := by
        rw [hlength, ← hsize₁]
        exact (List.getElem?_eq_some_iff.mp hseat).1
      have hshard := List.getElem?_eq_getElem hid
      refine ⟨.workload (work id), y, between, ?_, hy, x, hrest⟩
      rw [hactive, workFor_range (by omega) hshard]
      simp only [work, List.getD_eq_getElem?_getD, hshard, Option.getD_some]
  obtain ⟨p₃, hrun, hall₃, -, hgood₃⟩ := settledPhase_of_completes campaign.policy
    (fun _ => .results) hall₂ hgood₂
  obtain ⟨hnone₄, hall₄, -⟩ := fanOut_of_good (forAll p₃.active .results) (fun _ _ => True) hall₃
    fun id seat hseat => by
      obtain ⟨x, hx⟩ := hgood₃ id seat hseat
      obtain ⟨after, hafter⟩ := hx.single
      exact ⟨_, _, _, forAll_everyone hall₃ hseat _, hafter, trivial⟩
  obtain ⟨result, q, hphases, hq⟩ : ∃ result q,
      (phases execute registry setup benchmark campaign).run.run p = (.ok result, q) ∧ q.Everyone :=
    ⟨_, _, phases_of_ok hadapter hprepare hplan₁ (distribute_eq hlength₁)
      (settle_of_nil (hnone₂ .workload)) hrun (collect_eq p₃) (settle_of_nil (hnone₄ .results)),
      hall₄⟩
  refine ⟨result, q.finish execute, ?_, everyone_fanOut.mpr hq⟩
  rw [run, hphases]
  rfl

end LedgerLoad.Primary
