import LedgerLoad.Proofs.Primary.Completion
import LedgerLoad.Proofs.Results.Place

/-! # Where the timings of a run come to stand

A complete run puts the timing of each interaction of its schedule into one place of its result.
Main statement: `Primary.run_placed`, each place holds what the lane there has stored for the
interaction to which the place belongs, and each interaction has one place (`Primary.Placed`). -/

namespace LedgerLoad

variable {σ β : Type}

/-! ### Whole results -/

namespace Primary

variable {ρ α : Type}

/-- A primary whose secondaries have just arrived. -/
def ofSecondaries (secondaries : List (Secondary σ β)) : Primary (Link (Session σ β)) :=
  ofLinks (secondaries.map fun s => .start (.start s))

/-- The document for the secondary numbered `k` of `n`, which has its share of a schedule. -/
def workDocument (setup : Setup) (campaign : Campaign) (schedule : List Interaction) (n k : Nat) :
    Document :=
  WorkloadMessage.toDocument
    ⟨setup.ledger, parametersOf setup campaign, RoundRobin.share n k schedule⟩

/-- The slots of a result hold what secondaries have brought that a schedule was dealt out to. -/
structure Filled (secondaries : List (Secondary σ β)) (setup : Setup) (campaign : Campaign)
    (schedule : List Interaction) (result : CampaignResult) : Prop where
  size : result.secondaries.length = secondaries.length
  slot : ∀ (k : Nat) (s : Secondary σ β), secondaries[k]? = some s → ∃ work r,
    s.Brings (workDocument setup campaign schedule secondaries.length k) work r ∧
      result.secondaries[k]? = some r

/-- What holds of the places in such a result. -/
structure Placed (secondaries : List (Secondary σ β)) (setup : Setup) (campaign : Campaign)
    (schedule : List Interaction) (result : CampaignResult) : Prop
    extends Filled secondaries setup campaign schedule result where
  lanes : ∀ (k : Nat) (s : Secondary σ β) (r : SecondaryResult), secondaries[k]? = some s →
    result.secondaries[k]? = some r → r.lanes.length = s.laneCount
  /-- Each entry is what the lane has stored for the interaction to which the place belongs. -/
  entry : ∀ (p : Place) (t : Timing), result.timing? p = some t → ∃ s work i stored,
    secondaries[p.secondary]? = some s ∧
      s.workOf (workDocument setup campaign schedule secondaries.length p.secondary) = .ok work ∧
      schedule[p.number (secondaries.map Secondary.laneCount)]? = some i ∧
      (work.lane p.lane).portion[p.slot]? = some i.sent ∧
      work.stored? p.lane p.slot = some stored ∧ stored.carried = .ok t ∧
      (stored = .unreached ∧ t = .unreached ∨ work.Recorded p.lane i.sent stored)
  /-- Each interaction has one place. -/
  place : ∀ g < schedule.length, ∃! p : Place,
    (result.timing? p).isSome ∧ p.number (secondaries.map Secondary.laneCount) = g
  total : result.interactions.length = schedule.length

variable {secondaries : List (Secondary σ β)} {setup : Setup} {campaign : Campaign}
  {schedule : List Interaction} {result : CampaignResult}

namespace Filled

theorem brings (h : Filled secondaries setup campaign schedule result) {k : Nat}
    {s : Secondary σ β} {r : SecondaryResult} (hs : secondaries[k]? = some s)
    (hr : result.secondaries[k]? = some r) :
    ∃ work, s.Brings (workDocument setup campaign schedule secondaries.length k) work r := by
  obtain ⟨work, r', hbrings, hr'⟩ := h.slot k s hs
  obtain rfl := Option.some.inj (hr.symm.trans hr')
  exact ⟨work, hbrings⟩

theorem lanes (h : Filled secondaries setup campaign schedule result) {k : Nat}
    {s : Secondary σ β} {r : SecondaryResult} (hs : secondaries[k]? = some s)
    (hr : result.secondaries[k]? = some r) : r.lanes.length = s.laneCount := by
  obtain ⟨work, hwork, hcarried⟩ := h.brings hs hr
  rw [Work.length_lanes hcarried, (Work.of_message hwork).2]

theorem dealt (h : Filled secondaries setup campaign schedule result) :
    result.Dealt (secondaries.map Secondary.laneCount) schedule.length where
  size := by rw [h.size, List.length_map]
  pos := by
    simp only [List.mem_map]
    rintro m ⟨s, -, rfl⟩
    exact Nat.le_max_right _ _
  width := by
    intro k m r hm hr
    rw [List.getElem?_map, Option.map_eq_some_iff] at hm
    obtain ⟨s, hs, rfl⟩ := hm
    exact h.lanes hs hr
  depth := by
    intro k m l r lane hm hr hlane
    rw [List.getElem?_map, Option.map_eq_some_iff] at hm
    obtain ⟨s, hs, rfl⟩ := hm
    obtain ⟨work, hwork, hcarried⟩ := h.brings hs hr
    obtain ⟨hshard, hcount⟩ := Work.of_message hwork
    have hk := (List.getElem?_eq_some_iff.mp hs).1
    rw [Work.length_interactions hcarried hlane, hcount, hshard, List.length_map,
      RoundRobin.length_share hk, List.length_map]

theorem entry (h : Filled secondaries setup campaign schedule result) {p : Place} {t : Timing}
    (ht : result.timing? p = some t) : ∃ s work i stored, secondaries[p.secondary]? = some s ∧
      s.workOf (workDocument setup campaign schedule secondaries.length p.secondary) = .ok work ∧
      schedule[p.number (secondaries.map Secondary.laneCount)]? = some i ∧
      (work.lane p.lane).portion[p.slot]? = some i.sent ∧
      work.stored? p.lane p.slot = some stored ∧ stored.carried = .ok t ∧
      (stored = .unreached ∧ t = .unreached ∨ work.Recorded p.lane i.sent stored) := by
  obtain ⟨r, lane, hr, hlane, ht⟩ := CampaignResult.timing?_eq_some.mp ht
  have hk : p.secondary < secondaries.length := by
    rw [← h.size]
    exact (List.getElem?_eq_some_iff.mp hr).1
  obtain ⟨s, hs⟩ : ∃ s, secondaries[p.secondary]? = some s := ⟨_, List.getElem?_eq_getElem hk⟩
  obtain ⟨work, hwork, hcarried⟩ := h.brings hs hr
  obtain ⟨hshard, hcount⟩ := Work.of_message hwork
  obtain ⟨stored, hstored, hcarry⟩ := Work.stored_of_carried hcarried hlane ht
  have hlt : p.lane < work.settings.count := by
    rw [hcount, ← h.lanes hs hr]
    exact (List.getElem?_eq_some_iff.mp hlane).1
  obtain ⟨sent, hsent, hportion, hrecorded⟩ := Work.recorded_of_stored hlt hstored
  -- The shard of the secondary is its share as it was sent, so the number leads into the schedule.
  rw [hshard, List.getElem?_map, Option.map_eq_some_iff] at hsent
  obtain ⟨i, hi, rfl⟩ := hsent
  have hnumber : schedule[p.number (secondaries.map Secondary.laneCount)]? = some i := by
    rw [RoundRobin.getElem?_share (Nat.zero_lt_of_lt hk), hcount] at hi
    rw [Place.number, List.getD_eq_getElem?_getD, List.getElem?_map, hs, Option.map_some,
      Option.getD_some, List.length_map, Nat.add_comm _ p.secondary, Nat.add_comm _ p.lane]
    exact hi
  refine ⟨s, work, i, stored, hs, hwork, hnumber, hportion, hstored, hcarry, ?_⟩
  rcases hrecorded with rfl | hrecorded
  · rw [Timing.carried_unreached] at hcarry
    exact Or.inl ⟨rfl, (Except.ok.inj hcarry).symm⟩
  · exact Or.inr hrecorded

theorem placed (h : Filled secondaries setup campaign schedule result)
    (hpos : 0 < secondaries.length) :
    Placed secondaries setup campaign schedule result := by
  have hlanes : secondaries.map Secondary.laneCount ≠ [] := by
    rw [ne_eq, List.map_eq_nil_iff, ← List.length_eq_zero_iff]
    omega
  exact
    { h with
      lanes := fun _ _ _ => h.lanes
      entry := fun _ _ => h.entry
      place := fun _ => h.dealt.existsUnique_place hlanes
      total := h.dealt.length_interactions hlanes }

end Filled

theorem filled_of_run {registry : Registry ρ α} {benchmark : Benchmark}
    {p : Primary (Link (Session σ β))}
    (h : (ofSecondaries secondaries).run (Link.execute Session.peer) registry setup benchmark
      campaign = (.ok result, p)) (hall : p.Everyone) :
    0 < secondaries.length ∧ ∃ adapter builder state schedule after,
      registry.find? setup.ledger = some adapter ∧
      adapter.builder setup.parameters campaign.environment setup.endpoints = .ok (builder, state) ∧
      Plan.schedule builder benchmark (.ofSeed campaign.seed, state) = .ok (schedule, after) ∧
      Filled secondaries setup campaign schedule result := by
  obtain ⟨adapter, shards, hadapter, hplan, -, hsize, hcompletes⟩ := run_complete h hall
  obtain ⟨hpos, builder, state, schedule, after, hbuilder, hschedule, rfl⟩ := planShards_eq_ok hplan
  have hlength : (ofSecondaries secondaries).size = secondaries.length := by
    simp [ofSecondaries, ofLinks, Primary.size]
  rw [hlength] at hsize hcompletes hpos
  refine ⟨hpos, adapter, builder, state, schedule, after, hadapter, hbuilder, hschedule, hsize,
    fun k s hs => ?_⟩
  have hseat : (ofSecondaries secondaries).seats[k]? = some ⟨.start (.start s), true⟩ := by
    simp [ofSecondaries, ofLinks, hs]
  have hk := (List.getElem?_eq_some_iff.mp hs).1
  have hshard : (RoundRobin.deal secondaries.length schedule)[k]? =
      some (RoundRobin.share secondaries.length k schedule) := by
    simp [RoundRobin.deal, hk]
  obtain ⟨x, hx, hr⟩ := hcompletes k _ _ hseat hshard
  obtain ⟨work, r, rfl, hbrings, -, -⟩ := Link.completes_iff.mp hx
  exact ⟨work, r, hbrings, hr⟩

end Primary

/-! ### A ledger on which nothing happens -/

namespace Idle

def builder : Builder Unit where
  capabilities := ⟨true, true⟩
  createAccount _ := fun b => .ok (0, b)
  createContract _ := fun b => .ok (0, b)
  createResource _ := fun b => .ok (0, b)
  encodeTransfer _ _ _ := fun b => .ok ([], b)
  encodeInvoke _ _ := fun b => .ok ([], b)
  encodeInteraction _ := fun b => .ok ([], b)

def client : Client Unit := ⟨fun _ => .ok (.number 0), fun _ => .done⟩

/-- An adapter for a ledger on which nothing happens, whatever is asked for. -/
def adapter : Adapter Unit Unit := ⟨fun _ _ _ => .ok (builder, ()), fun _ => .ok (client, ())⟩

def registry : Registry Unit Unit := Dictionary.empty.insert "idle" adapter

def setup : Setup := ⟨"idle", .empty, .empty⟩

/-- Four interactions, two a second. -/
def benchmark : Benchmark := ⟨.none, [], [], [⟨.custom "wait", 2.0, .ofSeconds 2, .zero⟩]⟩

def schedule : List Interaction :=
  [⟨.zero, []⟩, ⟨.ofMillis 500, []⟩, ⟨.ofMillis 1000, []⟩, ⟨.ofMillis 1500, []⟩]

def secondary (lanes : Nat) : Secondary Unit Unit :=
  ⟨registry, (SecondarySettings.usual "localhost" 7000).withLanes lanes⟩

theorem schedule_eq : ∃ after,
    Plan.schedule builder benchmark (.ofSeed 0, ()) = .ok (schedule, after) := by
  have hparts : ((benchmark.workloads.zipIdx.mapM fun w =>
      Plan.interactions builder ⟨#[], #[]⟩ w.1 w.2)
        (Random.Source.ofSeed 0, ())).toOption.map Prod.fst = some [schedule] := by decide +kernel
  generalize hplanned : (benchmark.workloads.zipIdx.mapM fun w =>
    Plan.interactions builder ⟨#[], #[]⟩ w.1 w.2) (Random.Source.ofSeed 0, ()) = planned at hparts
  cases planned with
  | error fault => cases hparts
  | ok planned =>
    obtain ⟨parts, after⟩ := planned
    obtain rfl := Option.some.inj hparts
    have hprovide : Plan.provide builder benchmark (.ofSeed 0, ()) =
        .ok (⟨#[], #[]⟩, .ofSeed 0, ()) := rfl
    have hsorted : Plan.sorted schedule = schedule := List.mergeSort_of_pairwise (by decide +kernel)
    have h := Plan.schedule_eq hprovide (by decide +kernel) hplanned
    rw [List.flatten_singleton, hsorted] at h
    exact ⟨after, h⟩

theorem planShards_eq : Primary.planShards adapter setup benchmark (.usual 2) 2 =
    .ok (RoundRobin.deal 2 schedule) := by
  obtain ⟨after, h⟩ := schedule_eq
  have hplan : plan builder () benchmark 2 0 = .ok (RoundRobin.deal 2 schedule) := by
    rw [plan]
    simp only [StateT.run, h]
    rfl
  show (plan builder () benchmark 2 0).mapError RunStop.ofPlan = _
  rw [hplan]
  rfl

theorem stored_eq {w : Work Unit} (hclient : w.client = client) {lane slot : Nat} {t : Timing}
    (hlane : lane < w.settings.count) (h : w.stored? lane slot = some t) : t = .unreached := by
  obtain ⟨i, -, -, hunreached | ⟨begun, clock, timer, ending, htriggers, rfl⟩⟩ :=
    Work.recorded_of_stored hlane h
  · exact hunreached
  · obtain ⟨started, handle, -, -, -, hends⟩ := htriggers
    rw [Work.lane, hclient] at hends
    cases hends
    rfl

/-- Lanes to which nothing happens leave nothing but interactions that count as unreached. -/
theorem result_eq {w : Work Unit} (hclient : w.client = client) : w.crew.finish.result =
    ⟨(List.range w.settings.count).map fun id => .unreached (w.lane id).length⟩ := by
  rw [Crew.result]
  refine congrArg SecondaryResult.mk (List.ext_getElem? fun id => ?_)
  rcases Nat.lt_or_ge id w.settings.count with hid | hid
  · obtain ⟨outcome, houtcome, hleaves⟩ := w.leaves hid
    have hall (t : Timing) (ht : t ∈ outcome.result.interactions) : t = .unreached := by
      obtain ⟨slot, hslot⟩ := List.mem_iff_getElem?.mp ht
      have hstored : w.stored? id slot = some t := by
        rw [Work.stored?, houtcome]
        exact hslot
      exact stored_eq hclient hid hstored
    have hresult : outcome.result = .unreached (w.lane id).length :=
      congrArg LaneResult.mk (List.eq_replicate_iff.mpr ⟨hleaves.length hid, hall⟩)
    simp [houtcome, hresult, hid]
  · have hlength : w.crew.finish.outcomes.length = w.settings.count := Crew.length_outcomes_finish
    rw [List.getElem?_eq_none (by simp [hlength, hid]), List.getElem?_eq_none (by simp [hid])]

theorem carriedTo_self (lengths : List Nat) :
    SecondaryResult.CarriedTo ⟨lengths.map LaneResult.unreached⟩
      ⟨lengths.map LaneResult.unreached⟩ := by
  refine List.forall₂_same.mpr fun lane hlane => ?_
  obtain ⟨length, -, rfl⟩ := List.mem_map.mp hlane
  refine List.forall₂_same.mpr fun t ht => ?_
  rw [List.eq_of_mem_replicate ht]
  exact Timing.carried_unreached

/-- The lengths of the lanes of the secondary numbered `k` of two. -/
def lengths (lanes k : Nat) : List Nat :=
  (List.range (secondary lanes).laneCount).map
    (RoundRobin.shareLength (RoundRobin.share 2 k schedule).length (secondary lanes).laneCount)

def document (k : Nat) : Document := Primary.workDocument setup (.usual 2) schedule 2 k

theorem completes {lanes k : Nat} (hmessage : (WorkloadMessage.ofDocument (document k)).isOk = true)
    (hsent : ((document k).elements.map fun octets => octets.length + 2).sum ≤ 2 ^ 28)
    (hresult : ((SecondaryResult.toDocument ⟨(lengths lanes k).map .unreached⟩).elements.map
      fun octets => octets.length + 2).sum ≤ 2 ^ 28) :
    ∃ x, Primary.Completes (Link.execute Session.peer) (Primary.requests (document k))
      (.start (.start (secondary lanes))) x := by
  obtain ⟨message, hmessage⟩ :
      ∃ message, WorkloadMessage.ofDocument (document k) = .ok message := by
    cases h : WorkloadMessage.ofDocument (document k) with
    | ok message => exact ⟨message, rfl⟩
    | error fault =>
      rw [h] at hmessage
      cases hmessage
  obtain ⟨hledger, -⟩ := WorkloadMessage.ofDocument_toDocument hmessage
  have hadapter : (secondary lanes).registry.find? message.ledger = some adapter := by
    rw [hledger]
    rfl
  have hwork := Secondary.workOf_eq_ok.mpr
    ⟨message, adapter, client, (), hmessage, hadapter, rfl, rfl⟩
  generalize hw : Work.mk client () message.shard
    ((secondary lanes).laneSettings message.parameters) = w at hwork
  obtain ⟨hshard, hcount⟩ := Work.of_message hwork
  have hlengths :
      (List.range w.settings.count).map (fun id => LaneResult.unreached (w.lane id).length) =
      (lengths lanes k).map .unreached := by
    rw [lengths, List.map_map, hcount]
    refine List.map_congr_left fun id _ => congrArg LaneResult.unreached ?_
    show RoundRobin.shareLength w.shard.length w.settings.count id = _
    rw [hshard, hcount, List.length_map]
  have heq := result_eq (w := w) (by rw [← hw])
  rw [hlengths] at heq
  have hfit : (Answer.result w.crew.finish.result).write.fault = none := by
    rw [heq, Answer.write_result]
    exact Wire.octetThenDocument_of_short hresult
  have hsent' : (Request.workload (document k)).write.fault = none := by
    rw [Request.write]
    exact Wire.octetThenDocument_of_short hsent
  refine ⟨_, Link.completes_iff.mpr ⟨w, ⟨(lengths lanes k).map .unreached⟩, rfl, ⟨hwork, ?_⟩,
    hsent', hfit⟩⟩
  rw [heq]
  exact carriedTo_self _

end Idle

namespace Primary

variable {ρ α : Type} {secondaries : List (Secondary σ β)} {setup : Setup} {campaign : Campaign}
  {result : CampaignResult}

/-- **A complete run places everything**: if a run brings a result and nobody was left out, each
interaction that was planned has its place in the result, and each place holds what was stored for
the interaction to which it belongs. -/
theorem run_placed {registry : Registry ρ α} {benchmark : Benchmark}
    {p : Primary (Link (Session σ β))}
    (h : (ofSecondaries secondaries).run (Link.execute Session.peer) registry setup benchmark
      campaign = (.ok result, p)) (hall : p.Everyone) :
    ∃ adapter builder state schedule after, registry.find? setup.ledger = some adapter ∧
      adapter.builder setup.parameters campaign.environment setup.endpoints = .ok (builder, state) ∧
      Plan.schedule builder benchmark (.ofSeed campaign.seed, state) = .ok (schedule, after) ∧
      schedule.length = benchmark.total ∧ Placed secondaries setup campaign schedule result := by
  obtain ⟨hpos, adapter, builder, state, schedule, after, hadapter, hbuilder, hschedule, hfilled⟩ :=
    filled_of_run h hall
  exact ⟨adapter, builder, state, schedule, after, hadapter, hbuilder, hschedule,
    Plan.length_schedule hschedule, hfilled.placed hpos⟩

/-- Four interactions on two secondaries, one with one lane and one with two. -/
theorem run_placed_idle : ∃ result p,
    (ofSecondaries [Idle.secondary 1, Idle.secondary 2]).run (Link.execute Session.peer)
      Idle.registry Idle.setup Idle.benchmark (.usual 2) = (.ok result, p) ∧ p.Everyone ∧
    Placed [Idle.secondary 1, Idle.secondary 2] Idle.setup (.usual 2) Idle.schedule result := by
  have hall : (ofSecondaries [Idle.secondary 1, Idle.secondary 2]).Everyone := by
    intro seat hseat
    simp only [ofSecondaries, ofLinks, List.map_cons, List.map_nil, List.mem_cons, List.not_mem_nil,
      or_false] at hseat
    rcases hseat with rfl | rfl <;> rfl
  have hgood (id : Nat) (seat : Seat (Link (Session Unit Unit))) (shard : Shard)
      (hseat : (ofSecondaries [Idle.secondary 1, Idle.secondary 2]).seats[id]? = some seat)
      (hshard : (RoundRobin.deal 2 Idle.schedule)[id]? = some shard) :
      ∃ x, Completes (Link.execute Session.peer) (requests (WorkloadMessage.toDocument
        ⟨Idle.setup.ledger, parametersOf Idle.setup (.usual 2), shard⟩)) seat.link x := by
    match id with
    | 0 =>
      obtain rfl := Option.some.inj hseat
      obtain rfl := Option.some.inj hshard
      exact Idle.completes (by decide +kernel) (by decide +kernel) (by decide +kernel)
    | 1 =>
      obtain rfl := Option.some.inj hseat
      obtain rfl := Option.some.inj hshard
      exact Idle.completes (by decide +kernel) (by decide +kernel) (by decide +kernel)
    | id + 2 => cases hseat
  obtain ⟨result, p, hrun, hstay⟩ : ∃ result p,
      (ofSecondaries [Idle.secondary 1, Idle.secondary 2]).run (Link.execute Session.peer)
        Idle.registry Idle.setup Idle.benchmark (.usual 2) = (.ok result, p) ∧ p.Everyone :=
    run_of_completes hall rfl Idle.planShards_eq hgood
  obtain ⟨adapter, builder, state, schedule, after, hadapter, hbuilder, hschedule, -, hplaced⟩ :=
    run_placed hrun hstay
  obtain rfl : Idle.adapter = adapter := Option.some.inj hadapter
  obtain ⟨rfl, rfl⟩ := Prod.mk.inj (Except.ok.inj hbuilder)
  obtain ⟨after', hschedule'⟩ := Idle.schedule_eq
  obtain ⟨rfl, -⟩ := Prod.mk.inj (Except.ok.inj (hschedule'.symm.trans hschedule))
  exact ⟨result, p, hrun, hstay, hplaced⟩

end Primary

end LedgerLoad
