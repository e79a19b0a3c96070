import LedgerLoad.Proofs.Plan.Schedule
import LedgerLoad.Proofs.Wire.Framing
import LedgerLoad.Proofs.Workload.RoundTrip

/-! # Lanes get their work in time order

A schedule is in time order, and so is what is dealt of it to a secondary and to one of its lanes.
On the way a time loses what it has beyond whole microseconds. Two times may become one by that, but
none comes before another that it followed (`Interaction.sent_mono`). Main statement:
`plan_in_time_order`, what a lane finds in its portion is in time order, and each time is less than
a microsecond before the one that was planned. Whatever document its work came from, a lane never
waits for a moment that the clock does not reach (`Work.moment_lt`). -/

namespace LedgerLoad

variable {σ β γ : Type}

/-! ### Times on their way -/

namespace Interaction

theorem nanos_sent (i : Interaction) :
    i.sent.due.nanos = min (i.due.nanos / 1000) greatestTime * 1000 := rfl

/-- What was not before another is not before it after both were sent. -/
theorem sent_mono {i j : Interaction} (h : i.due ≤ j.due) : i.sent.due ≤ j.sent.due := by
  have hnanos : i.due.nanos ≤ j.due.nanos := h
  show i.sent.due.nanos ≤ j.sent.due.nanos
  rw [nanos_sent, nanos_sent]
  omega

/-- `Brings i x`: the interaction `x` is what may become of `i` on its way. -/
structure Brings (i x : Interaction) : Prop where
  payload : x.payload = i.payload
  /-- It is not due later than it was planned, -/
  le : x.due ≤ i.due
  /-- and less than a microsecond before, unless its time was out of reach. -/
  near : i.due.micros < 2 ^ 64 → i.due.nanos < x.due.nanos + 1000

theorem brings_sent (i : Interaction) : i.Brings i.sent where
  payload := rfl
  le := by
    show i.sent.due.nanos ≤ i.due.nanos
    rw [nanos_sent]
    omega
  near := by
    intro hmicros
    have hquotient : i.due.nanos / 1000 < 2 ^ 64 := hmicros
    have hgreatest : greatestTime = 2 ^ 64 - 1 := rfl
    rw [nanos_sent]
    omega

example : Interaction.sent ⟨⟨333333333⟩, []⟩ = ⟨⟨333333000⟩, []⟩ := rfl

end Interaction

/-! ### Portions -/

/-- A shard of a plan is in time order. -/
theorem pairwise_of_plan {builder : Builder β} {state : β} {b : Benchmark} {secondaries seed : Nat}
    {shards : List Shard} (h : plan builder state b secondaries seed = .ok shards) {shard : Shard}
    (hshard : shard ∈ shards) : shard.Pairwise fun x y => x.due ≤ y.due := by
  obtain ⟨-, schedule, after, hschedule, rfl⟩ := plan_eq_ok h
  obtain ⟨parts, -, rfl⟩ := Plan.schedule_eq_ok hschedule
  obtain ⟨k, -, rfl⟩ := List.mem_map.mp hshard
  exact (Plan.pairwise_sorted parts.flatten).sublist (RoundRobin.share_sublist secondaries k _)

theorem Work.portion_of_message {s : Secondary σ γ} {work : Work σ} {m : WorkloadMessage}
    (h : s.workOf m.toDocument = .ok work) (id : Nat) : (work.lane id).portion =
      (RoundRobin.share work.settings.count id m.shard).map Interaction.sent := by
  rw [← RoundRobin.share_map, ← (Work.of_message h).1]
  rfl

/-- A time that was read is less than `2 ^ 64` microseconds. -/
theorem Work.due_lt {s : Secondary σ γ} {d : Document} {work : Work σ} (h : s.workOf d = .ok work) :
    ∀ i ∈ work.shard, i.due < .ofMicros (2 ^ 64) := by
  obtain ⟨m, adapter, client, shared, hmessage, -, -, rfl⟩ := Secondary.workOf_eq_ok.mp h
  obtain ⟨rest, -, hshard⟩ := WorkloadMessage.ofDocument_eq_ok_iff.mp hmessage
  exact WorkloadMessage.due_of_readShard hshard

/-- **No lane waits for a moment out of reach**: on a clock of `2 ^ 63` seconds that has run for less
than half of them, the time of an interaction after the start is a moment of the clock. -/
theorem Work.moment_lt {s : Secondary σ γ} {d : Document} {work : Work σ}
    (h : s.workOf d = .ok work) {origin : Duration} (horigin : origin < .ofSeconds (2 ^ 62))
    (id : Nat) : ∀ i ∈ (work.lane id).portion, origin + i.due < .ofSeconds (2 ^ 63) := by
  intro i hi
  have hdue : i.due.nanos < 2 ^ 64 * 1000 :=
    Work.due_lt h i ((RoundRobin.share_sublist _ id work.shard).subset hi)
  have hstart : origin.nanos < 2 ^ 62 * 1000000000 := horigin
  show origin.nanos + i.due.nanos < 2 ^ 63 * 1000000000
  omega

/-- What holds of a shard that was sent to a secondary in the body of a document. -/
structure InTimeOrder (σ γ : Type) (shard : Shard) (body : Bytes) : Prop where
  /-- The document arrives. -/
  arrives : ∃ d, Document.decode body = .ok d
  /-- A lane of a secondary that makes work of it finds interactions in time order. -/
  ordered : ∀ (s : Secondary σ γ) (d : Document) (work : Work σ), Document.decode body = .ok d →
    s.workOf d = .ok work → ∀ id, (work.lane id).portion.Pairwise fun x y => x.due ≤ y.due
  /-- They are those that the plan has for it, one by one. -/
  planned : ∀ (s : Secondary σ γ) (d : Document) (work : Work σ), Document.decode body = .ok d →
    s.workOf d = .ok work → ∀ id, List.Forall₂ Interaction.Brings
      (RoundRobin.share work.settings.count id shard) (work.lane id).portion

/-- **Every lane gets its work in time order**, whatever number of secondaries a plan is for and
whatever number of lanes they have. -/
theorem plan_in_time_order {builder : Builder β} {state : β} {b : Benchmark}
    {secondaries seed k : Nat} {shards : List Shard} {shard : Shard} {ledger : String}
    {parameters : RunParameters} {body : Bytes}
    (hplan : plan builder state b secondaries seed = .ok shards) (hshard : shards[k]? = some shard)
    (hbody : (WorkloadMessage.toDocument ⟨ledger, parameters, shard⟩).encode = .ok body) :
    InTimeOrder σ γ shard body := by
  have hdecode := (Document.carriedBy_of_encode hbody).decode_eq
  have horder := pairwise_of_plan hplan (List.mem_of_getElem? hshard)
  refine ⟨⟨_, hdecode⟩, fun s d work hd hwork id => ?_, fun s d work hd hwork id => ?_⟩
  · obtain rfl := Except.ok.inj (hdecode.symm.trans hd)
    rw [Work.portion_of_message hwork, List.pairwise_map]
    have hshare := horder.sublist (RoundRobin.share_sublist work.settings.count id shard)
    exact hshare.imp Interaction.sent_mono
  · obtain rfl := Except.ok.inj (hdecode.symm.trans hd)
    rw [Work.portion_of_message hwork, List.forall₂_map_right_iff, List.forall₂_same]
    exact fun i _ => i.brings_sent

/-- The second of two secondaries, which has two lanes, finds its interactions in order. -/
theorem plan_in_time_order_idle : ∃ m : WorkloadMessage, ∃ body work,
    plan Idle.builder () Idle.benchmark 2 0 = .ok (RoundRobin.deal 2 Idle.schedule) ∧
    (RoundRobin.deal 2 Idle.schedule)[1]? = some m.shard ∧ m.toDocument.encode = .ok body ∧
    (Idle.secondary 2).workOf m.toDocument = .ok work ∧ InTimeOrder Unit Unit m.shard body := by
  obtain ⟨after, hschedule⟩ := Idle.schedule_eq
  have hplan : plan Idle.builder () Idle.benchmark 2 0 = .ok (RoundRobin.deal 2 Idle.schedule) :=
    plan_of_schedule Nat.two_pos hschedule
  obtain ⟨m, hm⟩ : ∃ m : WorkloadMessage,
      m = ⟨"idle", .usual, RoundRobin.share 2 1 Idle.schedule⟩ := ⟨_, rfl⟩
  have hshard : (RoundRobin.deal 2 Idle.schedule)[1]? = some m.shard := by
    rw [hm]
    rfl
  obtain ⟨body, hbody⟩ : ∃ body, m.toDocument.encode = .ok body :=
    Document.encode_of_short (by rw [hm]; decide +kernel)
  have hmessage : WorkloadMessage.ofDocument m.toDocument = .ok m.sent := by
    rw [hm]
    exact WorkloadMessage.ofDocument_toDocument_eq (by decide) (by decide)
  have hadapter : (Idle.secondary 2).registry.find? m.sent.ledger = some Idle.adapter := by
    rw [hm]
    rfl
  have hwork := Secondary.workOf_eq_ok.mpr
    ⟨m.sent, Idle.adapter, Idle.client, (), hmessage, hadapter, rfl, rfl⟩
  exact ⟨m, body, _, hplan, hshard, hbody, hwork, plan_in_time_order hplan hshard hbody⟩

end LedgerLoad
