import LedgerLoad.Proofs.Lane.Walk
import LedgerLoad.Proofs.Primary.Link
import LedgerLoad.Proofs.Primary.Run
import LedgerLoad.Proofs.Results.Carried
import LedgerLoad.Proofs.Workload.Message

/-! # What a link brings in a run

A link to a secondary goes through all requests of a run if the secondary can make work of what it
is sent. Then the link brings what its lanes have left. Main statements: `Link.completes_iff`, when
a link does so, and `Work.recorded_of_stored`, to which interaction of the work each timing belongs
that a lane has stored. -/

namespace LedgerLoad

variable {σ β : Type}

/-- The lanes that are started on some work as soon as the secondary is there. -/
def Work.crew (w : Work σ) : Crew σ := .start w.shard w.client w.shared w.settings .zero

/-- The number of lanes of a secondary. -/
def Secondary.laneCount (s : Secondary σ β) : Nat := max s.settings.lanes 1

/-- `s.Brings d work r`: the secondary makes work of a document, and what its lanes then leave comes
back as `r`. -/
def Secondary.Brings (s : Secondary σ β) (d : Document) (work : Work σ)
    (r : SecondaryResult) : Prop :=
  s.workOf d = .ok work ∧ work.crew.finish.result.CarriedTo r

/-! ### What a link brings -/

namespace Link

variable {s : Secondary σ β} {clock : Duration} {stage next : Stage σ}

/-- A request with a good response was accepted. -/
theorem accepts_of_execute {l l' : Link (Session σ β)} {r : Request Document}
    {x : Option SecondaryResult} (h : l.InStep s clock stage) (hfin : r.command ≠ .fin)
    (hok : l.execute Session.peer r = (.ok x, l')) : ∃ a next,
      s.Accepts (Secondary.momentOf clock stage r.received) stage r.received a next ∧
        a.response = .ok x ∧ r.write.fault = none ∧ a.write.fault = none ∧
        l'.InStep s (Secondary.momentOf clock stage r.received) next := by
  obtain ⟨hsent, hfit⟩ := execute_ok h hfin (congrArg Prod.fst hok)
  obtain ⟨hresponse, hstep⟩ := execute_inStep h hfin hsent hfit
  rw [hok] at hresponse hstep
  rcases s.answer_cases (Secondary.momentOf clock stage r.received) stage r.received with
    ⟨fault, hanswer⟩ | ⟨a, next, haccepts⟩
  · rw [hanswer] at hresponse
    cases hresponse
  · rw [haccepts.answer_eq] at hresponse hstep hfit
    exact ⟨a, next, haccepts, hresponse.symm, hsent, hfit, hstep⟩

/-- A request that is accepted has the response that its answer makes. -/
theorem execute_of_accepts {l : Link (Session σ β)} {r : Request Document} {a : Answer}
    (h : l.InStep s clock stage) (hfin : r.command ≠ .fin)
    (haccepts : s.Accepts (Secondary.momentOf clock stage r.received) stage r.received a next)
    (hsent : r.write.fault = none) (hfit : a.write.fault = none) :
    ∃ l', l.execute Session.peer r = (a.response, l') ∧
      l'.InStep s (Secondary.momentOf clock stage r.received) next := by
  have hanswer := haccepts.answer_eq
  obtain ⟨hresponse, hstep⟩ := execute_inStep h hfin hsent (by rw [hanswer]; exact hfit)
  rw [hanswer] at hresponse hstep
  exact ⟨_, Prod.ext hresponse rfl, hstep⟩

theorem response_result {r : SecondaryResult} {x : Option SecondaryResult} :
    (Answer.result r).response = .ok x ↔ ∃ r', x = some r' ∧ r.CarriedTo r' := by
  have hread (r' : SecondaryResult) : SecondaryResult.ofDocument r.toDocument = .ok r' ↔
      r.CarriedTo r' := SecondaryResult.ofDocument_toDocument
  unfold Answer.response
  dsimp only
  generalize SecondaryResult.ofDocument r.toDocument = read at hread ⊢
  simp only [← hread]
  cases read with
  | error fault => simp
  | ok r' => simp [eq_comm]

/-- **A link goes through all phases** exactly if the secondary makes work of the document, and what
its lanes then leave comes back; both documents must fit a frame. -/
theorem completes_iff {d : Document} {x : Option SecondaryResult} :
    Primary.Completes (execute Session.peer) (Primary.requests d) (start (Session.start s)) x ↔
      ∃ work r, x = some r ∧ s.Brings d work r ∧ (Request.workload d).write.fault = none ∧
        (Answer.result work.crew.finish.result).write.fault = none := by
  constructor
  · intro h
    obtain ⟨_, _, hprepare, h⟩ := h.uncons
    obtain ⟨_, _, hworkload, h⟩ := h.uncons
    obtain ⟨_, _, hrun, h⟩ := h.uncons
    obtain ⟨_, hresults⟩ := h.single
    obtain ⟨_, _, haccepts, -, -, -, h⟩ :=
      accepts_of_execute (inStep_start s) (by decide) hprepare
    cases haccepts
    obtain ⟨_, _, haccepts, -, hsent, -, h⟩ :=
      accepts_of_execute h (by simp [Request.command]) hworkload
    cases haccepts with
    | @workload _ _ work _ hwork =>
      obtain ⟨_, _, haccepts, -, -, -, h⟩ := accepts_of_execute h (by decide) hrun
      cases haccepts
      obtain ⟨_, _, haccepts, hresponse, -, hfit, -⟩ := accepts_of_execute h (by decide) hresults
      cases haccepts
      obtain ⟨r, rfl, hr⟩ := response_result.mp hresponse
      exact ⟨work, r, rfl, ⟨hwork, hr⟩, hsent, hfit⟩
  · rintro ⟨work, r, rfl, ⟨hwork, hr⟩, hsent, hfit⟩
    obtain ⟨l₁, hprepare, h⟩ :=
      execute_of_accepts (inStep_start s) (r := .prepare) (by decide) (.prepare rfl) rfl rfl
    obtain ⟨l₂, hworkload, h⟩ :=
      execute_of_accepts h (r := .workload d) (by simp [Request.command]) (.workload rfl hwork)
        hsent rfl
    obtain ⟨l₃, hrun, h⟩ := execute_of_accepts h (r := .run) (by decide) .run rfl rfl
    obtain ⟨l₄, hresults, -⟩ := execute_of_accepts h (r := .results) (by decide) .finish rfl hfit
    have hresponse := response_result.mpr ⟨r, rfl, hr⟩
    exact .next hprepare (.next hworkload (.next hrun
      (.last (hresults.trans (congrArg (·, l₄) hresponse)))))

end Link

/-! ### What lanes have stored -/

namespace Work

variable {s : Secondary σ β} {w : Work σ}

/-- What a lane has stored in a slot when all lanes have ended. -/
def stored? (w : Work σ) (lane slot : Nat) : Option Timing := do
  let outcome ← w.crew.finish.outcomes[lane]?
  outcome.result.interactions[slot]?

/-- A lane that is started on some work. -/
def lane (w : Work σ) (id : Nat) : Lane σ := ⟨id, w.shard, w.client, w.settings⟩

theorem leaves (w : Work σ) {id : Nat} (hid : id < w.settings.count) :
    ∃ outcome, w.crew.finish.outcomes[id]? = some outcome ∧ (w.lane id).Leaves .zero outcome :=
  Crew.leaves_finish hid

/-- `w.Recorded lane i t`: the lane has triggered an interaction, in which the timing was recorded.
-/
def Recorded (w : Work σ) (lane : Nat) (i : Interaction) (t : Timing) : Prop :=
  ∃ begun clock timer ending,
    (w.lane lane).Triggers .zero begun i clock timer ending ∧ timer.timing = t

/-- What a lane has stored in a slot belongs to the interaction that the lane does there, which it
has triggered or not reached. -/
theorem recorded_of_stored {lane slot : Nat} {t : Timing} (hlane : lane < w.settings.count)
    (h : w.stored? lane slot = some t) : ∃ i, w.shard[lane + slot * w.settings.count]? = some i ∧
      (w.lane lane).portion[slot]? = some i ∧ (t = .unreached ∨ w.Recorded lane i t) := by
  obtain ⟨outcome, houtcome, hleaves⟩ := w.leaves hlane
  have ht : outcome.result.interactions[slot]? = some t := by
    have hbind : w.stored? lane slot = outcome.result.interactions[slot]? := by
      rw [stored?, houtcome]
      rfl
    rw [← hbind, h]
  have hslot : slot < (w.lane lane).length := by
    rw [← hleaves.length hlane]
    exact (List.getElem?_eq_some_iff.mp ht).1
  have hi : lane + slot * w.settings.count < w.shard.length :=
    (RoundRobin.lt_shareLength hlane slot).mp hslot
  have hshare : (w.lane lane).portion[slot]? = w.shard[lane + slot * w.settings.count]? :=
    RoundRobin.getElem?_share (Nat.zero_lt_of_lt hlane) lane slot w.shard
  rw [List.getElem?_eq_getElem hi] at hshare
  refine ⟨_, List.getElem?_eq_getElem hi, hshare, ?_⟩
  rcases hleaves.slot ht with
    hunreached | ⟨i, begun, clock, timer, ending, hportion, htriggers, htiming⟩
  · exact Or.inl hunreached
  · obtain rfl := Option.some.inj (hportion.symm.trans hshare)
    exact Or.inr ⟨begun, clock, timer, ending, htriggers, htiming⟩

/-- What stands behind an entry that has come back. -/
theorem stored_of_carried {r : SecondaryResult} {lane slot : Nat} {result : LaneResult} {t : Timing}
    (h : w.crew.finish.result.CarriedTo r) (hresult : r.lanes[lane]? = some result)
    (ht : result.interactions[slot]? = some t) :
    ∃ stored, w.stored? lane slot = some stored ∧ stored.carried = .ok t := by
  obtain ⟨left, hleft, hcarried⟩ := forall₂_getElem? h hresult
  obtain ⟨stored, hstored, ht⟩ := forall₂_getElem? hcarried ht
  refine ⟨stored, ?_, ht⟩
  rw [Crew.result, List.getElem?_map, Option.map_eq_some_iff] at hleft
  obtain ⟨outcome, houtcome, rfl⟩ := hleft
  rw [stored?, houtcome]
  exact hstored

theorem length_lanes {r : SecondaryResult} (h : w.crew.finish.result.CarriedTo r) :
    r.lanes.length = w.settings.count := by
  rw [← h.length_eq, Crew.result, List.length_map]
  exact Crew.length_outcomes_finish

theorem length_interactions {r : SecondaryResult} {lane : Nat} {result : LaneResult}
    (h : w.crew.finish.result.CarriedTo r) (hresult : r.lanes[lane]? = some result) :
    result.interactions.length =
      RoundRobin.shareLength w.shard.length w.settings.count lane := by
  have hlane : lane < w.settings.count := by
    rw [← length_lanes h]
    exact (List.getElem?_eq_some_iff.mp hresult).1
  obtain ⟨left, hleft, hcarried⟩ := forall₂_getElem? h hresult
  obtain ⟨outcome, houtcome, hleaves⟩ := w.leaves hlane
  have hsame : some outcome.result = some left := by
    rw [← hleft, Crew.result, List.getElem?_map, houtcome]
    rfl
  obtain rfl := Option.some.inj hsame
  rw [← hcarried.length_eq, hleaves.length hlane]
  rfl

/-- What a secondary makes of the work it is sent. -/
theorem of_message {m : WorkloadMessage} (h : s.workOf m.toDocument = .ok w) :
    w.shard = m.shard.map Interaction.sent ∧ w.settings.count = s.laneCount := by
  obtain ⟨message, adapter, client, shared, hmessage, -, -, rfl⟩ := Secondary.workOf_eq_ok.mp h
  refine ⟨(WorkloadMessage.ofDocument_toDocument hmessage).2, ?_⟩
  exact Nat.max_eq_left (Nat.le_max_right _ _)

end Work

end LedgerLoad
