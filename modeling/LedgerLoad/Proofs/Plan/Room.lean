import LedgerLoad.Proofs.Plan.Due
import LedgerLoad.Proofs.Plan.Outcome
import LedgerLoad.Proofs.Primary.Placement

/-! # Room for a schedule

A benchmark that is accepted may still ask for more than a schedule can hold, or for something at a
time that is beyond the longest span: nothing limits rates, durations and starts from above. Main
statement: `plan_settled`, with a builder that does what it is asked for nothing else stands against
a plan. It is the last interaction of each workload that decides, and none is due too late if all
workloads end two hours before the longest span (`Benchmark.fits_of_early`). -/

namespace LedgerLoad

namespace Benchmark

variable {b : Benchmark}

theorem count_le_total {w : Workload} (hw : w ∈ b.workloads) : w.count ≤ b.total :=
  List.le_sum_of_mem (List.mem_map_of_mem hw)

/-- Numbers of interactions for which there is room are words. -/
theorem count_lt_of_total (htotal : b.total ≤ Plan.greatestLength) {w : Workload}
    (hw : w ∈ b.workloads) : w.count < 2 ^ 64 - 1 :=
  ((count_le_total hw).trans htotal).trans_lt (by decide)

/-- The last interaction of each workload is due latest. -/
theorem fits_iff_last (hvalid : b.validate = .ok ()) : b.Fits ↔ b.total ≤ Plan.greatestLength ∧
    ∀ w ∈ b.workloads, 0 < w.count → (w.due? (w.count - 1)).isSome := by
  constructor
  · intro h
    exact ⟨h.total, fun w hw hpos => h.due w hw _ (Nat.sub_lt hpos Nat.one_pos)⟩
  · rintro ⟨htotal, hlast⟩
    refine ⟨htotal, fun w hw i hi => ?_⟩
    have hcount := count_lt_of_total htotal hw
    obtain ⟨last, hdue⟩ := Option.isSome_iff_exists.mp (hlast w hw (by omega))
    obtain ⟨sooner, hsooner, -⟩ := Workload.due?_mono (isRate_of_validate hvalid hw)
      (Nat.le_sub_one_of_lt hi) (by omega) hdue
    rw [hsooner]
    rfl

/-- **There is room for workloads that end two hours before the longest span**, if they are not too
many. -/
theorem fits_of_early (hvalid : b.validate = .ok ()) (htotal : b.total ≤ Plan.greatestLength)
    (hearly : ∀ w ∈ b.workloads,
      w.start.nanos + w.duration.nanos + 7200 * Duration.second ≤ Duration.longest.nanos) :
    b.Fits :=
  ⟨htotal, fun w hw _ hi => Workload.due?_early (isRate_of_validate hvalid hw) (hearly w hw)
    (count_lt_of_total htotal hw) hi⟩

end Benchmark

/-- What it means that only a lack of room stands against the plan of a benchmark. -/
structure Settled (b : Benchmark) (secondaries : ℕ) (outcome : Except PlanStop (List Shard)) :
    Prop where
  /-- If there is room, there is a shard for each secondary. -/
  planned : b.Fits → ∃ shards, outcome = .ok shards ∧ shards.length = secondaries
  /-- If there is none, planning breaks down. -/
  refused : ¬ b.Fits → outcome = .error .outOfRange
  /-- There is room if the schedule is not too long and the last interaction of each workload is due
  within the longest span. -/
  last : b.Fits ↔ b.total ≤ Plan.greatestLength ∧
    ∀ w ∈ b.workloads, 0 < w.count → (w.due? (w.count - 1)).isSome
  /-- It is, if the workload ends two hours before that. -/
  early : b.total ≤ Plan.greatestLength → (∀ w ∈ b.workloads,
    w.start.nanos + w.duration.nanos + 7200 * Duration.second ≤ Duration.longest.nanos) → b.Fits

section

variable {β : Type} {builder : Builder β} {holds : β → List ℕ → List ℕ → Prop}
  {writes : Transaction → Bytes → Prop} {b : Benchmark} {state : β} {secondaries : ℕ}

/-- With a builder that does whatever it is asked for there are shards, or there is no room. -/
theorem plan_cases_willing (hserves : builder.Serves holds writes fun _ => False)
    (hsupports : builder.Supports b) (hvalid : b.validate = .ok ()) (h : holds state [] [])
    (hpos : 0 < secondaries) (seed : ℕ) :
    (∃ p parts after, Plan.Provided b holds p after ∧
      List.Forall₂ (Plan.Streams p writes) b.workloads parts ∧ b.Fits ∧
        plan builder state b secondaries seed =
          .ok (RoundRobin.deal secondaries (Plan.sorted parts.flatten))) ∨
    plan builder state b secondaries seed = .error .outOfRange ∧ ¬ b.Fits := by
  rcases plan_cases hserves hvalid h hpos seed with hplanned | ⟨stop, hplan, hexcuse⟩
  · exact Or.inl hplanned
  · obtain ⟨rfl, hnot⟩ := hexcuse.outOfRange hsupports
    exact Or.inr ⟨hplan, hnot⟩

/-- **An accepted benchmark is planned if there is room for its schedule**, and only then, by any
builder that can do what is asked for and does it. -/
theorem plan_settled (hserves : builder.Serves holds writes fun _ => False)
    (hsupports : builder.Supports b) (hvalid : b.validate = .ok ()) (h : holds state [] [])
    (hpos : 0 < secondaries) (seed : ℕ) :
    Settled b secondaries (plan builder state b secondaries seed) := by
  refine ⟨fun hfits => ?_, fun hnot => ?_, Benchmark.fits_iff_last hvalid,
    Benchmark.fits_of_early hvalid⟩
  · rcases plan_cases_willing hserves hsupports hvalid h hpos seed with
      ⟨p, parts, after, -, -, -, hplan⟩ | ⟨-, hnot⟩
    · exact ⟨_, hplan, RoundRobin.length_deal secondaries _⟩
    · exact absurd hfits hnot
  · rcases plan_cases_willing hserves hsupports hvalid h hpos seed with
      ⟨p, parts, after, -, -, hfits, -⟩ | ⟨hplan, -⟩
    · exact absurd hfits hnot
    · exact hplan

end

namespace Idle

theorem serves : builder.Serves (fun _ _ _ => True) (fun _ _ => True) fun _ => False := by
  constructor <;> intros <;> simp [BuilderCall.Ends, builder]

theorem supports (b : Benchmark) : builder.Supports b := ⟨fun _ => rfl, fun _ _ _ _ => rfl⟩

/-- Two interactions, one a second, of which the first is due in the last second of all. -/
def late : Benchmark :=
  ⟨.none, [], [], [⟨.custom "wait", 1.0, .ofSeconds 2, .ofSeconds (2 ^ 64 - 1)⟩]⟩

/-- The second one is due beyond the longest span. -/
theorem not_fits_late : ¬ late.Fits := by
  intro hfits
  have hcount : 1 < (⟨.custom "wait", 1.0, .ofSeconds 2, .ofSeconds (2 ^ 64 - 1)⟩ :
      Workload).count := by decide +kernel
  have hdue := hfits.due _ (List.mem_singleton.mpr rfl) 1 hcount
  have hnone : (⟨.custom "wait", 1.0, .ofSeconds 2, .ofSeconds (2 ^ 64 - 1)⟩ :
    Workload).due? 1 = none := by decide +kernel
  rw [hnone] at hdue
  cases hdue

end Idle

/-- Four interactions on a ledger on which nothing happens. -/
theorem plan_settled_idle : Idle.benchmark.validate = .ok () ∧
    ∃ shards, plan Idle.builder () Idle.benchmark 2 0 = .ok shards ∧ shards.length = 2 := by
  have hvalid : Idle.benchmark.validate = .ok () := rfl
  have hsettled : Settled Idle.benchmark 2 (plan Idle.builder () Idle.benchmark 2 0) :=
    plan_settled Idle.serves (Idle.supports _) hvalid trivial Nat.two_pos 0
  exact ⟨hvalid, hsettled.planned (hsettled.early (by decide +kernel) (by decide))⟩

/-- **A benchmark that is accepted but cannot be planned**: each of its numbers is a span, but the
second interaction is due beyond the longest one. -/
theorem plan_late : Idle.late.validate = .ok () ∧
    (∀ w ∈ Idle.late.workloads, w.start ≤ Duration.longest ∧ w.duration ≤ Duration.longest) ∧
      plan Idle.builder () Idle.late 1 0 = .error .outOfRange := by
  have hvalid : Idle.late.validate = .ok () := rfl
  refine ⟨hvalid, by decide, ?_⟩
  rcases plan_cases_willing Idle.serves (Idle.supports _) hvalid trivial Nat.one_pos 0 with
    ⟨p, parts, after, -, -, hfits, -⟩ | ⟨hplan, -⟩
  · exact absurd hfits Idle.not_fits_late
  · exact hplan

end LedgerLoad
