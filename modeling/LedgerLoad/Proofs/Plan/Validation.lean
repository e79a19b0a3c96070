import LedgerLoad.Proofs.Plan.Room

/-! # Validation and planning agree

What validation asks of the numbers in a benchmark file, planning asks once more of what was
created. Both find the same: what is accepted meets no obstacle in planning, and what is refused
meets the obstacle of the same kind at the same workload (`Benchmark.SameFault`), the first of all
at fault. Main statement: `Benchmark.agrees`. -/

namespace LedgerLoad

namespace Benchmark

/-- `b.SameFault fault fault'`: the fault that validation finds in a workload is the one that
planning meets at the same workload. Validation does not tell whether it is accounts or contracts
that are missing for a call. -/
inductive SameFault (b : Benchmark) : BenchmarkFault → PlanFault → Prop
  | fewAccounts (place : ℕ) :
    SameFault b (.fewAccounts place) (.notEnoughAccounts place 2 b.accounts.count)
  | noAccounts (place : ℕ) (h : b.accounts.count = 0) :
    SameFault b (.nothingToInvoke place) (.notEnoughAccounts place 1 0)
  | noContracts (place : ℕ) (h : 0 < b.accounts.count) :
    SameFault b (.nothingToInvoke place) (.noContracts place)

/-- What validation is to rule out in planning. -/
def Foreseen : PlanStop → Prop
  | .fault (.notEnoughAccounts ..) => True
  | .fault (.noContracts _) => True
  | .emptyDraw => True
  | _ => False

/-- What it means that validation and planning agree on a benchmark. -/
structure Agrees (b : Benchmark) : Prop where
  /-- Planning what is accepted never stops, with any builder, for what validation is to rule
  out. -/
  accepted : b.validate = .ok () → ∀ {β : Type} (builder : Builder β) (state : β)
    (secondaries seed : ℕ), 0 < secondaries → ∀ stop,
      plan builder state b secondaries seed = .error stop → ¬ Foreseen stop
  /-- What is refused, its rates apart, cannot be planned for the same reason, by any builder that
  can do everything and does it, if there is room for the schedule. -/
  refused : ∀ fault, (∀ w ∈ b.workloads, isRate w.rate = true) → b.validate = .error fault →
    b.Fits → ∀ {β : Type} (builder : Builder β) (holds : β → List ℕ → List ℕ → Prop)
      (writes : Transaction → Bytes → Prop) (state : β) (secondaries seed : ℕ),
      builder.Serves holds writes (fun _ => False) → builder.capabilities = ⟨true, true⟩ →
      holds state [] [] → 0 < secondaries → ∃ fault', b.SameFault fault fault' ∧
        plan builder state b secondaries seed = .error (.fault fault')

variable {b : Benchmark}

/-- Validation finds the first workload at fault. -/
theorem validate_eq_error {fault : BenchmarkFault} (h : b.validate = .error fault) :
    ∃ earlier w place later, b.workloads.zipIdx = earlier ++ (w, place) :: later ∧
      b.fault? w place = some fault ∧
      ∀ x ∈ earlier, b.fault? x.1 x.2 = none := by
  rcases b.validate_cases with ⟨hok, -⟩ | ⟨first, herror, hsome⟩
  · rw [h] at hok
    cases hok
  · obtain rfl := Except.error.inj (h.symm.trans herror)
    obtain ⟨earlier, ⟨w, place⟩, later, hsplit, hfault, hearlier⟩ :=
      List.findSome?_eq_some_iff.mp hsome
    exact ⟨earlier, w, place, later, hsplit, hfault, hearlier⟩

end Benchmark

namespace Plan

variable {β : Type} {builder : Builder β} {holds : β → List ℕ → List ℕ → Prop}
  {writes : Transaction → Bytes → Prop} {b : Benchmark}

/-- What is found at fault in a workload stands against it once everything is created. -/
theorem obstacle?_of_fault {p : Provisions} {state : β} (hp : Provided b holds p state)
    {w : Workload} (hrate : Benchmark.isRate w.rate = true) {place : ℕ} {fault : BenchmarkFault}
    (h : b.fault? w place = some fault) :
    ∃ fault', b.SameFault fault fault' ∧ obstacle? builder p w place = some fault' := by
  rw [Benchmark.fault?, if_neg (by simp [hrate])] at h
  unfold obstacle?
  rw [hp.accounts, hp.contracts]
  cases hkind : w.kind with
  | transfer stake =>
    simp only [hkind] at h ⊢
    by_cases hfew : b.accounts.count < 2
    · rw [if_pos hfew] at h ⊢
      obtain rfl := Option.some.inj h
      exact ⟨_, .fewAccounts place, rfl⟩
    · rw [if_neg hfew] at h
      cases h
  | invoke =>
    simp only [hkind] at h ⊢
    by_cases hnothing : b.accounts.count = 0 ∨ b.contracts = []
    · rw [if_pos hnothing] at h
      obtain rfl := Option.some.inj h
      by_cases hnobody : b.accounts.count = 0
      · exact ⟨_, .noAccounts place hnobody, if_pos hnobody⟩
      · have hempty := List.length_eq_zero_iff.mpr (hnothing.resolve_left hnobody)
        exact ⟨_, .noContracts place (Nat.pos_of_ne_zero hnobody),
          by rw [if_neg hnobody, if_pos hempty]⟩
    · rw [if_neg hnothing] at h
      cases h
  | custom name =>
    simp only [hkind] at h
    cases h

/-- **A benchmark that is refused is not planned**: the workloads before the one at fault give their
interactions, and planning ends there for the same reason. -/
theorem schedule_refused (hserves : builder.Serves holds writes fun _ => False)
    (hsupports : builder.Supports b) (hrates : ∀ w ∈ b.workloads, Benchmark.isRate w.rate = true)
    {fault : BenchmarkFault} (hfault : b.validate = .error fault) (hfits : b.Fits)
    (source : Random.Source) {state : β} (h : holds state [] []) :
    Ends (schedule builder b) (source, state) (fun _ _ => False)
      fun stop => ∃ fault', stop = .fault fault' ∧ b.SameFault fault fault' := by
  obtain ⟨earlier, w, place, later, hsplit, hfound, hearlier⟩ :=
    Benchmark.validate_eq_error hfault
  have hmem (x : Workload × ℕ) (hx : x ∈ earlier ++ (w, place) :: later) : x.1 ∈ b.workloads :=
    List.mem_of_getElem? (List.mem_zipIdx_iff_getElem?.mp (hsplit ▸ hx))
  unfold schedule
  refine Ends.bind ((provide_ends hserves b h (fun _ hfault => hfault.elim)
    fun hnot => absurd hsupports hnot).imp (fun p between hp => ?_) fun _ hbad => hbad)
  rw [if_neg (Nat.not_lt.mpr hfits.total), hsplit, List.mapM_append]
  refine Ends.bind (Ends.bind ((ends_mapM_forall₂
    (I := fun after => holds after.2 p.accounts.toList p.contracts.toList)
    (R := fun w xs => Streams p writes w.1 xs) (fun x hx before hI => ?_) hp.holds).imp
    (fun parts after _ => ?_) fun _ hbad => hbad))
  · have hx' := hmem x (List.mem_append_left _ hx)
    refine (interactions_of_accepted hserves hp hx' (hearlier x hx) hI).imp
      (fun _ _ hgood => hgood) fun stop hexcuse => ?_
    exact absurd hfits (hexcuse.outOfRange hsupports).2
  · have hw := hmem (w, place) (List.mem_append_right _ List.mem_cons_self)
    obtain ⟨fault', hsame, hblocked⟩ : ∃ fault', b.SameFault fault fault' ∧
        obstacle? builder p w place = some fault' := obstacle?_of_fault hp (hrates w hw) hfound
    rw [List.mapM_cons]
    exact Ends.bind (Ends.bind (interactions_blocked hblocked ⟨fault', rfl, hsame⟩))

end Plan

namespace Benchmark

/-- What validation is to rule out is no excuse of planning. -/
theorem not_excuse_of_foreseen {β : Type} {builder : Builder β} {faulty : AdapterFault → Prop}
    {stop : PlanStop} (h : Foreseen stop) : ¬ Plan.Excuse builder b faulty stop := by
  cases stop with
  | fault fault =>
    cases fault with
    | notEnoughAccounts | noContracts => exact id
    | unsupported | noSecondaries | adapter => exact h.elim
  | emptyDraw => exact id
  | outOfRange => exact h.elim

/-- **Validation and planning agree.** -/
theorem agrees (b : Benchmark) : b.Agrees := by
  refine ⟨?_, ?_⟩
  · intro hvalid β builder state secondaries seed hpos stop hplan hforeseen
    rcases plan_cases builder.serves_any hvalid trivial hpos seed with
      ⟨p, parts, after, -, -, -, hok⟩ | ⟨stop', hstop', hexcuse⟩
    · rw [hplan] at hok
      cases hok
    · obtain rfl := Except.error.inj (hplan.symm.trans hstop')
      exact not_excuse_of_foreseen hforeseen hexcuse
  · intro fault hrates hfault hfits β builder holds writes state secondaries seed hserves hable h
      hpos
    have hsupports : builder.Supports b := by
      refine ⟨fun _ => ?_, fun _ _ _ _ => ?_⟩ <;> rw [hable]
    rcases (Plan.schedule_refused hserves hsupports hrates hfault hfits (.ofSeed seed) h).cases with
      ⟨_, _, -, hnever⟩ | ⟨_, hschedule, fault', rfl, hsame⟩
    · exact hnever.elim
    · exact ⟨fault', hsame, plan_of_schedule_error hpos hschedule⟩

/-- A benchmark of which the second workload calls contracts where there are none. -/
def uncallable : Benchmark :=
  ⟨⟨1, 0⟩, [], [],
    [⟨.custom "wait", 2.0, .ofSeconds 2, .zero⟩, ⟨.invoke, 1.0, .ofSeconds 1, .zero⟩]⟩

/-- A ledger that could do everything does not come to it. -/
theorem agrees_uncallable : uncallable.validate = .error (.nothingToInvoke 1) ∧
    plan Idle.builder () uncallable 2 0 = .error (.fault (.noContracts 1)) := by
  have hfault : uncallable.validate = .error (.nothingToInvoke 1) := rfl
  have hfits : uncallable.Fits := ⟨by decide +kernel, by decide +kernel⟩
  have hrates : ∀ w ∈ uncallable.workloads, isRate w.rate = true := by decide +kernel
  obtain ⟨fault', hsame, hplan⟩ := (agrees uncallable).refused _ hrates hfault hfits Idle.builder
    _ _ () 2 0 Idle.serves rfl trivial Nat.two_pos
  refine ⟨hfault, hplan.trans (congrArg (Except.error ∘ PlanStop.fault) ?_)⟩
  cases hsame with
  | noAccounts place h => cases h
  | noContracts => rfl

end Benchmark

end LedgerLoad
