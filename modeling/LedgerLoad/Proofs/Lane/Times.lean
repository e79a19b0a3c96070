import LedgerLoad.Proofs.Adapter.Timer
import LedgerLoad.Proofs.Lane.Course

/-! # The times in the slots of a lane

A timer is called while its own interaction has its turn, which begins when the interaction is due
and after the turn before. So every time in a slot is that of a moment between the beginning and the
end of the turn (`Lane.Takes.moments`), whatever the client calls in what order. Main statement:
`Lane.times_ordered`, no time in a slot is before the interaction was due, or before a time in an
earlier slot, as long as the clock never goes back and no sleep ends early. -/

namespace LedgerLoad

variable {σ : Type}

theorem Duration.le_since {origin span moment : Duration} (h : origin + span ≤ moment) :
    span ≤ moment.since origin := by
  have hnanos : origin.nanos + span.nanos ≤ moment.nanos := h
  show span.nanos ≤ moment.nanos - origin.nanos
  omega

/-! ### Timers -/

namespace Timer

/-- Every time of a timer is that of a moment between two others. -/
def Within (t : Timer) (first last : Duration) : Prop :=
  ∀ x ∈ t.timing.times, ∃ m, first ≤ m ∧ m ≤ last ∧ x = t.secondsAt m

theorem within_start (origin first last : Duration) : (start origin).Within first last :=
  fun _ hx => absurd hx List.not_mem_nil

/-- **A call keeps the times between the beginning and now.** -/
theorem Within.enter {t : Timer} {first last clock : Duration} {event : Event}
    (h : t.Within first last) (hfirst : first ≤ clock) (hlast : last ≤ clock) :
    (t.enter event clock).1.Within first clock := by
  intro x hx
  have hold (hx : x ∈ t.timing.times) : ∃ m, first ≤ m ∧ m ≤ clock ∧ x = t.secondsAt m := by
    obtain ⟨m, hm, hle, rfl⟩ := h x hx
    exact ⟨m, hm, Duration.le_trans hle hlast, rfl⟩
  cases hrecord : t.timing.record event (t.secondsAt clock) with
  | ok timing =>
    rw [enter_of_ok hrecord] at hx ⊢
    rcases Timing.mem_times_record hrecord hx with hx | rfl
    · exact hold hx
    · exact ⟨clock, hfirst, Duration.le_refl clock, rfl⟩
  | error violation =>
    rw [enter_of_error hrecord] at hx ⊢
    exact hold hx

end Timer

/-- A script leaves only times between its beginning and its end. -/
theorem Script.Ends.within {script : Script σ} {first clock clock' : Duration}
    {timer timer' : Timer} {ending : Ending} (h : script.Ends clock timer clock' timer' ending) (hfirst : first ≤ clock)
    (ht : timer.Within first clock) :
    clock ≤ clock' ∧ timer'.origin = timer.origin ∧ timer'.Within first clock' := by
  induction h with
  | done | fail => exact ⟨Duration.le_refl _, rfl, ht⟩
  | @record clock read _ timer _ event _ _ hle _ ih =>
    have hread := Duration.le_trans hfirst hle
    obtain ⟨hlater, horigin, hwithin⟩ := ih hread (ht.enter hread hle)
    exact ⟨Duration.le_trans hle hlater, horigin.trans (timer.origin_enter event read), hwithin⟩
  | @sleep clock read woken _ timer _ _ _ _ hle hwoken _ _ ih =>
    have hwake := Duration.le_trans hle hwoken
    have hkept : timer.Within first woken := fun x hx => by
      obtain ⟨m, hm, hlast, hx⟩ := ht x hx
      exact ⟨m, hm, Duration.le_trans hlast hwake, hx⟩
    obtain ⟨hlater, horigin, hwithin⟩ := ih (Duration.le_trans hfirst hwake) hkept
    exact ⟨Duration.le_trans hwake hlater, horigin, hwithin⟩
  | access _ _ ih => exact ih hfirst ht

/-! ### Turns -/

namespace Lane

variable {l : Lane σ} {origin clock clock' : Duration} {i : Interaction} {rest : Shard}
  {turn : Turn} {turns : List Turn}

/-- **What a turn recorded** is of moments after its beginning, at which the interaction was
due. -/
theorem Takes.moments (h : l.Takes origin clock i turn clock') :
    clock ≤ clock' ∧ ∀ x ∈ turn.timing.times, ∃ m, clock ≤ m ∧ m ≤ clock' ∧ origin + i.due ≤ m ∧
      x = (m.since origin).toSeconds := by
  cases h with
  | undecodable => exact ⟨Duration.le_refl _, fun x hx => absurd hx List.not_mem_nil⟩
  | triggered hle hdue _ hscript =>
    obtain ⟨hlater, horigin, hwithin⟩ :=
      hscript.within (Duration.le_refl _) (Timer.within_start origin _ _)
    refine ⟨Duration.le_trans hle hlater, fun x hx => ?_⟩
    obtain ⟨m, hm, hlast, hx⟩ := hwithin x hx
    refine ⟨m, Duration.le_trans hle hm, hlast, Duration.le_trans hdue hm, ?_⟩
    rw [hx, Timer.secondsAt, horigin]
    rfl

/-- No turn of a course recorded anything before the course began. -/
theorem Course.moments (h : l.Course origin clock rest turns) :
    ∀ turn ∈ turns, ∀ x ∈ turn.timing.times, ∃ m, clock ≤ m ∧ x = (m.since origin).toSeconds := by
  induction h with
  | done => exact nofun
  | stops h =>
    obtain ⟨-, hmoments⟩ := h.moments
    intro turn hturn x hx
    obtain rfl := List.mem_singleton.mp hturn
    obtain ⟨m, hm, -, -, hx⟩ := hmoments x hx
    exact ⟨m, hm, hx⟩
  | goesOn h _ hle _ ih =>
    obtain ⟨hlater, hmoments⟩ := h.moments
    intro turn hturn x hx
    rcases List.mem_cons.mp hturn with rfl | hturn
    · obtain ⟨m, hm, -, -, hx⟩ := hmoments x hx
      exact ⟨m, hm, hx⟩
    · obtain ⟨m, hm, hx⟩ := ih turn hturn x hx
      exact ⟨m, Duration.le_trans hlater (Duration.le_trans hle hm), hx⟩

/-- No time of one timing is after a time of the other. -/
def Precedes (t u : Timing) : Prop := ∀ x ∈ t.times, ∀ y ∈ u.times, x ≤ y

theorem precedes_unreached (t : Timing) : Precedes t .unreached :=
  fun _ _ _ hy => absurd hy List.not_mem_nil

/-- **The turns of a course recorded one after another.** -/
theorem Course.pairwise (h : l.Course origin clock rest turns) :
    (turns.map Turn.timing).Pairwise Precedes := by
  induction h with
  | done => exact .nil
  | stops => exact List.pairwise_singleton _ _
  | goesOn h _ hle hrest ih =>
    refine List.pairwise_cons.mpr ⟨fun u hu x hx y hy => ?_, ih⟩
    obtain ⟨later, hlater, rfl⟩ := List.mem_map.mp hu
    obtain ⟨m, -, hm, -, rfl⟩ := h.moments.2 x hx
    obtain ⟨n, hn, rfl⟩ := hrest.moments later hlater y hy
    have hmn := Duration.le_trans hm (Duration.le_trans hle hn)
    exact Duration.toSeconds_mono (Duration.since_mono hmn)

/-! ### Slots -/

/-- A lane beyond the others has no slots, and breaks down if it stores anything. -/
theorem interactions_of_beyond (hid : ¬ l.id < l.settings.count) {o : LaneOutcome}
    (h : Task.Ends clock (l.task origin) (some o)) : o.result.interactions = [] := by
  have hlength : l.length = 0 := if_pos (Nat.not_lt.mp hid)
  rw [task, hlength] at h
  cases hportion : l.portion with
  | nil =>
    rw [hportion] at h
    cases h
    rfl
  | cons i rest =>
    rw [hportion] at h
    rcases walk_cases h with ⟨hnone, -⟩ | ⟨fault, -, hsome⟩ | ⟨-, later, timer, ending, -, -, h⟩
    · cases hnone
    · obtain rfl := Option.some.inj hsome
      rfl
    · have h := h.of_quiet (quiet_noteIncomplete _ _ _)
      rw [if_neg (by simp [LaneResult.unreached])] at h
      cases h

/-- What is known of the times that a lane leaves behind. -/
structure TimesOrdered (l : Lane σ) (o : LaneOutcome) : Prop where
  /-- No time in a slot is after a time in a slot behind it. -/
  ordered : ∀ (i j : Nat) (t u : Timing), i < j → o.result.interactions[i]? = some t →
    o.result.interactions[j]? = some u → ∀ x ∈ t.times, ∀ y ∈ u.times, x ≤ y
  /-- A time in a slot is that of a moment of the run at which the interaction of the slot was
  due, -/
  moment : ∀ (k : Nat) (t : Timing), o.result.interactions[k]? = some t → ∀ x ∈ t.times,
    ∃ i, l.portion[k]? = some i ∧ ∃ m, i.due ≤ m ∧ x = m.toSeconds
  /-- and so it is not less than the time for which the interaction is scheduled. -/
  due : ∀ (k : Nat) (t : Timing) (i : Interaction), o.result.interactions[k]? = some t →
    l.portion[k]? = some i → ∀ x ∈ t.times, i.due.toSeconds ≤ x
  /-- The submissions are in order. -/
  submissions : (o.result.interactions.filterMap Timing.submit).Pairwise (· ≤ ·)

theorem timesOrdered_of_pairwise {o : LaneOutcome}
    (hpairwise : o.result.interactions.Pairwise Precedes)
    (hmoment : ∀ (k : Nat) (t : Timing), o.result.interactions[k]? = some t → ∀ x ∈ t.times,
      ∃ i, l.portion[k]? = some i ∧ ∃ m, i.due ≤ m ∧ x = m.toSeconds) :
    l.TimesOrdered o where
  ordered := by
    intro i j t u hij ht hu
    obtain ⟨hi, rfl⟩ := List.getElem?_eq_some_iff.mp ht
    obtain ⟨hj, rfl⟩ := List.getElem?_eq_some_iff.mp hu
    exact List.pairwise_iff_getElem.mp hpairwise i j hi hj hij
  moment := hmoment
  due := by
    intro k t i ht hi x hx
    obtain ⟨i', hi', m, hm, rfl⟩ := hmoment k t ht x hx
    obtain rfl := Option.some.inj (hi.symm.trans hi')
    exact Duration.toSeconds_mono hm
  submissions := by
    rw [List.pairwise_filterMap]
    refine hpairwise.imp fun htu x hx y hy => ?_
    exact htu x (Timing.mem_times.mpr (Or.inl hx)) y (Timing.mem_times.mpr (Or.inl hy))

/-- What stands in a slot is of moments at which the interaction of the slot was due. -/
theorem moment_of_slot {n k : Nat} {t : Timing} {x : Float}
    (hcourse : l.Course origin clock l.portion turns)
    (ht : (outcomeOf n turns).result.interactions[k]? = some t) (hx : x ∈ t.times) :
    ∃ i, l.portion[k]? = some i ∧ ∃ m, i.due ≤ m ∧ x = m.toSeconds := by
  simp only [outcomeOf] at ht
  by_cases hk : k < turns.length
  · rw [List.getElem?_append_left (by simpa using hk), List.getElem?_map,
      List.getElem?_eq_getElem hk] at ht
    obtain rfl := Option.some.inj ht
    obtain ⟨i, begun, ended, hi, htakes⟩ := hcourse.takes (List.getElem?_eq_getElem hk)
    obtain ⟨m, -, -, hdue, rfl⟩ := htakes.moments.2 x hx
    exact ⟨i, hi, m.since origin, Duration.le_since hdue, rfl⟩
  · rw [List.getElem?_append_right (by simpa using hk)] at ht
    obtain rfl := List.eq_of_mem_replicate (List.mem_of_getElem? ht)
    cases hx

theorem timesOrdered_of_ends {o : LaneOutcome} (h : Task.Ends clock (l.task origin) (some o)) :
    l.TimesOrdered o := by
  by_cases hid : l.id < l.settings.count
  · rcases course_of_ends hid h with ⟨hnone, -⟩ | ⟨turns, hcourse, hsome⟩
    · cases hnone
    · obtain rfl := Option.some.inj hsome
      refine timesOrdered_of_pairwise ?_ fun k t ht x hx => moment_of_slot hcourse ht hx
      refine List.pairwise_append.mpr ⟨hcourse.pairwise, ?_, fun t _ u hu => ?_⟩
      · exact List.pairwise_replicate.mpr (Or.inr (precedes_unreached _))
      · obtain rfl := List.eq_of_mem_replicate hu
        exact precedes_unreached t
  · have hnone := interactions_of_beyond hid h
    refine timesOrdered_of_pairwise (hnone ▸ .nil) fun k t ht => ?_
    rw [hnone] at ht
    cases ht

variable {p q : Pool σ LaneOutcome} {k : Nat} {o : LaneOutcome}

/-- **The times that a lane leaves behind are in order**, slot by slot, and none is before its
interaction was due: whatever the client does with its timers, whoever else runs in the pool and
however long anybody is kept waiting. -/
theorem times_ordered (ht : p.tasks[k]? = some (l.task origin)) (hrun : p.Delayed q)
    (hlast : q.tasks[k]? = some (.done o)) : l.TimesOrdered o :=
  timesOrdered_of_ends (Pool.ends_of_delayed hrun ht hlast rfl)

/-- A lane that wakes seven milliseconds late, and fails at its second interaction. -/
theorem times_ordered_fragile : ∃ q o, Fragile.pool.Delayed q ∧ q.tasks[0]? = some (.done o) ∧
    (o.result.interactions ==
      [⟨some 1e-3, some 1e-3, none⟩, ⟨some 9e-3, none, none⟩, .unreached]) = true ∧
    Fragile.lane.TimesOrdered o := by
  obtain ⟨q, hrun, o, hlast, htimes⟩ : ∃ q, Fragile.pool.Delayed q ∧ ∃ o,
      q.tasks[0]? = some (.done o) ∧ (o.result.interactions ==
        [⟨some 1e-3, some 1e-3, none⟩, ⟨some 9e-3, none, none⟩, .unreached]) = true := by
    have hfirst : Fragile.pool.clock ≤ .ofMillis 1 := by decide
    have hsecond : Duration.ofMillis 1 ≤ .ofMillis 9 := by decide
    have hbegun := Pool.delayed_wake (i := 0) hfirst rfl
    refine ⟨_, hbegun.trans (Pool.delayed_wake (i := 0) hsecond rfl), _, rfl, ?_⟩
    decide +kernel
  exact ⟨q, o, hrun, hlast, htimes, times_ordered (k := 0) rfl hrun hlast⟩

end Lane

end LedgerLoad
